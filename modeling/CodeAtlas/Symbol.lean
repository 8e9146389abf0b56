import CodeAtlas.Json.Basic

/-!
# Symbols

* `SymbolKind`, `Visibility`: what a declaration is and who may use it, with their stored names.
* `Range`: the lines, columns and bytes a declaration takes up.
* `Declaration`: a symbol as source text declares it; `Symbol`: the same with its place in the store.
* `Declaration.isExported`: the recorded export flag, or else public visibility.
-/

namespace CodeAtlas

/-- What a declaration is. -/
inductive SymbolKind where
  | function
  | method
  | classType
  | structType
  | interfaceType
  | enumType
  | plainType
  | global
  | constant
  | field
  | moduleUnit
  deriving DecidableEq, Inhabited, Repr

namespace SymbolKind

def all : List SymbolKind :=
  [.function, .method, .classType, .structType, .interfaceType, .enumType, .plainType, .global,
    .constant, .field, .moduleUnit]

/-- The stored name of a kind. -/
def label : SymbolKind → String
  | function => "function"
  | method => "method"
  | classType => "class"
  | structType => "struct"
  | interfaceType => "interface"
  | enumType => "enum"
  | plainType => "type"
  | global => "variable"
  | constant => "constant"
  | field => "field"
  | moduleUnit => "module"

/-- The kind with the given stored name. -/
def ofLabel? (s : String) : Option SymbolKind := all.find? (·.label == s)

/-- Kinds that can stand on the right of `extends` and `implements`. -/
def isTypeLike : SymbolKind → Bool
  | classType | structType | interfaceType | enumType | plainType => true
  | _ => false

end SymbolKind

/-- Who may use a declaration. -/
inductive Visibility where
  | visible
  | hidden
  | guarded
  | internal
  deriving DecidableEq, Inhabited, Repr

namespace Visibility

def all : List Visibility := [.visible, .hidden, .guarded, .internal]

/-- The stored name of a level. -/
def label : Visibility → String
  | visible => "public"
  | hidden => "private"
  | guarded => "protected"
  | internal => "internal"

/-- The level with the given stored name. -/
def ofLabel? (s : String) : Option Visibility := all.find? (·.label == s)

end Visibility

/-- The source span of a declaration. Lines and columns count from one, columns count bytes. -/
structure Range where
  startLine : Nat := 0
  startColumn : Nat := 0
  endLine : Nat := 0
  endColumn : Nat := 0
  startByte : Nat := 0
  endByte : Nat := 0
  deriving DecidableEq, Inhabited

/-- Whether a line lies in a range, both ends included. -/
def Range.containsLine (r : Range) (line : Nat) : Bool := r.startLine ≤ line && line ≤ r.endLine

/-- Data people keep on a symbol; it is never read from source text. -/
structure Workflow where
  status : Option String := none
  priority : Option Int := none
  assignedAgent : Option String := none
  deriving DecidableEq, Inhabited

/-- A symbol as source text declares it. -/
structure Declaration where
  name : String
  kind : SymbolKind := .function
  signature : Option String := none
  documentation : Option String := none
  visibility : Visibility := .visible
  range : Range := {}
  contentHash : String := ""
  workflow : Workflow := {}
  metadata : Json := .empty
  deriving Inhabited

/-- A declaration with its place in the store. -/
structure Symbol extends Declaration where
  id : Int := 0
  fileId : Int := 0
  filePath : String := ""
  deriving Inhabited

/-- Whether a symbol can be reached from outside its module: the recorded flag if there is one, or
else public visibility. -/
def Declaration.isExported (d : Declaration) : Bool :=
  match (d.metadata.get? "exported").bind Json.asBool? with
  | some b => b
  | none => d.visibility == .visible

end CodeAtlas
