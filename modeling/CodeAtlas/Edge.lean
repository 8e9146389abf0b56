import CodeAtlas.Json.Basic
import CodeAtlas.Text.Blank

/-!
# Imports, uses and edges

* `Edge`: a structural link between two names as source text shows it; `Relationship`: the same in
  the store, with the symbols its names were resolved to.
* `Use`: a place where a name is used; `Reference`: the same in the store.
* `ImportClause`: an import of a file; `Import`: the same in the store.
* `ImportClause.bindingName`: the name that an import binds.
-/

namespace CodeAtlas

/-- The kinds of structural links. -/
inductive EdgeKind where
  | calls
  | uses
  | inherits
  | implements
  | composes
  deriving DecidableEq, Inhabited, Repr

namespace EdgeKind

def all : List EdgeKind := [.calls, .uses, .inherits, .implements, .composes]

/-- The stored name of a kind. -/
def label : EdgeKind → String
  | calls => "calls"
  | uses => "uses"
  | inherits => "extends"
  | implements => "implements"
  | composes => "composes"

/-- The kind with the given stored name. -/
def ofLabel? (s : String) : Option EdgeKind := all.find? (·.label == s)

end EdgeKind

/-- The kinds of use-sites. -/
inductive UseKind where
  | call
  | use
  | construct
  deriving DecidableEq, Inhabited, Repr

namespace UseKind

def all : List UseKind := [.call, .use, .construct]

/-- The stored name of a kind. -/
def label : UseKind → String
  | call => "call"
  | use => "use"
  | construct => "instantiate"

/-- The kind with the given stored name. -/
def ofLabel? (s : String) : Option UseKind := all.find? (·.label == s)

end UseKind

/-- A structural link between two names, as source text shows it. -/
structure Edge where
  kind : EdgeKind
  source : String
  target : String
  line : Nat
  metadata : Json := .empty
  deriving Inhabited

/-- An edge in the store. The two ids are the symbols its names were resolved to. -/
structure Relationship extends Edge where
  id : Int
  sourceId : Option Int
  targetId : Option Int
  filePath : String
  deriving Inhabited

/-- A place where a name is used, as source text shows it; `source` is the symbol around it. -/
structure Use where
  kind : UseKind
  source : Option String
  target : String
  qualifier : Option String
  line : Nat
  column : Nat
  deriving DecidableEq, Inhabited

/-- A use in the store. The two ids are the symbols around it and behind its name. -/
structure Reference where
  id : Int
  sourceId : Option Int
  target : String
  targetId : Option Int
  qualifier : Option String
  kind : UseKind
  filePath : String
  line : Nat
  column : Nat
  deriving DecidableEq, Inhabited

/-- An import, as source text shows it. -/
structure ImportClause where
  path : String := ""
  localName : Option String := none
  names : List String := []
  isWildcard : Bool := false
  startLine : Nat := 0
  endLine : Nat := 0
  deriving DecidableEq, Inhabited

/-- An import in the store. -/
structure Import extends ImportClause where
  id : Int := 0
  filePath : String := ""
  deriving DecidableEq, Inhabited

/-- The name that an import binds: its alias, or the last piece of its path that is not empty. -/
def ImportClause.bindingName (i : ImportClause) : String :=
  match i.localName with
  | some a => a
  | none =>
    let pieces := Text.splitBy (fun c => c == '/' || c == '.' || c == ':') i.path.toList
    match pieces.reverse.find? (fun p => !p.isEmpty) with
    | some p => .ofList p
    | none => i.path

end CodeAtlas
