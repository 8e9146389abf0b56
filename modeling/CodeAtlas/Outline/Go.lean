import CodeAtlas.Outline.Fact
import CodeAtlas.Syntax.Go.Grammar
import CodeAtlas.Text.Category

/-!
# Outlines of Go

* `builtins`: the names the language provides.
* `typeNames`: the types that a type expression names.
* `walk`: the facts of a syntax tree; `outline`: the outline of a source text.
-/

namespace CodeAtlas.Outline.Go

open Syntax Syntax.Go

/-- Syntax trees of Go. -/
abbrev Node := Tree Kind Role

/-- The names the language provides. -/
def builtins : List String :=
  ["append", "cap", "clear", "close", "complex", "copy", "delete", "imag", "len", "make", "max",
    "min", "new", "panic", "print", "println", "real", "recover", "any", "bool", "byte",
    "comparable", "complex64", "complex128", "error", "float32", "float64", "int", "int8", "int16",
    "int32", "int64", "rune", "string", "uint", "uint8", "uint16", "uint32", "uint64", "uintptr",
    "nil", "true", "false", "iota"]

/-- A use of a name that the language does not provide. -/
def use (kind : UseKind) (source : Option String) (name : String) (qualifier : Option String)
    (place : Point) : List Fact :=
  link builtins kind (plainEdge kind) source name qualifier place

/-- A name is exported if it starts with a capital. -/
def isExportedName (name : String) : Bool :=
  match name.toList with
  | c :: _ => Text.isUppercase c
  | [] => false

/-- A declared symbol. Its documentation is the comment above `doc`, which may be a node around the
symbol's own. -/
def symbol (src : Source) (t doc : Node) (before : List Node) (name : String) (kind : SymbolKind) :
    Declaration :=
  let exported := isExportedName name
  { declaration src t.span name kind with
    visibility := if exported then .visible else .hidden
    documentation := leadingComments src ["//"] (fun _ => false) doc before
    metadata := .object [("exported", .bool exported)] }

/-- Records the type that a symbol belongs to. -/
def ownedBy (owner : String) (d : Declaration) : Declaration :=
  { d with metadata := d.metadata.set "owner" (.str owner) }

mutual

/-- The types that a type expression names, with their packages and places. -/
def typeNames (src : Source) : Node → List (String × Option String × Point)
  | .node label role span children =>
    let t : Node := .node label role span children
    match label with
    | .kind .typeName => ((t.text? src).map fun n => [(n, none, span.start)]).getD []
    | .kind .qualifiedType =>
      ((t.childText? src .name).map fun n =>
        [(n, t.childText? src .package, span.start)]).getD []
    | _ => typeNamesIn src children

/-- The types that some type expressions name. -/
def typeNamesIn (src : Source) : List Node → List (String × Option String × Point)
  | [] => []
  | t :: ts => (if t.label.isNamed then typeNames src t else []) ++ typeNamesIn src ts

end

/-- Edges from a symbol to the types that a type expression names. -/
def linkTypes (src : Source) (owner : String) (edge : EdgeKind) (t : Node) : List Fact :=
  (typeNames src t).flatMap fun (name, qualifier, place) =>
    link builtins .use edge (some owner) name qualifier place

mutual

/-- A use of the type at the head of a type expression, behind pointers and type arguments. -/
def useHead (src : Source) (kind : UseKind) (source : Option String) : Node → List Fact
  | .node label role span children =>
    let t : Node := .node label role span children
    match label with
    | .kind .typeName => ((t.text? src).map fun n => use kind source n none span.start).getD []
    | .kind .qualifiedType =>
      ((t.childText? src .name).map fun n =>
        use kind source n (t.childText? src .package) span.start).getD []
    | .kind .genericType | .kind .pointerType =>
      if (t.child? .type).isSome then useHeadTyped src kind source children
      else useHeadFirst src kind source children
    | _ => []

/-- The same for the first child in the role of a type. -/
def useHeadTyped (src : Source) (kind : UseKind) (source : Option String) :
    List Node → List Fact
  | [] => []
  | t :: ts => if t.role == some .type then useHead src kind source t
    else useHeadTyped src kind source ts

/-- The same for the first child with a name. -/
def useHeadFirst (src : Source) (kind : UseKind) (source : Option String) :
    List Node → List Fact
  | [] => []
  | t :: ts => if t.label.isNamed then useHead src kind source t
    else useHeadFirst src kind source ts

end

/-- The types that a function names in its parameters and its result. -/
def signatureUses (src : Source) (owner : String) (t : Node) : List Fact :=
  [Role.parameters, Role.result].flatMap fun role =>
    match t.child? role with
    | some part => linkTypes src owner .uses part
    | none => []

/-- The type that a method is for. -/
def receiver? (src : Source) (t : Node) : Option String := do
  guard (t.label == .kind .methodDecl)
  let r ← t.child? .receiver
  let type ← r.find? (· == .kind .typeName)
  type.text? src

/-- The symbol of a function or a method. -/
def functionSymbol (src : Source) (t : Node) (before : List Node) (name : String) : Declaration :=
  let d := symbol src t t before name
    (if t.label == .kind .methodDecl then .method else .function)
  { d with
    signature := signatureBefore src t .body
    metadata := match receiver? src t with
      | some r => d.metadata.set "receiver" (.str r)
      | none => d.metadata }

/-- A function or a method. -/
def functionFacts (src : Source) (t : Node) (before : List Node) (name : String) : List Fact :=
  .declares (functionSymbol src t before name) :: signatureUses src name t

/-- The fields of a struct, and the types it embeds or holds. -/
def fieldFacts (src : Source) (owner : String) (t : Node) : List Fact :=
  match t.find? (· == .kind .fieldList) with
  | none => []
  | some list =>
    (sitedChildren list).flatMap fun (before, f) =>
      if f.label != .kind .fieldDecl then []
      else
        match f.child? .type with
        | none => []
        | some type =>
          let names := (f.childrenIn .name).filterMap (·.text? src)
          if names.isEmpty then linkTypes src owner .inherits type
          else
            (names.map fun name =>
              .declares (ownedBy owner { symbol src f f before name .field with
                signature := (f.text? src).map Text.trim })) ++
            linkTypes src owner .composes type

/-- The methods of an interface, and the types it embeds. -/
def interfaceFacts (src : Source) (owner : String) (t : Node) : List Fact :=
  (sitedChildren t).flatMap fun (before, e) =>
    match e.label with
    | .kind .methodElem =>
      match e.childText? src .name with
      | some name =>
        [.declares (ownedBy owner { symbol src e e before name .method with
          signature := (e.text? src).map Text.trim })]
      | none => []
    | .kind .typeElem | .kind .typeName | .kind .qualifiedType => linkTypes src owner .inherits e
    | _ => []

/-- The types of a declaration. The only one of a declaration takes up all of it. -/
def typeFacts (src : Source) (decl : Node) (before : List Node) : List Fact :=
  let specs := (sitedChildren decl).filter (·.2.label == .kind .typeSpec)
  specs.flatMap fun (specBefore, spec) =>
    match spec.childText? src .name with
    | none => []
    | some name =>
      let type := spec.child? .type
      let kind := match type.map (·.label) with
        | some (.kind .structType) => SymbolKind.structType
        | some (.kind .interfaceType) => SymbolKind.interfaceType
        | _ => SymbolKind.plainType
      let d := if specs.length > 1 then symbol src spec spec specBefore name kind
        else symbol src decl decl before name kind
      .declares { d with signature := some ("type " ++ name) } ::
        match kind, type with
        | .structType, some body => fieldFacts src name body
        | .interfaceType, some body => interfaceFacts src name body
        | _, some named => useHead src .use (some name) named
        | _, none => []

/-- The constants or variables of one specification. -/
def specFacts (src : Source) (decl : Node) (before : List Node) (spec : Node) : List Fact :=
  let kind := if decl.label == .kind .constDecl then SymbolKind.constant else SymbolKind.global
  let names := (spec.childrenIn .name).filterMap (·.text? src)
  (names.filter (· != "_")).map fun name =>
    .declares { symbol src spec decl before name kind with signature := firstLine? src spec }

mutual

/-- The constants or variables of a declaration at the top of a file, or of a list inside of it. -/
def valueFacts (src : Source) (decl : Node) (before : List Node) : Node → List Fact
  | .node _ _ _ children => valueFactsIn src decl before children

/-- The constants or variables of specifications, and of lists of them. -/
def valueFactsIn (src : Source) (decl : Node) (before : List Node) : List Node → List Fact
  | [] => []
  | t :: ts =>
    (match t.label with
      | .kind .constSpec | .kind .varSpec => specFacts src decl before t
      | .kind .varSpecList => valueFacts src decl before t
      | _ => []) ++
      valueFactsIn src decl before ts

end

/-- The quote around raw strings. -/
def backquote : Char := .ofNat 96

def importFacts (src : Source) (spec : Node) : List Fact :=
  match spec.childText? src .path with
  | none => []
  | some path =>
    let path := Text.trimBoth (fun c => c == '"' || c == backquote) path
    let clause : ImportClause := match spec.child? .name with
      | none => { path }
      | some n =>
        if n.label == .kind .dot then { path, isWildcard := true }
        else { path, localName := n.text? src }
    [importOf spec.span clause]

mutual

/-- The imports of a declaration, or of a list inside of it. -/
def importDeclFacts (src : Source) : Node → List Fact
  | .node _ _ _ children => importDeclFactsIn src children

/-- The imports of specifications, and of lists of them. -/
def importDeclFactsIn (src : Source) : List Node → List Fact
  | [] => []
  | t :: ts =>
    (match t.label with
      | .kind .importSpec => importFacts src t
      | .kind .importSpecList => importDeclFacts src t
      | _ => []) ++
      importDeclFactsIn src ts

end

/-- The use that a call makes of a named function. -/
def callFacts (src : Source) (source : Option String) (t : Node) : List Fact :=
  match t.child? .function with
  | none => []
  | some f =>
    match f.label with
    | .kind .name =>
      ((f.text? src).map fun name => use .call source name none f.span.start).getD []
    | .kind .selector =>
      let qualifier := ((f.child? .operand).bind (·.text? src)).map receiverText
      ((f.childText? src .member).map fun name =>
        use .call source name qualifier f.span.start).getD []
    | _ => []

/-- The use that a literal makes of its type. -/
def literalFacts (src : Source) (source : Option String) (t : Node) : List Fact :=
  match t.child? .type with
  | some type => useHead src .construct source type
  | none => []

/-- What a node shows by itself. -/
def localFacts (src : Source) (source : Option String) (before : List Node) (t : Node) :
    List Fact :=
  match t.label with
  | .kind .constDecl | .kind .varDecl => if source.isNone then valueFacts src t before t else []
  | .kind .call => callFacts src source t
  | .kind .composite => literalFacts src source t
  | _ => []

mutual

/-- The facts of a syntax tree, inside the symbol `source` and after the nodes `before`. -/
def walk (src : Source) (source : Option String) (before : List Node) : Node → List Fact
  | .node label role span children =>
    let t : Node := .node label role span children
    match label with
    | .kind .functionDecl | .kind .methodDecl =>
      match t.childText? src .name with
      | none => []
      | some name => functionFacts src t before name ++ walkBody src name [] children
    | .kind .typeDecl => typeFacts src t before
    | .kind .importDecl => importDeclFacts src t
    | _ => localFacts src source before t ++ walkAll src source [] children

/-- The facts of named nodes one after the other. -/
def walkAll (src : Source) (source : Option String) (before : List Node) : List Node → List Fact
  | [] => []
  | t :: ts =>
    (if t.label.isNamed then walk src source before t else []) ++
      walkAll src source (t :: before) ts

/-- The facts of the body among the parts of a function. -/
def walkBody (src : Source) (name : String) (before : List Node) : List Node → List Fact
  | [] => []
  | t :: ts =>
    if t.role == some .body then walk src (some name) before t
    else walkBody src name (t :: before) ts

end

def outline (src : Source) : Outline := .ofFacts (walk src none [] (parseTree src))

end CodeAtlas.Outline.Go
