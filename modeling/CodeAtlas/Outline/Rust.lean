import CodeAtlas.Outline.Fact
import CodeAtlas.Syntax.Rust.Grammar

/-!
# Outlines of Rust

* `builtins`: the names of the prelude and the standard library that no project declares.
* `Scope`: the symbol that owns the uses at a place, the type whose items stand there, and the
  visibility those items take from it.
* `typeNames`: the types that a type expression names.
* `walk`: the facts of a syntax tree; `outline`: the outline of a source text.
-/

namespace CodeAtlas.Outline.Rust

open Syntax Syntax.Rust

/-- Syntax trees of Rust. -/
abbrev Node := Tree Kind Role

/-- The names of the prelude and the standard library that no project declares. -/
def builtins : List String :=
  ["Some", "None", "Ok", "Err", "Box", "Vec", "String", "Option", "Result", "Self", "Default",
    "Rc", "Arc", "RefCell", "Cell", "Mutex", "RwLock", "HashMap", "HashSet", "BTreeMap", "BTreeSet",
    "VecDeque", "Path", "PathBuf", "Cow", "From", "Into", "Clone", "Copy", "Debug", "Display",
    "Iterator", "IntoIterator", "Send", "Sync", "Sized", "Eq", "PartialEq", "Ord", "PartialOrd",
    "Hash", "AsRef", "ToString", "Fn", "FnMut", "FnOnce", "drop", "std", "core", "alloc"]

/-- A use of a name that no project declares otherwise. -/
def use (kind : UseKind) (source : Option String) (name : String) (qualifier : Option String)
    (place : Point) : List Fact :=
  link builtins kind (plainEdge kind) source name qualifier place

/-- Where a node stands. -/
structure Scope where
  /-- The symbol that owns the uses. -/
  source : Option String := none
  /-- The type whose items stand here. -/
  owner : Option String := none
  /-- The visibility that items take from the trait. -/
  inherited : Option Visibility := none

/-- The visibility that an item states. -/
def visibility (src : Source) (t : Node) : Visibility :=
  match (t.named.find? (·.label == .kind .visibility)).bind (·.text? src) with
  | some s => if s == "pub" then .visible else .internal
  | none => .hidden

/-- A text without the repetitions of `tail` behind it. -/
def dropTails (tail : List Char) (s : String) : String := .ofList (loop s.length s.toList)
where
  loop : Nat → List Char → List Char
    | 0, s => s
    | n + 1, s =>
      match Text.stripEnd? tail s with
      | some s => loop n s
      | none => s

/-- The documentation of an item: the comments above it, attributes passed over. -/
def documentation (src : Source) (t : Node) (before : List Node) : Option String :=
  (leadingComments src ["///", "/**"] (· == .kind .attributeItem) t before).map fun doc =>
    Text.trim (dropTails ['*', '/'] doc)

def symbol (src : Source) (scope : Scope) (t : Node) (before : List Node) (name : String)
    (kind : SymbolKind) : Declaration :=
  let visibility := scope.inherited.getD (visibility src t)
  let metadata := Json.object [("exported", .bool (visibility == .visible))]
  { declaration src t.span name kind with
    visibility
    documentation := documentation src t before
    metadata := match scope.owner with
      | some owner => metadata.set "owner" (.str owner)
      | none => metadata }

mutual

/-- The types that a type expression names, with their paths and places. Names of values and
lifetimes are no types. -/
def typeNames (src : Source) : Node → List (String × Option String × Point)
  | .node label role span children =>
    let t : Node := .node label role span children
    match label with
    | .kind .typeName => ((t.text? src).map fun n => [(n, none, span.start)]).getD []
    | .kind .scopedType =>
      ((t.childText? src .name).map fun n => [(n, t.childText? src .path, span.start)]).getD []
    | .kind .name | .kind .selfParam | .kind .lifetime => []
    | _ => typeNamesIn src children

/-- The types that some type expressions name. -/
def typeNamesIn (src : Source) : List Node → List (String × Option String × Point)
  | [] => []
  | t :: ts => (if t.label.isNamed then typeNames src t else []) ++ typeNamesIn src ts

end

/-- The type behind the name `Self`. -/
def resolveSelf (owner : Option String) (name : String) : String :=
  if name == "Self" then owner.getD name else name

/-- Edges from a symbol to the types that a type expression names. -/
def linkTypes (src : Source) (scope : Scope) (source : String) (edge : EdgeKind) (t : Node) :
    List Fact :=
  (typeNames src t).flatMap fun (name, qualifier, place) =>
    link builtins .use edge (some source) (resolveSelf scope.owner name) qualifier place

mutual

/-- The name at the head of a type expression, behind references, paths and type arguments. -/
def headName : Node → Option Node
  | .node label role span children =>
    let t : Node := .node label role span children
    match label with
    | .kind .typeName | .kind .name => some t
    | .kind .scopedType | .kind .scoped => t.child? .name
    | .kind .genericType | .kind .referenceType | .kind .pointerType => headNameIn children
    | _ => none

/-- The same for the first node in the role of a type. -/
def headNameIn : List Node → Option Node
  | [] => none
  | t :: ts => if t.role == some .type then headName t else headNameIn ts

end

mutual

/-- The path before the name at the head of a type expression. -/
def headPath (src : Source) : Node → Option String
  | .node label role span children =>
    let t : Node := .node label role span children
    match label with
    | .kind .scopedType | .kind .scoped => t.childText? src .path
    | .kind .genericType => headPathIn src children
    | _ => none

/-- The same for the first node in the role of a type. -/
def headPathIn (src : Source) : List Node → Option String
  | [] => none
  | t :: ts => if t.role == some .type then headPath src t else headPathIn src ts

end

/-- A function or a method, and the types of its parameters and its result. -/
def functionFacts (src : Source) (scope : Scope) (t : Node) (before : List Node) (name : String) :
    List Fact :=
  let d := symbol src scope t before name (if scope.owner.isSome then .method else .function)
  .declares { d with
      signature := (signatureBefore src t .body).map (Text.trimTail (· == ';')) } ::
    [Role.parameters, Role.returnType].flatMap fun role =>
      match t.child? role with
      | some part => linkTypes src scope name .uses part
      | none => []

/-- A struct, its fields and the types it holds. -/
def structFacts (src : Source) (t : Node) (before : List Node) : List Fact :=
  match t.childText? src .name with
  | none => []
  | some name =>
    let scope : Scope := { owner := some name }
    .declares { symbol src {} t before name .structType with
        signature := signatureBefore src t .body } ::
      match t.child? .body with
      | none => []
      | some body =>
        (sitedChildren body).flatMap fun (before, f) =>
          let declared : Option Fact := do
            guard (f.label == Label.kind .fieldDecl)
            let n ← f.childText? src .name
            pure (Fact.declares { symbol src scope f before n .field with
              signature := (f.text? src).map Text.trim })
          declared.toList ++ linkTypes src scope name .composes ((f.child? .type).getD f)

/-- An item that is known by its name, and the type it states. -/
def namedFacts (src : Source) (scope : Scope) (t : Node) (before : List Node) (kind : SymbolKind)
    (name : String) : List Fact :=
  let signature := match kind with
    | .enumType => signatureBefore src t .body
    | _ => (firstLine? src t).map fun line =>
      Text.trimEnd (Text.trimTail (fun c => c == '\x7b' || c == ';') (Text.trim line))
  .declares { symbol src scope t before name kind with signature } ::
    match t.child? .type with
    | some type => linkTypes src scope name .uses type
    | none => []

/-- What kind of symbol an item is that is known by its name. -/
def namedKind? : Label Kind → Option SymbolKind
  | .kind .enumItem | .kind .unionItem => some .enumType
  | .kind .typeItem => some .plainType
  | .kind .constItem => some .constant
  | .kind .staticItem => some .global
  | _ => none

/-- A trait and the traits it builds on. -/
def traitFacts (src : Source) (t : Node) (before : List Node) (name : String) : List Fact :=
  .declares { symbol src {} t before name .interfaceType with
      signature := signatureBefore src t .body } ::
    match t.child? .bounds with
    | some bounds => linkTypes src {} name .inherits bounds
    | none => []

/-- The type that an implementation is for. -/
def implTarget? (src : Source) (t : Node) : Option String :=
  ((t.child? .type).bind headName).bind (·.text? src)

/-- The edge from a type to the trait it implements. -/
def implFacts (src : Source) (t : Node) (target : String) : List Fact :=
  match t.child? .trait with
  | none => []
  | some tr =>
    match (headName tr).bind (·.text? src) with
    | none => []
    | some name =>
      link builtins .use .implements (some target) name (headPath src tr) tr.span.start

mutual

/-- The imports of a use tree below the path `base`, one for each of its leaves. -/
def useLeaves (src : Source) (base : String) : Node → List ImportClause
  | .node label role span children =>
    let t : Node := .node label role span children
    let join (path : String) : String := if base.isEmpty then path else base ++ "::" ++ path
    let last (full : String) : String := .ofList (Text.lastPiece [':', ':'] full.toList)
    match label with
    | .kind .useAs =>
      ((t.childText? src .path).map fun path =>
        [{ path := join path, localName := t.childText? src .alternative,
           names := [last (join path)] }]).getD []
    | .kind .scopedUseList =>
      useLeavesList src (((t.childText? src .path).map join).getD base) children
    | .kind .useList => useLeavesIn src base children
    | .kind .useWildcard =>
      ((t.text? src).map fun text =>
        [{ path := join (dropTails [':', ':'] (Text.trimTail (· == '*') text)),
           isWildcard := true }]).getD []
    | .kind .scoped | .kind .name | .kind .pathWord =>
      ((t.text? src).map fun text => [{ path := join text, names := [last (join text)] }]).getD []
    | _ => []

/-- The imports of the list among the parts of a use tree. -/
def useLeavesList (src : Source) (base : String) : List Node → List ImportClause
  | [] => []
  | t :: ts => if t.role == some .list then useLeaves src base t else useLeavesList src base ts

/-- The imports of use trees one after the other. -/
def useLeavesIn (src : Source) (base : String) : List Node → List ImportClause
  | [] => []
  | t :: ts => (if t.label.isNamed then useLeaves src base t else []) ++ useLeavesIn src base ts

end

/-- The imports of a use declaration. -/
def useFacts (src : Source) (t : Node) : List Fact :=
  match t.child? .argument with
  | none => []
  | some argument => (useLeaves src "" argument).map (importOf t.span)

/-- The use that a call makes of a named function. -/
def callFacts (src : Source) (scope : Scope) (t : Node) : List Fact :=
  let called := (t.child? .function).bind fun f =>
    if f.label == .kind .genericFunction then f.child? .function else some f
  match called with
  | none => []
  | some f =>
    match f.label with
    | .kind .name =>
      ((f.text? src).map fun name => use .call scope.source name none f.span.start).getD []
    | .kind .scoped =>
      let qualifier := (f.childText? src .path).map (resolveSelf scope.owner)
      ((f.childText? src .name).map fun name =>
        use .call scope.source name qualifier f.span.start).getD []
    | .kind .fieldAccess =>
      let qualifier := ((f.child? .value).bind (·.text? src)).map receiverText
      ((f.childText? src .member).map fun name =>
        use .call scope.source name qualifier f.span.start).getD []
    | _ => []

/-- The use that a literal makes of its struct. -/
def literalFacts (src : Source) (scope : Scope) (t : Node) : List Fact :=
  match t.child? .name with
  | none => []
  | some type =>
    match (headName type).bind (·.text? src) with
    | none => []
    | some name =>
      use .construct scope.source (resolveSelf scope.owner name) (headPath src type)
        type.span.start

/-- What an expression shows by itself. -/
def localFacts (src : Source) (scope : Scope) (t : Node) : List Fact :=
  match t.label with
  | .kind .call => callFacts src scope t
  | .kind .structLiteral => literalFacts src scope t
  | _ => []

mutual

/-- The facts of a syntax tree after the nodes `before`. -/
def walk (src : Source) (scope : Scope) (before : List Node) : Node → List Fact
  | .node label role span children =>
    let t : Node := .node label role span children
    match label with
    | .kind .functionItem | .kind .functionSignature =>
      match t.childText? src .name with
      | none => []
      | some name =>
        functionFacts src scope t before name ++
          walkIn src { source := some name, owner := scope.owner } .body [] children
    | .kind .structItem => structFacts src t before
    | .kind .traitItem =>
      match t.childText? src .name with
      | none => []
      | some name =>
        traitFacts src t before name ++
          walkBody src { owner := some name, inherited := some (visibility src t) } children
    | .kind .implItem =>
      match implTarget? src t with
      | none => []
      | some target =>
        implFacts src t target ++
          walkBody src
            { owner := some target, inherited := (t.child? .trait).map fun _ => .visible } children
    | .kind .modItem =>
      match t.childText? src .name with
      | none => []
      | some name =>
        .declares { symbol src {} t before name .moduleUnit with
            signature := some ("mod " ++ name) } ::
          walkIn src {} .body [] children
    | .kind .useDecl => useFacts src t
    | label =>
      match namedKind? label with
      | some kind =>
        match t.childText? src .name with
        | none => []
        | some name =>
          namedFacts src scope t before kind name ++
            walkIn src { scope with source := some name } .value [] children
      | none => localFacts src scope t ++ walkAll src scope [] children
termination_by structural t => t

/-- The facts of named nodes one after the other. -/
def walkAll (src : Source) (scope : Scope) (before : List Node) : List Node → List Fact
  | [] => []
  | t :: ts =>
    (if t.label.isNamed then walk src scope before t else []) ++ walkAll src scope (t :: before) ts
termination_by structural t => t

/-- The facts of the first node in a role. -/
def walkIn (src : Source) (scope : Scope) (role : Role) (before : List Node) :
    List Node → List Fact
  | [] => []
  | t :: ts =>
    if t.role == some role then walk src scope before t
    else walkIn src scope role (t :: before) ts
termination_by structural t => t

/-- The facts of the items in the body of a trait or an implementation. -/
def walkBody (src : Source) (scope : Scope) : List Node → List Fact
  | [] => []
  | .node _ role _ children :: ts =>
    if role == some .body then walkItems src scope [] children else walkBody src scope ts
termination_by structural t => t

/-- The facts of such items one after the other. Types without a definition count here. -/
def walkItems (src : Source) (scope : Scope) (before : List Node) : List Node → List Fact
  | [] => []
  | .node label role span children :: ts =>
    let t : Node := .node label role span children
    (if label == .kind .associatedType then
        match t.childText? src .name with
        | none => []
        | some name =>
          namedFacts src scope t before .plainType name ++
            walkIn src { scope with source := some name } .value [] children
      else if label.isNamed then walk src scope before t
      else []) ++
      walkItems src scope (t :: before) ts
termination_by structural t => t

end

def outline (src : Source) : Outline := .ofFacts (walk src {} [] (parseTree src))

end CodeAtlas.Outline.Rust
