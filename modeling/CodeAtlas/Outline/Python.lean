import CodeAtlas.Outline.Fact
import CodeAtlas.Syntax.Python.Grammar

/-!
# Outlines of Python

* `builtins`: the names the language provides.
* `Scope`: the symbol that owns the uses at a place, and the class whose body it is in.
* `walk`: the facts of a syntax tree; `annotate`: the names used in annotations.
* `outline`: the outline of a source text.
-/

namespace CodeAtlas.Outline.Python

open Syntax Syntax.Python

/-- Syntax trees of Python. -/
abbrev Node := Tree Kind Role

/-- The names the language provides. -/
def builtins : List String :=
  ["abs", "all", "any", "bool", "bytes", "callable", "classmethod", "dict", "dir", "divmod",
    "enumerate", "filter", "float", "format", "frozenset", "getattr", "hasattr", "hash", "id",
    "input", "int", "isinstance", "issubclass", "iter", "len", "list", "map", "max", "min", "next",
    "object", "open", "print", "property", "range", "repr", "reversed", "round", "set", "setattr",
    "sorted", "staticmethod", "str", "sum", "super", "tuple", "type", "vars", "zip", "None", "True",
    "False", "Exception", "BaseException", "ValueError", "TypeError", "KeyError", "IndexError",
    "AttributeError", "RuntimeError", "NotImplementedError", "StopIteration", "OSError", "IOError"]

/-- A use of a name that the language does not provide. -/
def use (kind : UseKind) (source : Option String) (name : String) (qualifier : Option String)
    (place : Point) : List Fact :=
  link builtins kind (plainEdge kind) source name qualifier place

/-- Where a node stands: the symbol that owns its uses, and the class whose body it is directly
in. -/
structure Scope where
  source : Option String := none
  owner : Option String := none

/-- The node that a symbol takes up, with the nodes before it, nearest first. -/
structure Site where
  span : Span
  before : List Node

/-- The comment right above a site. -/
def Site.comment (src : Source) (s : Site) : Option String :=
  leadingComments src ["#"] (fun _ => false) (.node .plain none s.span [] : Node) s.before

/-- Names that start with an underscore are private, unless two stand at both ends. -/
def isExportedName (name : String) : Bool :=
  let cs := name.toList
  let two := ['_', '_']
  !Text.startsWith ['_'] cs || (Text.startsWith two cs && Text.endsWith two cs)

def symbol (src : Source) (site : Site) (name : String) (kind : SymbolKind)
    (owner : Option String) : Declaration :=
  let exported := isExportedName name
  let metadata := Json.object [("exported", .bool exported)]
  { declaration src site.span name kind with
    visibility := if exported then .visible else .hidden
    metadata := match owner with
      | some c => metadata.set "owner" (.str c)
      | none => metadata }

/-- The letters that may stand before the quotes of a string. -/
def isStringLetter (c : Char) : Bool := ['r', 'R', 'u', 'U', 'b', 'B', 'f', 'F'].contains c

/-- The quotes of strings. -/
def isQuote (c : Char) : Bool := c == '"' || c == .ofNat 39

/-- The string that is the first statement of a definition's body. -/
def docstring (src : Source) (t : Node) : Option String := do
  let body ← t.child? .body
  let first ← body.named.head?
  guard (first.label == .kind .exprStatement)
  let string ← first.named.head?
  guard (string.label == .kind .string)
  let raw ← string.text? src
  let doc := Text.trim (Text.trimBoth isQuote (.ofList (raw.toList.dropWhile isStringLetter)))
  guard (!doc.isEmpty)
  pure doc

/-- A function, a method or a class. -/
def definitionFact (src : Source) (t : Node) (site : Site) (name : String) (kind : SymbolKind)
    (owner : Option String) : Fact :=
  .declares { symbol src site name kind owner with
    signature := signatureBefore src t .body
    documentation := (docstring src t).or (site.comment src) }

/-- A class's use of a base that is a name or an attribute. -/
def baseFacts (src : Source) (name : String) (base : Node) : List Fact :=
  match base.label with
  | .kind .attribute =>
    ((base.childText? src .attribute).map fun n =>
      link builtins .use .inherits (some name) n (base.childText? src .object)
        base.span.start).getD []
  | _ =>
    ((base.text? src).map fun n =>
      link builtins .use .inherits (some name) n none base.span.start).getD []

/-- A name in capitals, digits and underscores is a constant. -/
def isConstantName (name : String) : Bool :=
  name.toList.any Char.isAlpha &&
    name.toList.all fun c => c.isUpper || c.isDigit || c == '_'

/-- A name assigned at the top of a file or in the body of a class. -/
def assignmentFacts (src : Source) (scope : Scope) (t : Node) (site : Site) : List Fact :=
  if scope.source.isSome && scope.owner.isNone then []
  else
    match t.child? .left with
    | none => []
    | some left =>
      if left.label != .kind .name then []
      else
        match left.text? src with
        | none => []
        | some name =>
          let kind := match scope.owner with
            | some _ => SymbolKind.field
            | none => if isConstantName name then .constant else .global
          [.declares { symbol src site name kind scope.owner with
            signature := (firstLine? src t).map Text.trim
            documentation := site.comment src }]

def importFacts (src : Source) (t : Node) : List Fact :=
  (t.childrenIn .name).flatMap fun n =>
    let clause : ImportClause :=
      if n.label == .kind .aliased then
        { path := (n.childText? src .name).getD "", localName := n.childText? src .alternative }
      else { path := (n.text? src).getD "" }
    if clause.path.isEmpty then [] else [importOf t.span clause]

/-- The import of `from`, with the names that it binds. -/
def importFromFacts (src : Source) (t : Node) : List Fact :=
  match t.childText? src .moduleName with
  | none => []
  | some path =>
    let names := (t.childrenIn .name).filterMap fun n =>
      if n.label == .kind .aliased then n.childText? src .alternative else n.text? src
    [importOf t.span
      { path, names, isWildcard := t.named.any (·.label == .kind .wildcard) }]

/-- The use that a call makes of a named function. -/
def callFacts (src : Source) (source : Option String) (t : Node) : List Fact :=
  match t.child? .function with
  | none => []
  | some f =>
    match f.label with
    | .kind .name =>
      ((f.text? src).map fun name => use .call source name none f.span.start).getD []
    | .kind .attribute =>
      let qualifier := ((f.child? .object).bind (·.text? src)).map receiverText
      ((f.childText? src .attribute).map fun name =>
        use .call source name qualifier f.span.start).getD []
    | _ => []

/-- Whether a node gives a parameter a default value. -/
def hasDefault : Label Kind → Bool
  | .kind .defaultParam | .kind .typedDefault => true
  | _ => false

mutual

/-- The facts of a syntax tree after the nodes `before`. The node right around it, with the nodes
before that one, is `around` where it is the statement or the decorated definition that the symbol
declared here takes up. -/
def walk (src : Source) (scope : Scope) (around : Option Site) (before : List Node) :
    Node → List Fact
  | .node label role span children =>
    let t : Node := .node label role span children
    let site := around.getD ⟨span, before⟩
    match label with
    | .kind .functionDef =>
      match t.childText? src .name with
      | none => []
      | some name =>
        let kind := if scope.owner.isSome then SymbolKind.method else .function
        definitionFact src t site name kind scope.owner ::
          (annotateIn src name .parameters false children ++
            annotateIn src name .returnType true children ++
            walkIn src ⟨some name, none⟩ .body [] children)
    | .kind .classDef =>
      match t.childText? src .name with
      | none => []
      | some name =>
        definitionFact src t site name .classType none ::
          (walkSuperclasses src scope name children ++
            walkIn src ⟨some name, some name⟩ .body [] children)
    | .kind .decorated =>
      walkDecorators src scope [] children ++
        walkDefinition src scope ⟨span, before⟩ [] children
    | .kind .importStatement => importFacts src t
    | .kind .importFrom => importFromFacts src t
    | .kind .assignment =>
      assignmentFacts src scope t site ++
        (match assignmentFacts src scope t site, scope.source with
          | _ :: _, some owner => annotateIn src owner .type true children
          | _, _ => []) ++
        walkAll src scope none [] children
    | .kind .call => callFacts src scope.source t ++ walkAll src scope none [] children
    | .kind .exprStatement => walkAll src scope (some ⟨span, before⟩) [] children
    | _ => walkAll src scope none [] children
termination_by structural t => t

/-- The facts of named nodes one after the other. Of these only an assignment takes up the node
around it. -/
def walkAll (src : Source) (scope : Scope) (around : Option Site) (before : List Node) :
    List Node → List Fact
  | [] => []
  | t :: ts =>
    (if t.label.isNamed then
        walk src scope (if t.label == .kind .assignment then around else none) before t
      else []) ++
      walkAll src scope around (t :: before) ts
termination_by structural t => t

/-- The facts of the first node in a role. -/
def walkIn (src : Source) (scope : Scope) (role : Role) (before : List Node) :
    List Node → List Fact
  | [] => []
  | t :: ts =>
    if t.role == some role then walk src scope none before t
    else walkIn src scope role (t :: before) ts
termination_by structural t => t

def walkDecorators (src : Source) (scope : Scope) (before : List Node) : List Node → List Fact
  | [] => []
  | t :: ts =>
    (if t.label == .kind .decorator then walk src scope none before t else []) ++
      walkDecorators src scope (t :: before) ts
termination_by structural t => t

/-- The facts of a decorated definition, which takes up the decorators too. -/
def walkDefinition (src : Source) (scope : Scope) (site : Site) (before : List Node) :
    List Node → List Fact
  | [] => []
  | t :: ts =>
    if t.role == some .definition then
      walk src scope
        (if t.label == .kind .functionDef || t.label == .kind .classDef then some site else none)
        before t
    else walkDefinition src scope site (t :: before) ts
termination_by structural t => t

/-- The facts of the bases of a class. -/
def walkSuperclasses (src : Source) (scope : Scope) (name : String) : List Node → List Fact
  | [] => []
  | .node _ role _ children :: ts =>
    if role == some .superclasses then walkBases src scope name [] children
    else walkSuperclasses src scope name ts
termination_by structural t => t

/-- The facts of bases one after the other. -/
def walkBases (src : Source) (scope : Scope) (name : String) (before : List Node) :
    List Node → List Fact
  | [] => []
  | t :: ts =>
    (match t.label with
      | .kind .name | .kind .attribute => baseFacts src name t
      | l => if l.isNamed then walk src scope none before t else []) ++
      walkBases src scope name (t :: before) ts
termination_by structural t => t

/-- The names used in annotations, for the symbol `owner`. Default values are walked like any
code, before the annotation. -/
def annotate (src : Source) (owner : String) (isType : Bool) : Node → List Fact
  | .node label role span children =>
    let t : Node := .node label role span children
    let inType := isType || label == .kind .type
    if inType && label == .kind .name then
      ((t.text? src).map fun n => use .use (some owner) n none span.start).getD []
    else
      (if hasDefault label then walkIn src ⟨some owner, none⟩ .value [] children else []) ++
        annotateAll src owner inType (hasDefault label) children
termination_by structural t => t

/-- The names used in annotations under named nodes; the first default value may be left out. -/
def annotateAll (src : Source) (owner : String) (isType skipValue : Bool) :
    List Node → List Fact
  | [] => []
  | t :: ts =>
    if skipValue && t.role == some .value then annotateAll src owner isType false ts
    else
      (if t.label.isNamed then annotate src owner isType t else []) ++
        annotateAll src owner isType skipValue ts
termination_by structural t => t

/-- The names used in annotations under the first node in a role. -/
def annotateIn (src : Source) (owner : String) (role : Role) (isType : Bool) :
    List Node → List Fact
  | [] => []
  | t :: ts =>
    if t.role == some role then annotate src owner isType t
    else annotateIn src owner role isType ts
termination_by structural t => t

end

def outline (src : Source) : Outline := .ofFacts (walk src {} none [] (parseTree src))

end CodeAtlas.Outline.Python
