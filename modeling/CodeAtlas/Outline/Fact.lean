import CodeAtlas.Hash.Blake3
import CodeAtlas.Project
import CodeAtlas.Syntax.Tree
import CodeAtlas.Text.Segment

/-!
# Facts of a source text

* `Fact`: a declaration, an import, a use or an edge that a syntax tree shows.
* `Outline.ofFacts`: facts by their kind.
* `link`: a use, unless the language itself provides its name; inside a symbol, `relationship` adds an
  edge from that symbol.
* `leadingComments`: the comment lines right above a node.
* `declaration`, `signatureBefore`: what all languages record of a declared symbol.
-/

namespace CodeAtlas

open Syntax

/-- What a syntax tree shows. -/
inductive Fact where
  | declares (d : Declaration)
  | imports (i : ImportClause)
  | uses (u : Use)
  | relates (e : Edge)

namespace Fact

/-- The declared symbol. -/
def declaration? : Fact → Option Declaration
  | declares d => some d
  | _ => none

def import? : Fact → Option ImportClause
  | imports i => some i
  | _ => none

def use? : Fact → Option Use
  | uses u => some u
  | _ => none

def edge? : Fact → Option Edge
  | relates e => some e
  | _ => none

end Fact

/-- Facts by their kind, each in the order of the facts. -/
def Outline.ofFacts (facts : List Fact) : Outline where
  symbols := facts.filterMap Fact.declaration?
  imports := facts.filterMap Fact.import?
  edges := facts.filterMap Fact.edge?
  uses := facts.filterMap Fact.use?

namespace Outline

/-- The part of a qualifier before its first point or colon. -/
def qualifierRoot (q : String) : String :=
  .ofList (q.toList.takeWhile fun c => !(c == '.' || c == ':'))

/-- Whether a language provides a name, or the package or type it is taken from. -/
def isProvided (builtins : List String) (name : String) (qualifier : Option String) : Bool :=
  name.isEmpty || builtins.contains name ||
    (qualifier.map fun q => builtins.contains (qualifierRoot q)).getD false

/-- The edge from a symbol to a name, unless the language provides the name. -/
def relationship (builtins : List String) (kind : EdgeKind) (source target : String)
    (place : Point) : List Fact :=
  if builtins.contains target then []
  else [.relates { kind, source, target, line := place.row + 1 }]

/-- The use of a name at a place, unless the language provides the name. Inside a symbol it comes
with an edge from that symbol. -/
def link (builtins : List String) (kind : UseKind) (edge : EdgeKind) (source : Option String)
    (name : String) (qualifier : Option String) (place : Point) : List Fact :=
  if isProvided builtins name qualifier then []
  else
    .uses ⟨kind, source, name, qualifier, place.row + 1, place.column + 1⟩ ::
      match source with
      | some source => relationship builtins edge source name place
      | none => []

/-- The edge that a use makes by itself. -/
def plainEdge : UseKind → EdgeKind
  | .call => .calls
  | .use | .construct => .uses

/-- The range of a span, with lines and columns from one on. -/
def rangeOf (s : Span) : Range :=
  ⟨s.start.row + 1, s.start.column + 1, s.stop.row + 1, s.stop.column + 1, s.start.byte,
    s.stop.byte⟩

/-- A declaration with the range and the hash of a span. -/
def declaration (src : Source) (span : Span) (name : String) (kind : SymbolKind) : Declaration where
  name := name
  kind := kind
  range := rangeOf span
  contentHash := Hash.Blake3.hexDigest (src.slice span.start.byte span.stop.byte)

/-- An import with the lines of a span. -/
def importOf (span : Span) (i : ImportClause) : Fact :=
  .imports { i with startLine := span.start.row + 1, endLine := span.stop.row + 1 }

/-- The text between two offsets with its blanks collapsed, without the marks that open a body. -/
def signatureBetween (src : Source) (start stop : Nat) : Option String := do
  let raw ← src.textBetween? start stop
  let words := Text.join " " (Text.words raw)
  pure (Text.trimEnd (Text.trimTail (fun c => c == '\x7b' || c == ':') words))

section Trees

variable {κ φ : Type}

/-- The text of a declaration up to its body. -/
def signatureBefore [DecidableEq φ] (src : Source) (t : Tree κ φ) (body : φ) : Option String :=
  let stop := match t.child? body with
    | some b => b.span.start.byte
    | none => t.span.stop.byte
  signatureBetween src t.span.start.byte stop

/-- The first line of a node's text. -/
def firstLine? (src : Source) (t : Tree κ φ) : Option String :=
  (t.text? src).bind fun s => (Text.lines s).head?

/-- The comment lines that end at most one row above the row `row`, nearest first, given the nodes
before, nearest first. Nodes that satisfy `skip` may stand between. Only comments with one of the
`markers` count, and there is no answer where one of them is no well-formed text. -/
def commentLines (src : Source) (markers : List String) (skip : Label κ → Bool) :
    Nat → List (Tree κ φ) → Option (List String)
  | _, [] => some []
  | row, t :: before =>
    if skip t.label then commentLines src markers skip t.span.start.row before
    else
      match t.label with
      | .comment =>
        if t.span.stop.row + 1 < row then some []
        else do
          let text ← t.text? src
          let text := Text.trimEnd text
          match markers.findSome? fun m => Text.stripStart? m.toList text.toList with
          | none => pure []
          | some rest =>
            let lines ← commentLines src markers skip t.span.start.row before
            pure (Text.trim (.ofList rest) :: lines)
      | _ => some []

/-- The comment right above a node, given the nodes before it, nearest first. -/
def leadingComments (src : Source) (markers : List String) (skip : Label κ → Bool)
    (t : Tree κ φ) (before : List (Tree κ φ)) : Option String :=
  match commentLines src markers skip t.span.start.row before with
  | none | some [] => none
  | some lines => some (Text.join "\n" lines.reverse)

/-- Nodes with the nodes before each, nearest first. -/
def sited : List (Tree κ φ) → List (Tree κ φ) → List (List (Tree κ φ) × Tree κ φ)
  | _, [] => []
  | before, t :: ts => (before, t) :: sited (t :: before) ts

/-- The named children of a node with the nodes before each, nearest first. -/
def sitedChildren (t : Tree κ φ) : List (List (Tree κ φ) × Tree κ φ) :=
  (sited [] t.children).filter (·.2.label.isNamed)

end Trees

/-- The receiver of a call: the text before its first parenthesis, or all of it. -/
def receiverText (s : String) : String :=
  let head := Text.trim (.ofList (s.toList.takeWhile (· != '(')))
  if head.isEmpty then s else head

end Outline

end CodeAtlas
