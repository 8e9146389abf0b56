import CodeAtlas.Text.Utf8

/-!
# Source text and syntax trees

* `Point`, `Span`: places in a byte string; rows and columns count from zero, columns count bytes.
* `Source.text?`: the text of a span, if its bytes are well-formed UTF-8.
* `Tree`: a syntax tree whose nodes carry a label, the role they play in their parent and a span.
* `Tree.child?`, `Tree.children`: children by role.
-/

namespace CodeAtlas.Syntax

/-- A place in a byte string. -/
structure Point where
  byte : Nat := 0
  row : Nat := 0
  column : Nat := 0
  deriving DecidableEq, Inhabited, Repr

/-- The place after one more byte. -/
def Point.step (p : Point) (b : UInt8) : Point :=
  if b == 10 then ⟨p.byte + 1, p.row + 1, 0⟩ else ⟨p.byte + 1, p.row, p.column + 1⟩

/-- The place after some more bytes. -/
def Point.advance (p : Point) (bytes : List UInt8) : Point := bytes.foldl Point.step p

/-- The bytes from one place up to another. -/
structure Span where
  start : Point := {}
  stop : Point := {}
  deriving DecidableEq, Inhabited, Repr

/-- The content of a file. -/
structure Source where
  bytes : ByteArray

namespace Source

/-- The bytes from one offset up to another. -/
def slice (s : Source) (start stop : Nat) : ByteArray := s.bytes.extract start stop

/-- The text between two offsets, if it is well formed. -/
def textBetween? (s : Source) (start stop : Nat) : Option String :=
  Text.Utf8.decode? (s.slice start stop).data.toList

/-- The text of a span, if it is well formed. -/
def text? (s : Source) (span : Span) : Option String :=
  s.textBetween? span.start.byte span.stop.byte

end Source

/-- What a node of a syntax tree is: a bare token, a comment, a named node that nobody asks for, or
a node of one of the kinds of its language. -/
inductive Label (κ : Type) where
  | token
  | comment
  | plain
  | kind (k : κ)
  deriving DecidableEq, Inhabited, Repr

/-- Bare tokens are the only nodes without a name. -/
def Label.isNamed {κ : Type} : Label κ → Bool
  | .token => false
  | _ => true

/-- A syntax tree. -/
inductive Tree (κ φ : Type) where
  | node (label : Label κ) (role : Option φ) (span : Span) (children : List (Tree κ φ))
  deriving Inhabited, Repr

namespace Tree

variable {κ φ : Type}

/-- What a node is. -/
def label : Tree κ φ → Label κ
  | node l _ _ _ => l

/-- The role of a node in its parent. -/
def role : Tree κ φ → Option φ
  | node _ r _ _ => r

/-- The bytes a node takes up. -/
def span : Tree κ φ → Span
  | node _ _ s _ => s

/-- The children of a node, bare tokens and comments included. -/
def children : Tree κ φ → List (Tree κ φ)
  | node _ _ _ cs => cs

/-- The same node in another role. -/
def withRole (r : φ) : Tree κ φ → Tree κ φ
  | node l _ s cs => node l (some r) s cs

/-- The children of a node that have a name. -/
def named (t : Tree κ φ) : List (Tree κ φ) := t.children.filter (·.label.isNamed)

/-- The first child in the given role. -/
def child? [DecidableEq φ] (t : Tree κ φ) (r : φ) : Option (Tree κ φ) :=
  t.children.find? (·.role == some r)

/-- All children in the given role. -/
def childrenIn [DecidableEq φ] (t : Tree κ φ) (r : φ) : List (Tree κ φ) :=
  t.children.filter (·.role == some r)

/-- The text of a node, if it is well formed. -/
def text? (src : Source) (t : Tree κ φ) : Option String := src.text? t.span

/-- The text of the first child in the given role. -/
def childText? [DecidableEq φ] (src : Source) (t : Tree κ φ) (r : φ) : Option String :=
  (t.child? r).bind (text? src)

mutual

/-- The first node, in the order of the text, whose label satisfies `p`. -/
def find? (p : Label κ → Bool) : Tree κ φ → Option (Tree κ φ)
  | node l r s cs => if p l then some (node l r s cs) else findIn? p cs

/-- The first node under some nodes whose label satisfies `p`; bare tokens are passed over. -/
def findIn? (p : Label κ → Bool) : List (Tree κ φ) → Option (Tree κ φ)
  | [] => none
  | t :: ts => (if t.label.isNamed then find? p t else none).or (findIn? p ts)

end

end Tree

end CodeAtlas.Syntax
