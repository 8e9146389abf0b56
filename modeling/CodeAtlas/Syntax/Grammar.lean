import CodeAtlas.Syntax.Token

/-!
# Grammars

A grammar is a value: tokens, sequences, ordered choices, repetition, nodes with roles, and named
rules. One reader interprets the grammars of all languages.

* `Grammar`: the expressions of a grammar.
* `Grammar.read`: reads the cells from a position on, with a table of the rules already tried.
* `parse`: the syntax tree of a whole token sequence.

Comments may stand between any two tokens. They become nodes of their own where they stand; those
before the first token of a node stay outside of it, and they never take a role.
-/

namespace CodeAtlas.Syntax

/-- A condition on a token. -/
inductive Test where
  /-- The word or mark with this text. -/
  | exact (text : String)
  /-- One of these words or marks. -/
  | oneOf (texts : List String)
  /-- A word that is none of these. -/
  | wordExcept (texts : List String)
  /-- Any token of this kind. -/
  | kind (k : TokenKind)
  /-- Any word, mark or literal whose text is none of these. -/
  | anyExcept (texts : List String)

/-- Whether a token satisfies a condition. -/
def Test.accepts : Test → Token → Bool
  | exact s, t => (t.kind == .word || t.kind == .mark) && t.text == s
  | oneOf ss, t => (t.kind == .word || t.kind == .mark) && ss.contains t.text
  | wordExcept ss, t => t.kind == .word && !ss.contains t.text
  | kind k, t => t.kind == k
  | anyExcept ss, t =>
    match t.kind with
    | .word | .mark => !ss.contains t.text
    | .number | .text | .character | .lifetime | .opening | .closing => true
    | _ => false

/-- A grammar with node kinds `κ`, roles `φ` and rule names `ρ`. -/
inductive Grammar (κ φ ρ : Type) where
  /-- Nothing. -/
  | empty
  /-- A token that becomes a node with this label. -/
  | leaf (l : Label κ) (t : Test)
  /-- A token that leaves no node. -/
  | silent (t : Test)
  /-- One grammar after the other. -/
  | both (a b : Grammar κ φ ρ)
  /-- The first grammar, or the second where the first does not apply. -/
  | either (a b : Grammar κ φ ρ)
  /-- As often as possible, also not at all. -/
  | many (a : Grammar κ φ ρ)
  /-- One node around what was read. -/
  | node (l : Label κ) (a : Grammar κ φ ρ)
  /-- What was read, in a role. -/
  | field (r : φ) (a : Grammar κ φ ρ)
  /-- The grammar with this name. -/
  | rule (r : ρ)
  /-- Reads nothing, where the grammar applies. -/
  | ahead (a : Grammar κ φ ρ)
  /-- Reads nothing, where the grammar does not apply. -/
  | avoid (a : Grammar κ φ ρ)
  /-- The first grammar, then steps as long as one applies; each step puts a node around what was
  read so far, which takes the step's role, and what the step itself reads. -/
  | chain (base : Grammar κ φ ρ) (steps : List (Label κ × Option φ × Grammar κ φ ρ))

/-- A node that was read; extra ones are comments and the like. -/
structure Piece (κ φ : Type) where
  tree : Tree κ φ
  isExtra : Bool := false
  deriving Inhabited

namespace Piece

variable {κ φ : Type}

/-- Puts pieces into a role, comments excepted. -/
def withRole (r : φ) (ps : List (Piece κ φ)) : List (Piece κ φ) :=
  ps.map fun p => if p.isExtra then p else { p with tree := p.tree.withRole r }

/-- One node around some pieces. Comments at the front stay outside; a node without pieces stands
at the given place. -/
def wrap (l : Label κ) (place : Point) (ps : List (Piece κ φ)) : List (Piece κ φ) :=
  let outside := ps.takeWhile (·.isExtra)
  let inside := ps.dropWhile (·.isExtra)
  let start := (inside.head?.map (·.tree.span.start)).getD place
  let stop := (inside.getLast?.map (·.tree.span.stop)).getD start
  outside ++ [{ tree := .node l none ⟨start, stop⟩ (inside.map (·.tree)) }]

/-- The pieces of a cell: its comments, and its token as a node. -/
def ofExtras (c : Cell) : List (Piece κ φ) :=
  c.before.map fun t =>
    ⟨.node (if t.kind == .comment then .comment else .plain) none t.span [], true⟩

end Piece

namespace Grammar

variable {κ φ ρ : Type}

/-- What a reading gives: the nodes and the position after them, where the grammar applies. -/
abbrev Outcome (κ φ : Type) := Option (List (Piece κ φ) × Nat)

/-- For each position the rules tried there, with their outcomes. -/
abbrev Table (κ φ ρ : Type) := Array (List (ρ × Outcome κ φ))

/-- A reading from a position on. -/
abbrev Reader (κ φ ρ : Type) := Nat → Table κ φ ρ → Outcome κ φ × Table κ φ ρ

/-- Repeats a reading as long as it applies and gets on. -/
def repeatAll (step : Reader κ φ ρ) : Nat → Reader κ φ ρ
  | 0, pos, table => (some ([], pos), table)
  | n + 1, pos, table =>
    match step pos table with
    | (none, table) => (some ([], pos), table)
    | (some (ps, next), table) =>
      if next ≤ pos then (some ([], pos), table)
      else
        match repeatAll step n next table with
        | (some (rest, last), table) => (some (ps ++ rest, last), table)
        | (none, table) => (some (ps, next), table)

/-- The first step that applies, with its label and role. -/
def firstStep (steps : List (Label κ × Option φ × Reader κ φ ρ)) (pos : Nat)
    (table : Table κ φ ρ) :
    Option (Label κ × Option φ × List (Piece κ φ) × Nat) × Table κ φ ρ :=
  match steps with
  | [] => (none, table)
  | (l, r, step) :: steps =>
    match step pos table with
    | (some (ps, next), table) => (some (l, r, ps, next), table)
    | (none, table) => firstStep steps pos table

/-- Puts nodes around what was read so far, as long as a step applies and gets on. -/
def climb (steps : List (Label κ × Option φ × Reader κ φ ρ)) :
    Nat → List (Piece κ φ) → Reader κ φ ρ
  | 0, left, pos, table => (some (left, pos), table)
  | n + 1, left, pos, table =>
    match firstStep steps pos table with
    | (none, table) => (some (left, pos), table)
    | (some (l, r, ps, next), table) =>
      if next ≤ pos then (some (left, pos), table)
      else
        let left := match r with
          | some r => Piece.withRole r left
          | none => left
        climb steps n (Piece.wrap l {} (left ++ ps)) next table

/-- Reads a grammar from a position on. The first argument bounds the depth of the reading. -/
def read [DecidableEq ρ] (rules : ρ → Grammar κ φ ρ) (cells : Array Cell) :
    Nat → Grammar κ φ ρ → Reader κ φ ρ
  | 0, _, _, table => (none, table)
  | _ + 1, .empty, pos, table => (some ([], pos), table)
  | _ + 1, .leaf l t, pos, table =>
    match cells[pos]? with
    | some c =>
      if t.accepts c.token then
        (some (Piece.ofExtras c ++ [{ tree := .node l none c.token.span [] }], pos + 1), table)
      else (none, table)
    | none => (none, table)
  | _ + 1, .silent t, pos, table =>
    match cells[pos]? with
    | some c =>
      if t.accepts c.token then (some (Piece.ofExtras c, pos + 1), table) else (none, table)
    | none => (none, table)
  | n + 1, .both a b, pos, table =>
    match read rules cells n a pos table with
    | (none, table) => (none, table)
    | (some (ps, next), table) =>
      match read rules cells n b next table with
      | (none, table) => (none, table)
      | (some (qs, last), table) => (some (ps ++ qs, last), table)
  | n + 1, .either a b, pos, table =>
    match read rules cells n a pos table with
    | (some found, table) => (some found, table)
    | (none, table) => read rules cells n b pos table
  | n + 1, .many a, pos, table =>
    repeatAll (fun pos table => read rules cells n a pos table) (cells.size + 1) pos table
  | n + 1, .node l a, pos, table =>
    match read rules cells n a pos table with
    | (none, table) => (none, table)
    | (some (ps, next), table) =>
      let place := ((cells[pos]?).map (·.token.span.start)).getD {}
      (some (Piece.wrap l place ps, next), table)
  | n + 1, .field r a, pos, table =>
    match read rules cells n a pos table with
    | (none, table) => (none, table)
    | (some (ps, next), table) => (some (Piece.withRole r ps, next), table)
  | n + 1, .rule r, pos, table =>
    match ((table[pos]?).getD []).find? (·.1 == r) with
    | some (_, found) => (found, table)
    | none =>
      let (found, table) := read rules cells n (rules r) pos table
      (found, table.modify pos ((r, found) :: ·))
  | n + 1, .ahead a, pos, table =>
    match read rules cells n a pos table with
    | (none, table) => (none, table)
    | (some _, table) => (some ([], pos), table)
  | n + 1, .avoid a, pos, table =>
    match read rules cells n a pos table with
    | (none, table) => (some ([], pos), table)
    | (some _, table) => (none, table)
  | n + 1, .chain base steps, pos, table =>
    match read rules cells n base pos table with
    | (none, table) => (none, table)
    | (some (ps, next), table) =>
      climb (steps.map fun (l, r, g) => (l, r, fun pos table => read rules cells n g pos table))
        (cells.size + 1) ps next table

/-! ## Short forms -/

/-- The keyword or mark with this text, as a bare token. -/
def lit (s : String) : Grammar κ φ ρ := .leaf .token (.exact s)

/-- One of these keywords or marks, as a bare token. -/
def lits (ss : List String) : Grammar κ φ ρ := .leaf .token (.oneOf ss)

/-- The opening brace. -/
def lbrace : String := "\x7b"

/-- The closing brace. -/
def rbrace : String := "\x7d"

/-- A literal is written as its text. -/
instance : Coe String (Grammar κ φ ρ) := ⟨lit⟩

/-- Grammars one after the other. -/
def seq : List (Grammar κ φ ρ) → Grammar κ φ ρ
  | [] => .empty
  | [g] => g
  | g :: gs => .both g (seq gs)

/-- The first grammar that applies. -/
def choice : List (Grammar κ φ ρ) → Grammar κ φ ρ
  | [] => .avoid .empty
  | [g] => g
  | g :: gs => .either g (choice gs)

/-- The grammar, or nothing where it does not apply. -/
def opt (g : Grammar κ φ ρ) : Grammar κ φ ρ := .either g .empty

/-- The grammar at least once. -/
def many1 (g : Grammar κ φ ρ) : Grammar κ φ ρ := .both g (.many g)

/-- The grammar at least once, with commas between. -/
def commas (g : Grammar κ φ ρ) : Grammar κ φ ρ := .both g (.many (.both "," g))

/-- The grammar any number of times, with commas between and perhaps behind. -/
def items (g : Grammar κ φ ρ) : Grammar κ φ ρ := opt (.both (commas g) (opt ","))

/-- A named node that nobody asks for. -/
def plain (gs : List (Grammar κ φ ρ)) : Grammar κ φ ρ := .node .plain (seq gs)

def nodeOf (k : κ) (gs : List (Grammar κ φ ρ)) : Grammar κ φ ρ := .node (.kind k) (seq gs)

end Grammar

/-- The syntax tree of a token sequence: a root around all that the start rule reads. -/
def parse {κ φ ρ : Type} [DecidableEq ρ] (rules : ρ → Grammar κ φ ρ) (start : ρ)
    (tokens : List Token) : Tree κ φ :=
  let cells := cells tokens
  let table : Grammar.Table κ φ ρ := Array.replicate (cells.size + 1) []
  match (Grammar.read rules cells (1000 * (cells.size + 2)) (.rule start) 0 table).1 with
  | some (ps, _) =>
    let stop := (ps.getLast?.map (·.tree.span.stop)).getD {}
    .node .plain none ⟨{}, stop⟩ (ps.map (·.tree))
  | none => .node .plain none {} []

end CodeAtlas.Syntax
