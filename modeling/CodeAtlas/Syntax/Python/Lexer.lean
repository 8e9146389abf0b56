import CodeAtlas.Syntax.Token

/-!
# Tokens of Python

* Blocks: the marks `newline`, `indent` and `dedent` have no width and stand at the end of the token
  before. A block ends before a line with a smaller indentation; comment lines that are indented at
  least like the block still belong to it.
* Strings that hold expressions are cut into an opening, the tokens of the expressions between braces
  and a closing; their plain text leaves no token.
-/

namespace CodeAtlas.Syntax.Python

def keywords : List String :=
  ["False", "None", "True", "and", "as", "assert", "async", "await", "break", "class", "continue",
    "def", "del", "elif", "else", "except", "finally", "for", "from", "global", "if", "import",
    "in", "is", "lambda", "nonlocal", "not", "or", "pass", "raise", "return", "try", "while",
    "with", "yield"]

/-- Marks of more than one byte, longer ones first. -/
def longMarks : List (List UInt8) :=
  ["**=", "//=", ">>=", "<<=", "...", "!=", "->", ":=", "+=", "-=", "*=", "/=", "%=", "&=", "|=",
    "^=", "@=", "**", "//", "<<", ">>", "<=", ">=", "==", "<>"].map Text.Utf8.encode

/-- The quotes of a string literal. -/
structure Quotes where
  byte : UInt8
  triple : Bool
  raw : Bool

/-- What a string that holds expressions is in the middle of. -/
inductive Mode where
  /-- Plain text. -/
  | text (q : Quotes)
  /-- An expression, with the number of brackets open in it. -/
  | hole (depth : Nat)
  /-- The format of an expression. -/
  | format

/-- How far a line has come. -/
inductive Progress where
  /-- A statement may start. -/
  | fresh
  /-- A statement goes on. -/
  | inside
  /-- The last token is a colon, behind which a block may start. -/
  | opened
  deriving DecidableEq

/-- What has to be known of the tokens before. -/
structure LexState where
  /-- The indentations of the open blocks, innermost first; the file's own is left out. -/
  indents : List Nat := []
  progress : Progress := .fresh
  /-- The number of open brackets. -/
  depth : Nat := 0
  modes : List Mode := []

/-- What follows a token up to the next one: whether a line ends, the indentation of the next token
and that of the first comment line before it. -/
structure Gap where
  ends : Bool := false
  indent : Nat := 0
  comment : Option Nat := none

/-- Looks ahead over blanks, line ends and, behind a line end, comments. The flag `skipping` is set
inside such a comment. -/
def gap (skipping : Bool) (g : Gap) : List UInt8 → Gap
  | [] => { g with ends := true, indent := 0 }
  | b :: rest =>
    if skipping then
      if b == 10 then gap false { g with indent := 0 } rest else gap true g rest
    else if b == 10 then gap false { g with ends := true, indent := 0 } rest
    else if b == 32 then gap false { g with indent := g.indent + 1 } rest
    else if b == 9 then gap false { g with indent := g.indent + 8 } rest
    else if b == 13 || b == 12 then gap false { g with indent := 0 } rest
    else if b == 35 && g.ends then
      gap true { g with comment := some (g.comment.getD g.indent) } rest
    else if b == 92 then
      match rest with
      | 10 :: rest => gap false g rest
      | 13 :: 10 :: rest => gap false g rest
      | _ => g
    else g

/-- Closes the blocks that end in a gap. -/
def closeBlocks (g : Gap) : List Nat → List TokenKind × List Nat
  | [] => ([], [])
  | current :: outer =>
    if g.indent < current && g.comment.all (· < current) then
      let (marks, left) := closeBlocks g outer
      (.dedent :: marks, left)
    else ([], current :: outer)

/-- The marks that belong into a gap, and the state after them. -/
def marksIn (s : LexState) (g : Gap) : List TokenKind × LexState :=
  if !g.ends || s.depth != 0 || !s.modes.isEmpty then ([], s)
  else if s.progress == .opened && s.indents.headD 0 < g.indent then
    ([.indent], { s with progress := .fresh, indents := g.indent :: s.indents })
  else
    let (marks, indents) := closeBlocks g s.indents
    (if s.progress == .fresh then marks else .newline :: marks,
      { s with progress := .fresh, indents })

/-- Blanks between tokens. -/
def isBlankByte (b : UInt8) : Bool := isSpaceByte b || b == 10

/-- The length of a string literal after its opening quotes. -/
def literalLength (q : Quotes) : List UInt8 → Nat
  | [] => 0
  | [_] => 1
  | b :: c :: rest =>
    if b == 92 then 2 + literalLength q rest
    else if b == q.byte then
      if !q.triple then 1
      else if c == q.byte && rest.head? == some q.byte then 3
      else 1 + literalLength q (c :: rest)
    else 1 + literalLength q (c :: rest)

/-- The letters before an opening quote. -/
def stringLetters (word : List UInt8) : Bool :=
  word.length ≤ 2 && word.all fun b => [98, 66, 102, 70, 114, 82, 117, 85].contains b

/-- The string literal at the front, if there is one: the length of its letters and opening quotes,
its quotes, and whether it holds expressions. -/
def opening? (bytes : List UInt8) : Option (Nat × Quotes × Bool) :=
  let letters := bytes.takeWhile fun b => !(b == 34 || b == 39) && isNameByte b
  if !stringLetters letters then none
  else
    match bytes.drop letters.length with
    | b :: rest =>
      if b == 34 || b == 39 then
        let triple := [b, b].isPrefixOf rest
        let raw := letters.any fun l => l == 114 || l == 82
        some (letters.length + (if triple then 3 else 1), ⟨b, triple, raw⟩,
          letters.any fun l => l == 102 || l == 70)
      else none
    | [] => none

/-- The state after a token of the given text. -/
def LexState.after (s : LexState) (mark : List UInt8) : LexState :=
  let opens := mark == [40] || mark == [91] || mark == [123]
  let closes := mark == [41] || mark == [93] || mark == [125]
  match s.modes with
  | .hole depth :: modes =>
    if opens then { s with modes := .hole (depth + 1) :: modes }
    else if closes then
      if depth == 0 then { s with modes } else { s with modes := .hole (depth - 1) :: modes }
    else if depth == 0 && mark == [58] then { s with modes := .format :: modes }
    else s
  | _ =>
    let depth := if opens then s.depth + 1 else if closes then s.depth - 1 else s.depth
    { s with depth, progress := if mark == [58] then .opened else .inside }

/-- The lexeme at the front of code. -/
def codeLexeme (s : LexState) (bytes : List UInt8) : Lexeme LexState :=
  match bytes with
  | [] => { length := 0, state := s }
  | b :: rest =>
    if isBlankByte b then
      let (marks, state) := marksIn s (gap false {} bytes)
      { marks, length := runLength isBlankByte bytes, state }
    else if byteOrderMark.isPrefixOf bytes then { length := 3, state := s }
    else if b == 35 then { kind := some .comment, length := lineLength bytes, state := s }
    else if b == 92 then
      let length := if rest.head? == some 13 then 3 else 2
      { kind := some .joint, length, state := s }
    else if isDigitByte b || (b == 46 && (rest.head?.map isDigitByte).getD false) then
      { kind := some .number, length := 1 + numberLength (isHex bytes) true b rest, state := s.after [] }
    else
      match opening? bytes with
      | some (length, quotes, true) =>
        let state := s.after []
        { kind := some .opening, length, state := { state with modes := .text quotes :: state.modes } }
      | some (length, quotes, false) =>
        { kind := some .text, length := length + literalLength quotes (bytes.drop length),
          state := s.after [] }
      | none =>
        if isNameByte b then
          { kind := some .word, length := runLength isNameByte bytes, state := s.after [] }
        else
          let atHole := match s.modes with
            | .hole 0 :: _ => b == 58
            | _ => false
          let length := if atHole then 1 else (longest? longMarks bytes).getD 1
          { kind := some .mark, length, state := s.after (bytes.take length) }

/-- The lexeme at the front of the plain text of a string that holds expressions. -/
def textLexeme (s : LexState) (q : Quotes) (outer : List Mode) (bytes : List UInt8) :
    Lexeme LexState :=
  let quotes := if q.triple then [q.byte, q.byte, q.byte] else [q.byte]
  match bytes with
  | [] => { length := 0, state := s }
  | b :: rest =>
    if quotes.isPrefixOf bytes then
      { kind := some .closing, length := quotes.length, state := { s with modes := outer } }
    else if b == 123 then
      if rest.head? == some 123 then { length := 2, state := s }
      else { kind := some .mark, length := 1, state := { s with modes := .hole 0 :: s.modes } }
    else if b == 92 then
      match rest with
      | c :: d :: _ =>
        if c == 123 || c == 125 then { length := 1, state := s }
        else if c == 78 && d == 123 && !q.raw then
          { length := 3 + runLength (· != 125) rest, state := s }
        else { length := 2, state := s }
      | _ => { length := 2, state := s }
    else { length := 1, state := s }

/-- The lexeme at the front of the format of an expression in a string. -/
def formatLexeme (s : LexState) (outer : List Mode) (bytes : List UInt8) : Lexeme LexState :=
  match bytes with
  | 123 :: _ => { kind := some .mark, length := 1, state := { s with modes := .hole 0 :: s.modes } }
  | 125 :: _ => { kind := some .mark, length := 1, state := { s with modes := outer } }
  | _ => { length := 1, state := s }

def lexeme (s : LexState) (bytes : List UInt8) : Lexeme LexState :=
  match s.modes with
  | .text q :: outer => textLexeme s q outer bytes
  | .format :: outer => formatLexeme s outer bytes
  | _ => codeLexeme s bytes

/-- How source text of Python is cut into tokens. -/
def lexer : Lexer LexState where
  start := {}
  lexeme := lexeme
  finish s := (marksIn { s with depth := 0, modes := [] } { ends := true }).1

end CodeAtlas.Syntax.Python
