import CodeAtlas.Syntax.Token

/-!
# Tokens of Go

A line end is a token where it ends a statement: after a name, a literal, one of the four keywords
that end a statement, `++`, `--` or a closing bracket. Inside parentheses and square brackets no line
end counts, except in a group of declarations.
-/

namespace CodeAtlas.Syntax.Go

def keywords : List String :=
  ["break", "case", "chan", "const", "continue", "default", "defer", "else", "fallthrough", "for",
    "func", "go", "goto", "if", "import", "interface", "map", "package", "range", "return",
    "select", "struct", "switch", "type", "var"]

/-- The keywords after which a line end counts. -/
def endingKeywords : List String := ["break", "continue", "fallthrough", "return"]

/-- The keywords that may open a group of declarations. -/
def groupKeywords : List String := ["import", "const", "var", "type"]

/-- Marks of more than one byte, longer ones first. -/
def longMarks : List (List UInt8) :=
  ["<<=", ">>=", "&^=", "...", "&&", "||", "<-", "++", "--", "==", "!=", "<=", ">=", ":=", "+=",
    "-=", "*=", "/=", "%=", "&=", "|=", "^=", "<<", ">>", "&^"].map Text.Utf8.encode

/-- What has to be known of the tokens before. -/
structure LexState where
  /-- Whether a line end would count. -/
  ends : Bool := false
  /-- Whether the last token opens a group of declarations before a parenthesis. -/
  grouping : Bool := false
  /-- For each open bracket whether line ends count in it. -/
  brackets : List Bool := []

/-- The length of a comment from a slash and a star on. -/
def blockCommentLength : List UInt8 → Nat
  | [] => 0
  | [_] => 1
  | b :: c :: rest =>
    if b == 42 && c == 47 then 2 else 1 + blockCommentLength (c :: rest)

def LexState.afterMark (s : LexState) (mark : List UInt8) : LexState :=
  match mark with
  | [40] => ⟨false, false, s.grouping :: s.brackets⟩
  | [91] => ⟨false, false, false :: s.brackets⟩
  | [123] => ⟨false, false, true :: s.brackets⟩
  | [41] | [93] | [125] => ⟨true, false, s.brackets.tail⟩
  | [43, 43] | [45, 45] => ⟨true, false, s.brackets⟩
  | _ => ⟨false, false, s.brackets⟩

def LexState.afterWord (s : LexState) (word : String) : LexState :=
  ⟨!keywords.contains word || endingKeywords.contains word, groupKeywords.contains word, s.brackets⟩

def LexState.afterLiteral (s : LexState) : LexState := ⟨true, false, s.brackets⟩

def lexeme (s : LexState) (bytes : List UInt8) : Lexeme LexState :=
  match bytes with
  | [] => { length := 0, state := s }
  | b :: rest =>
    if b == 10 then
      if s.ends && s.brackets.headD true then
        { kind := some .newline, length := 1, state := { s with ends := false } }
      else { length := 1, state := s }
    else if isSpaceByte b || b == 0 then { length := 1, state := s }
    else if byteOrderMark.isPrefixOf bytes then { length := 3, state := s }
    else if b == 47 && rest.head? == some 47 then
      { kind := some .comment, length := lineLength bytes, state := s }
    else if b == 47 && rest.head? == some 42 then
      { kind := some .comment, length := 2 + blockCommentLength (rest.drop 1), state := s }
    else if isDigitByte b || (b == 46 && (rest.head?.map isDigitByte).getD false) then
      { kind := some .number, length := 1 + numberLength (isHex bytes) true b rest,
        state := s.afterLiteral }
    else if isNameByte b then
      let word := bytes.takeWhile isNameByte
      { kind := some .word, length := word.length,
        state := s.afterWord ((Text.Utf8.decode? word).getD "") }
    else if b == 34 then
      { kind := some .text, length := 1 + quotedLength 34 true rest, state := s.afterLiteral }
    else if b == 96 then
      { kind := some .text, length := 1 + quotedLength 96 false rest, state := s.afterLiteral }
    else if b == 39 then
      { kind := some .character, length := 1 + quotedLength 39 true rest, state := s.afterLiteral }
    else
      let length := (longest? longMarks bytes).getD 1
      { kind := some .mark, length, state := s.afterMark (bytes.take length) }

/-- How source text of Go is cut into tokens. -/
def lexer : Lexer LexState where
  start := {}
  lexeme := lexeme
  finish s := if s.ends then [.newline] else []

end CodeAtlas.Syntax.Go
