import CodeAtlas.Syntax.Token

/-!
# Tokens of Rust

* A documentation comment of one line takes up the line end too; other comments stop before it.
* Angle brackets are single tokens, because `>>` may close two argument lists.
* A number behind a point is the index of a tuple and holds digits only.
-/

namespace CodeAtlas.Syntax.Rust

def keywords : List String :=
  ["as", "async", "await", "break", "const", "continue", "crate", "dyn", "else", "enum", "extern",
    "false", "fn", "for", "if", "impl", "in", "let", "loop", "match", "mod", "move", "mut", "pub",
    "ref", "return", "self", "static", "struct", "super", "trait", "true", "type", "unsafe", "use",
    "where", "while"]

/-- Marks of more than one byte, longer ones first. -/
def longMarks : List (List UInt8) :=
  ["..=", "...", "..", "::", "->", "=>", "==", "!=", "&&", "||", "+=", "-=", "*=", "/=", "%=", "^=",
    "&=", "|=", "<="].map Text.Utf8.encode

/-- What has to be known of the tokens before. -/
structure LexState where
  /-- Whether no byte was read yet. -/
  first : Bool := true
  /-- Whether the last token is a point. -/
  pointed : Bool := false

/-- The length of a comment after its opening; comments nest. -/
def nestedLength : Nat → List UInt8 → Nat
  | _, [] => 0
  | _, [_] => 1
  | depth, b :: c :: rest =>
    if b == 42 && c == 47 then
      match depth with
      | 0 => 2
      | depth + 1 => 2 + nestedLength depth rest
    else if b == 47 && c == 42 then 2 + nestedLength (depth + 1) rest
    else 1 + nestedLength depth (c :: rest)

/-- Whether a line comment is documentation. -/
def isLineDoc : List UInt8 → Bool
  | 47 :: 47 :: 33 :: _ => true
  | 47 :: 47 :: 47 :: rest => rest.head? != some 47
  | _ => false

/-- The length of a raw string after its opening quote, closed by a quote and the given number of
hashes. -/
def rawLength (hashes : Nat) : List UInt8 → Nat
  | [] => 0
  | b :: rest =>
    if b == 34 && (List.replicate hashes (35 : UInt8)).isPrefixOf rest then 1 + hashes
    else 1 + rawLength hashes rest

/-- The length of the string literal at the front, if there is one. -/
def stringLength? (bytes : List UInt8) : Option Nat :=
  let letters := bytes.takeWhile fun b => b == 98 || b == 99 || b == 114
  let rest := bytes.drop letters.length
  if letters.length > 2 then none
  else if letters.getLast? == some 114 then
    let hashes := runLength (· == 35) rest
    match rest.drop hashes with
    | 34 :: body => some (letters.length + hashes + 1 + rawLength hashes body)
    | _ => none
  else
    match rest with
    | 34 :: body => some (letters.length + 1 + quotedLength 34 true body)
    | _ => none

/-- The length of the character at the front. -/
def characterWidth (b : UInt8) : Nat :=
  if b < 128 then 1 else if b < 224 then 2 else if b < 240 then 3 else 4

/-- The length of the character literal after an apostrophe, if it is one. -/
def characterLength? (rest : List UInt8) : Option Nat :=
  match rest with
  | [] => none
  | 92 :: _ => some (quotedLength 39 true rest)
  | b :: _ =>
    let width := characterWidth b
    if (rest.drop width).head? == some 39 then some (width + 1) else none

/-- The length of the word at the front; it may be raw. -/
def wordLength (bytes : List UInt8) : Nat :=
  match bytes with
  | 114 :: 35 :: b :: rest =>
    if isNameByte b && !isDigitByte b then 3 + runLength isNameByte rest
    else runLength isNameByte bytes
  | _ => runLength isNameByte bytes

def lexeme (s : LexState) (bytes : List UInt8) : Lexeme LexState :=
  let next : LexState := ⟨false, false⟩
  match bytes with
  | [] => { length := 0, state := s }
  | b :: rest =>
    if s.first && [35, 33].isPrefixOf bytes && rest[1]? != some 91 then
      { length := lineLength bytes, state := next }
    else if isSpaceByte b || b == 10 then { length := 1, state := { s with first := false } }
    else if byteOrderMark.isPrefixOf bytes then { length := 3, state := s }
    else if b == 47 && rest.head? == some 47 then
      { kind := some .comment, length := lineLength bytes + (if isLineDoc bytes then 1 else 0),
        state := { s with first := false } }
    else if b == 47 && rest.head? == some 42 then
      { kind := some .comment, length := 2 + nestedLength 0 (rest.drop 1),
        state := { s with first := false } }
    else if isDigitByte b then
      let length := if s.pointed then runLength isDigitByte bytes
        else 1 + numberLength (isHex bytes) false b rest
      { kind := some .number, length, state := next }
    else
      match stringLength? bytes with
      | some length => { kind := some .text, length, state := next }
      | none =>
        if b == 98 && rest.head? == some 39 then
          { kind := some .character, length := 2 + ((characterLength? (rest.drop 1)).getD 1),
            state := next }
        else if isNameByte b then { kind := some .word, length := wordLength bytes, state := next }
        else if b == 39 then
          match characterLength? rest with
          | some length => { kind := some .character, length := 1 + length, state := next }
          | none =>
            { kind := some .lifetime, length := 1 + runLength isNameByte rest, state := next }
        else
          let length := (longest? longMarks bytes).getD 1
          { kind := some .mark, length, state := ⟨false, bytes.take length == [46]⟩ }

/-- How source text of Rust is cut into tokens. -/
def lexer : Lexer LexState where
  start := {}
  lexeme := lexeme
  finish _ := []

end CodeAtlas.Syntax.Rust
