import CodeAtlas.Syntax.Tree

/-!
# Tokens

* `Token`: a piece of source text, or a mark of no width such as the end of a block.
* `scan`: cuts a byte string into tokens, one lexeme of a language after the other.
* `cells`: tokens grouped so that comments stand with the token after them.
-/

namespace CodeAtlas.Syntax

inductive TokenKind where
  /-- A name or a keyword. -/
  | word
  | number
  /-- A string literal without parts of its own. -/
  | text
  | character
  | lifetime
  /-- Punctuation. -/
  | mark
  | comment
  /-- A line end that is escaped. -/
  | joint
  | newline
  | indent
  | dedent
  /-- The start and the end of a string literal that holds expressions. -/
  | opening
  | closing
  | finish
  deriving DecidableEq, Inhabited, Repr

/-- Tokens that may stand anywhere between others. -/
def TokenKind.isExtra : TokenKind → Bool
  | comment | joint => true
  | _ => false

/-- A token. The text is kept for words and marks only. -/
structure Token where
  kind : TokenKind
  text : String
  span : Span
  deriving Inhabited, Repr

/-- What a language finds at the front of a byte string: marks of no width that belong to the end of
the token before, then the kind and the length of the next lexeme; blanks have no kind. -/
structure Lexeme (σ : Type) where
  marks : List TokenKind := []
  kind : Option TokenKind := none
  length : Nat
  state : σ

/-- How a language cuts a byte string: the lexeme at the front, and the marks at the very end. -/
structure Lexer (σ : Type) where
  start : σ
  lexeme : σ → List UInt8 → Lexeme σ
  finish : σ → List TokenKind

def keptText (kind : TokenKind) (bytes : List UInt8) : String :=
  match kind with
  | .word | .mark => (Text.Utf8.decode? bytes).getD ""
  | _ => ""

/-- Cuts the bytes at a place into tokens; `before` is the end of the last token. -/
def scanFrom {σ : Type} (lexer : Lexer σ) :
    Nat → σ → Point → Point → List UInt8 → List Token
  | 0, _, _, _, _ => []
  | _ + 1, state, before, place, [] =>
    (lexer.finish state).map (fun k => ⟨k, "", ⟨before, before⟩⟩) ++
      [⟨.finish, "", ⟨place, place⟩⟩]
  | fuel + 1, state, before, place, b :: bs =>
    let found := lexer.lexeme state (b :: bs)
    let taken := (b :: bs).take (max 1 found.length)
    let rest := (b :: bs).drop (max 1 found.length)
    let after := place.advance taken
    let marks := found.marks.map fun k => ⟨k, "", ⟨before, before⟩⟩
    match found.kind with
    | none => marks ++ scanFrom lexer fuel found.state before after rest
    | some kind =>
      marks ++ ⟨kind, keptText kind taken, ⟨place, after⟩⟩ ::
        scanFrom lexer fuel found.state after after rest

/-- The tokens of a byte string, with the mark `finish` at the end. -/
def scan {σ : Type} (lexer : Lexer σ) (bytes : List UInt8) : List Token :=
  scanFrom lexer (bytes.length + 1) lexer.start {} {} bytes

/-- A token with the comments right before it. -/
structure Cell where
  before : List Token
  token : Token
  deriving Inhabited

/-- Groups tokens so that comments stand with the token after them. -/
def cellsFrom : List Token → List Token → List Cell
  | _, [] => []
  | before, t :: ts =>
    if t.kind.isExtra then cellsFrom (t :: before) ts
    else ⟨before.reverse, t⟩ :: cellsFrom [] ts

/-- Groups tokens so that comments stand with the token after them. -/
def cells (tokens : List Token) : Array Cell := (cellsFrom [] tokens).toArray

/-! ## Lexemes that languages share -/

/-- Bytes of names: letters, digits, the underscore and every byte outside ASCII. -/
def isNameByte (b : UInt8) : Bool :=
  (48 ≤ b && b ≤ 57) || (65 ≤ b && b ≤ 90) || b == 95 || (97 ≤ b && b ≤ 122) || 128 ≤ b

def isDigitByte (b : UInt8) : Bool := 48 ≤ b && b ≤ 57

/-- Blanks inside a line, and the form feed. -/
def isSpaceByte (b : UInt8) : Bool := b == 32 || b == 9 || b == 12 || b == 13 || b == 11

def byteOrderMark : List UInt8 := [0xEF, 0xBB, 0xBF]

/-- The number of bytes at the front that satisfy `p`. -/
def runLength (p : UInt8 → Bool) (bytes : List UInt8) : Nat := (bytes.takeWhile p).length

/-- The number of bytes up to the end of the line. -/
def lineLength (bytes : List UInt8) : Nat := runLength (· != 10) bytes

/-- The first text of a list that stands at the front. -/
def longest? (texts : List (List UInt8)) (bytes : List UInt8) : Option Nat :=
  (texts.find? fun t => t.isPrefixOf bytes).map List.length

/-- The length of a literal up to and with its closing quote, after the opening one. A backslash
guards the byte after it if `escapes` holds. -/
def quotedLength (quote : UInt8) (escapes : Bool) : List UInt8 → Nat
  | [] => 0
  | [_] => 1
  | b :: c :: rest =>
    if b == quote then 1
    else if escapes && b == 92 then 2 + quotedLength quote escapes rest
    else 1 + quotedLength quote escapes (c :: rest)

/-- The length of a number: name bytes and points, and a sign after an exponent mark. The last byte
taken is `last`. A point belongs to the number before a digit, before a byte that neither starts a
name nor a range, and before an exponent mark if `bareExponent` holds; numbers that are `hex` have no
exponent mark `e`. -/
def numberLength (hex bareExponent : Bool) : UInt8 → List UInt8 → Nat
  | _, [] => 0
  | last, b :: rest =>
    if isNameByte b then 1 + numberLength hex bareExponent b rest
    else if b == 46 then
      match rest with
      | c :: _ =>
        if isDigitByte c || !(isNameByte c || c == 46) || (bareExponent && (c == 101 || c == 69))
        then 1 + numberLength hex bareExponent b rest else 0
      | [] => 1
    else if (b == 43 || b == 45) &&
        ((!hex && (last == 101 || last == 69)) || last == 112 || last == 80) then
      match rest with
      | c :: _ => if isDigitByte c then 1 + numberLength hex bareExponent b rest else 0
      | [] => 0
    else 0

/-- Whether a number starts as a hexadecimal one. -/
def isHex : List UInt8 → Bool
  | 48 :: b :: _ => b == 120 || b == 88
  | _ => false

end CodeAtlas.Syntax
