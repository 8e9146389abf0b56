/-!
# UTF-8

* `next`: the character at the front of a byte string, or the length of the longest malformed piece.
* `decode?`: the characters of a byte string that is well formed throughout.
* `decodeLossy`: the characters of any byte string, with U+FFFD for each malformed piece.
* `encode`: the bytes of a text.
-/

namespace CodeAtlas.Text.Utf8

/-- What stands at the front of a byte string. -/
inductive Front where
  /-- A character and the number of bytes it takes. -/
  | char (c : Char) (length : Nat)
  /-- A malformed piece and the number of bytes it takes. -/
  | malformed (length : Nat)

/-- Whether a byte may follow a first byte of the given value in second place. -/
def secondFits (first second : Nat) : Bool :=
  let low := if first == 0xE0 then 0xA0 else if first == 0xF0 then 0x90 else 0x80
  let high := if first == 0xED then 0x9F else if first == 0xF4 then 0x8F else 0xBF
  low ≤ second && second ≤ high

/-- The number of bytes that a first byte announces; zero if it cannot be a first byte. -/
def announced (first : Nat) : Nat :=
  if first < 0x80 then 1
  else if 0xC2 ≤ first && first ≤ 0xDF then 2
  else if 0xE0 ≤ first && first ≤ 0xEF then 3
  else if 0xF0 ≤ first && first ≤ 0xF4 then 4
  else 0

/-- Whether a byte continues a character. -/
def continues (b : UInt8) : Bool := 0x80 ≤ b.toNat && b.toNat ≤ 0xBF

/-- The character at the front of a nonempty byte string, given its first byte and the rest. -/
def next (b : UInt8) (rest : List UInt8) : Front :=
  let first : Nat := b.toNat
  match announced first, rest with
  | 1, _ => .char (Char.ofNat first) 1
  | 2, c :: _ =>
    if continues c then .char (Char.ofNat ((first - 0xC0) * 64 + (c.toNat - 0x80))) 2
    else .malformed 1
  | 3, c :: rest =>
    if secondFits first c.toNat then
      match rest with
      | d :: _ =>
        if continues d then
          .char (Char.ofNat ((first - 0xE0) * 4096 + (c.toNat - 0x80) * 64 + (d.toNat - 0x80))) 3
        else .malformed 2
      | [] => .malformed 2
    else .malformed 1
  | 4, c :: rest =>
    if secondFits first c.toNat then
      match rest with
      | d :: rest =>
        if continues d then
          match rest with
          | e :: _ =>
            if continues e then
              .char (Char.ofNat ((first - 0xF0) * 262144 + (c.toNat - 0x80) * 4096 +
                (d.toNat - 0x80) * 64 + (e.toNat - 0x80))) 4
            else .malformed 3
          | [] => .malformed 3
        else .malformed 2
      | [] => .malformed 2
    else .malformed 1
  | _, _ => .malformed 1

/-- The characters of a well-formed byte string. The counter `skip` runs over the rest of a
character just read. -/
def decodeFrom : Nat → List UInt8 → Option (List Char)
  | _, [] => some []
  | skip + 1, _ :: bs => decodeFrom skip bs
  | 0, b :: bs =>
    match next b bs with
    | .char c n => (decodeFrom (n - 1) bs).map (c :: ·)
    | .malformed _ => none

/-- The text of a byte string, if it is well formed throughout. -/
def decode? (bytes : List UInt8) : Option String := (decodeFrom 0 bytes).map String.ofList

/-- The characters of any byte string, with U+FFFD for each malformed piece. -/
def decodeLossyFrom : Nat → List UInt8 → List Char
  | _, [] => []
  | skip + 1, _ :: bs => decodeLossyFrom skip bs
  | 0, b :: bs =>
    match next b bs with
    | .char c n => c :: decodeLossyFrom (n - 1) bs
    | .malformed n => Char.ofNat 0xFFFD :: decodeLossyFrom (n - 1) bs

/-- The characters of any byte string, with U+FFFD for each malformed piece. -/
def decodeLossy (bytes : List UInt8) : List Char := decodeLossyFrom 0 bytes

/-- The bytes of a text. -/
def encode (s : String) : List UInt8 := s.toUTF8.data.toList

end CodeAtlas.Text.Utf8
