/-!
# Blank characters, words and lines

* `isBlank`: the characters with the Unicode property `White_Space`.
* `trim`, `trimStart`, `trimEnd`: a text without the blanks around it.
* `words`: the maximal runs of characters that are not blank.
* `lines`: the lines of a text, without their line ends and without an empty last line.
-/

namespace CodeAtlas.Text

/-- The characters with the Unicode property `White_Space`. -/
def isBlank (c : Char) : Bool :=
  let n := c.toNat
  (0x09 ≤ n && n ≤ 0x0D) || n == 0x20 || n == 0x85 || n == 0xA0 || n == 0x1680 ||
    (0x2000 ≤ n && n ≤ 0x200A) || n == 0x2028 || n == 0x2029 || n == 0x202F || n == 0x205F ||
    n == 0x3000

/-- The list without its last elements that satisfy `p`. -/
def dropTail {α : Type} (p : α → Bool) (s : List α) : List α :=
  (s.reverse.dropWhile p).reverse

/-- The text without blanks at its start. -/
def trimStart (s : String) : String := .ofList (s.toList.dropWhile isBlank)

/-- The text without blanks at its end. -/
def trimEnd (s : String) : String := .ofList (dropTail isBlank s.toList)

/-- The text without blanks at its two ends. -/
def trim (s : String) : String := trimEnd (trimStart s)

/-- The text without the characters satisfying `p` at its two ends. -/
def trimBoth (p : Char → Bool) (s : String) : String :=
  .ofList (dropTail p (s.toList.dropWhile p))

/-- The text without the characters satisfying `p` at its end. -/
def trimTail (p : Char → Bool) (s : String) : String := .ofList (dropTail p s.toList)

/-- The maximal runs of elements satisfying `p`, in order. -/
def runs {α : Type} (p : α → Bool) : List α → List (List α)
  | [] => []
  | c :: cs =>
    if p c then
      match cs with
      | [] => [[c]]
      | d :: _ =>
        if p d then
          match runs p cs with
          | [] => [[c]]
          | r :: rs => (c :: r) :: rs
        else [c] :: runs p cs
    else runs p cs

/-- The words of a text: its maximal runs of characters that are not blank. -/
def words (s : String) : List String :=
  (runs (fun c => !isBlank c) s.toList).map String.ofList

/-- Pieces of a list between the elements satisfying `p`; there is one more piece than separators. -/
def splitBy {α : Type} (p : α → Bool) : List α → List (List α)
  | [] => [[]]
  | c :: cs =>
    if p c then [] :: splitBy p cs
    else
      match splitBy p cs with
      | [] => [[c]]
      | r :: rs => (c :: r) :: rs

/-- One line end: a carriage return before the newline belongs to it. -/
def chomp (line : List Char) : List Char :=
  match line.getLast? with
  | some '\r' => line.dropLast
  | _ => line

/-- The lines of a text. A newline at the very end opens no further line. -/
def lineLists (s : List Char) : List (List Char) :=
  let pieces := splitBy (· == '\n') s
  match pieces.getLast? with
  | some [] => pieces.dropLast.map chomp
  | some last => pieces.dropLast.map chomp ++ [last]
  | none => []

/-- The lines of a text as strings. -/
def lines (s : String) : List String := (lineLists s.toList).map String.ofList

end CodeAtlas.Text
