import CodeAtlas.Text.Blank

/-!
# Segments, affixes and replacement

Texts are compared as lists of characters.

* `segments`: the pieces of a path between its slashes.
* `startsWith`, `endsWith`, `contains`: a text at the front, at the end or anywhere.
* `stripStart?`, `stripEnd?`: what is left when a text is taken off one end.
* `replace`: every occurrence of a text, from the left, without overlaps.
-/

namespace CodeAtlas.Text

/-- The pieces of a path between its slashes. -/
def segments (s : List Char) : List (List Char) := splitBy (· == '/') s

/-- The rest of `s` after `p`, if `s` starts with `p`. -/
def stripStart? : List Char → List Char → Option (List Char)
  | [], s => some s
  | _ :: _, [] => none
  | p :: ps, c :: cs => if p = c then stripStart? ps cs else none

/-- The part of `s` before `p`, if `s` ends with `p`. -/
def stripEnd? (p s : List Char) : Option (List Char) :=
  (stripStart? p.reverse s.reverse).map List.reverse

/-- Whether `s` starts with `p`. -/
def startsWith (p s : List Char) : Bool := (stripStart? p s).isSome

/-- Whether `s` ends with `p`. -/
def endsWith (p s : List Char) : Bool := (stripEnd? p s).isSome

/-- Whether `p` occurs in `s`. -/
def contains (p : List Char) : List Char → Bool
  | [] => startsWith p []
  | c :: cs => startsWith p (c :: cs) || contains p cs

/-- Every occurrence of the nonempty text `p`, from the left, replaced by `r`. The counter `skip`
runs over the rest of an occurrence just replaced. -/
def replaceFrom (p r : List Char) : Nat → List Char → List Char
  | _, [] => []
  | skip + 1, _ :: cs => replaceFrom p r skip cs
  | 0, c :: cs =>
    if startsWith p (c :: cs) then r ++ replaceFrom p r (p.length - 1) cs
    else c :: replaceFrom p r 0 cs

/-- Every occurrence of the nonempty text `p` in `s`, from the left, replaced by `r`. -/
def replace (p r s : List Char) : List Char := replaceFrom p r 0 s

/-- Splits at the last element satisfying `p`, which belongs to neither side. -/
def splitLast? {α : Type} (p : α → Bool) (s : List α) : Option (List α × List α) :=
  match s.reverse.span (fun c => !p c) with
  | (after, _ :: before) => some (before.reverse, after.reverse)
  | (_, []) => none

/-- The pieces of `s` between the occurrences of the nonempty text `p`. -/
def splitOnText (p : List Char) : Nat → List Char → List (List Char)
  | _, [] => [[]]
  | skip + 1, _ :: cs => splitOnText p skip cs
  | 0, c :: cs =>
    if startsWith p (c :: cs) then [] :: splitOnText p (p.length - 1) cs
    else
      match splitOnText p 0 cs with
      | [] => [[c]]
      | r :: rs => (c :: r) :: rs

/-- The piece of `s` after the last occurrence of `p`, or all of `s`. -/
def lastPiece (p s : List Char) : List Char := (splitOnText p 0 s).getLastD s

/-- Joins strings with a separator between them. -/
def join (sep : String) (parts : List String) : String := sep.intercalate parts

end CodeAtlas.Text
