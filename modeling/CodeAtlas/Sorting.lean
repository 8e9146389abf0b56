/-!
# Sorting and 64-bit words

* `sortBy`: a stable sort; equal elements keep their order.
* `distinct`, `distinctOn`: each element once, in the order of its first place.
* `total`: the sum of some numbers.
* `signed`: a 64-bit word as the signed number with the same bits, which is how words are ordered in
  the store.
* `byPathAndLine`: the order by path, then by line.
-/

namespace CodeAtlas

/-- Puts an element before the first one that it does not come after. -/
def insertBy {α : Type} (le : α → α → Bool) (a : α) : List α → List α
  | [] => [a]
  | b :: bs => if le a b then a :: b :: bs else b :: insertBy le a bs

/-- A stable sort. -/
def sortBy {α : Type} (le : α → α → Bool) : List α → List α
  | [] => []
  | a :: as => insertBy le a (sortBy le as)

/-- The elements without those that were there before. -/
def distinct {α : Type} [BEq α] (xs : List α) : List α :=
  (xs.foldl (fun seen x => if seen.contains x then seen else x :: seen) []).reverse

/-- The elements without those whose key was there before. -/
def distinctOn {α β : Type} [BEq β] (key : α → β) (xs : List α) : List α :=
  (xs.foldl (fun kept x => if kept.any (key · == key x) then kept else x :: kept) []).reverse

/-- The texts in their order, each once. -/
def sortedTexts (xs : List String) : List String :=
  sortBy (fun a b => compare a b != .gt) (distinct xs)

/-- The sum of some numbers. -/
def total (ns : List Nat) : Nat := ns.foldl (· + ·) 0

/-- A 64-bit word as the signed number with the same bits. Numbers that are no words stay as they
are. -/
def signed (n : Nat) : Int :=
  if 0x8000000000000000 ≤ n && n < 0x10000000000000000 then (n : Int) - 0x10000000000000000 else n

/-- A signed number as the 64-bit word with the same bits. -/
def unsigned (i : Int) : Nat := if 0 ≤ i then i.toNat else (i + 0x10000000000000000).toNat

/-- One key after the other. -/
def thenBy (first second : Ordering) : Bool := (first.then second) != .gt

/-- The order by path, then by line. -/
def byPathAndLine {α : Type} (path : α → String) (line : α → Nat) (a b : α) : Bool :=
  thenBy (compare (path a) (path b)) (compare (signed (line a)) (signed (line b)))

end CodeAtlas
