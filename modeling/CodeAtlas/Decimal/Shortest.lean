/-!
# Decimal text of a double

A finite double is `± m · 2 ^ q`. All comparisons are made on natural numbers, so nothing is rounded
on the way.

* `Scaled`: a number `m · 2 ^ q`, with its comparison to points of a decimal grid.
* `Digits.shortest`: the fewest significant digits that read back as the number, and among those the
  nearest.
* `fixed`: a double with a given number of decimal places, a half going to the even neighbour.
* `plain`: the text of a double in reports; positional from `1e-5` up to `1e16`.
-/

namespace CodeAtlas.Decimal

/-- The number `mant · 2 ^ exp`. -/
structure Scaled where
  mant : Nat
  exp : Int
  deriving DecidableEq

/-- The number `coeff · 10 ^ exp`. -/
structure Digits where
  coeff : Nat
  exp : Int
  deriving DecidableEq

/-- The magnitude of a finite double, from its bits. -/
def magnitude (x : Float) : Scaled :=
  let bits := x.toBits.toNat % 0x8000000000000000
  let e : Nat := bits / 0x10000000000000
  let f : Nat := bits % 0x10000000000000
  if e = 0 then ⟨f, -1074⟩ else ⟨0x10000000000000 + f, (e : Int) - 1075⟩

/-- Whether the sign bit of a double is set. -/
def negative (x : Float) : Bool := x.toBits.toNat / 0x8000000000000000 == 1

/-- Compares `c · 10 ^ g` with a scaled number. -/
def compareGrid (c : Nat) (g : Int) (s : Scaled) : Ordering :=
  compare (c * Nat.pow 10 g.toNat * Nat.pow 2 (-s.exp).toNat)
    (s.mant * Nat.pow 2 s.exp.toNat * Nat.pow 10 (-g).toNat)

/-- The greatest `c` with `c · 10 ^ g` at most the number. -/
def floorGrid (g : Int) (s : Scaled) : Nat :=
  (s.mant * Nat.pow 2 s.exp.toNat * Nat.pow 10 (-g).toNat) /
    (Nat.pow 10 g.toNat * Nat.pow 2 (-s.exp).toNat)

/-- Number of decimal digits of a natural number; zero has none. -/
def digitCount (n : Nat) : Nat := if n = 0 then 0 else (Nat.toDigits 10 n).length

/-- The `k` with `10 ^ (k - 1) ≤ s < 10 ^ k`, for a positive number that is at least `10 ^ -400`. -/
def Scaled.order (s : Scaled) : Int := (digitCount (floorGrid (-400) s) : Int) - 400

/-- Lower end of the interval of reals that round to the double `s`. -/
def Scaled.lower (s : Scaled) : Scaled :=
  if s.mant = 0x10000000000000 ∧ s.exp ≠ -1074 then ⟨4 * s.mant - 1, s.exp - 2⟩
  else ⟨2 * s.mant - 1, s.exp - 1⟩

/-- Upper end of the interval of reals that round to the double `s`. -/
def Scaled.upper (s : Scaled) : Scaled := ⟨2 * s.mant + 1, s.exp - 1⟩

/-- Whether `c · 10 ^ g` reads back as the double `s`. -/
def readsBack (s : Scaled) (c : Nat) (g : Int) : Bool :=
  let even := s.mant % 2 == 0
  let low := compareGrid c g s.lower
  let high := compareGrid c g s.upper
  (low == .gt || (even && low == .eq)) && (high == .lt || (even && high == .eq))

/-- Whether `c · 10 ^ g` is at least as near to the number as `(c + 1) · 10 ^ g`; a tie goes to the
even one. -/
def nearerBelow (s : Scaled) (c : Nat) (g : Int) : Bool :=
  match compareGrid (2 * c + 1) g ⟨s.mant, s.exp + 1⟩ with
  | .gt => true
  | .lt => false
  | .eq => c % 2 == 0

/-- The point of the grid `10 ^ g` that reads back as `s`, the nearer one if two do. -/
def gridPoint? (s : Scaled) (g : Int) : Option Nat :=
  let c := floorGrid g s
  match readsBack s c g, readsBack s (c + 1) g with
  | true, true => some (if nearerBelow s c g then c else c + 1)
  | true, false => some c
  | false, true => some (c + 1)
  | false, false => none

/-- Takes zeros off the end of the coefficient. -/
def Digits.strip : Nat → Digits → Digits
  | 0, d => d
  | n + 1, d => if d.coeff ≠ 0 ∧ d.coeff % 10 = 0 then strip n ⟨d.coeff / 10, d.exp + 1⟩ else d

/-- The first grid with a point that reads back, from `used` significant digits on. -/
def shortestFrom (s : Scaled) (order : Int) : Nat → Nat → Digits
  | 0, used => ⟨floorGrid (order - used) s, order - used⟩
  | fuel + 1, used =>
    match gridPoint? s (order - used) with
    | some c => ⟨c, order - used⟩
    | none => shortestFrom s order fuel (used + 1)

/-- The fewest significant digits that read back as the positive double `s`. -/
def Digits.shortest (s : Scaled) : Digits := (shortestFrom s s.order 17 1).strip 20

def zeros (n : Nat) : String := .ofList (List.replicate n '0')

/-- The text of a double in reports: positional with at least one decimal place from `1e-5` up to
`1e16`, and otherwise with an exponent. -/
def plain (x : Float) : String :=
  let sign := if negative x then "-" else ""
  let s := magnitude x
  if s.mant = 0 then sign ++ "0.0"
  else
    let d := Digits.shortest s
    let ds := toString d.coeff
    let len := ds.length
    let point := (len : Int) + d.exp
    let body :=
      if 0 ≤ d.exp ∧ point ≤ 16 then ds ++ zeros d.exp.toNat ++ ".0"
      else if 0 < point ∧ point ≤ 16 then
        String.ofList (ds.toList.take point.toNat) ++ "." ++ String.ofList (ds.toList.drop point.toNat)
      else if -5 < point ∧ point ≤ 0 then "0." ++ zeros (-point).toNat ++ ds
      else
        let rest := String.ofList (ds.toList.drop 1)
        let frac := if len = 1 then "" else "." ++ rest
        String.ofList (ds.toList.take 1) ++ frac ++ "e" ++ toString (point - 1)
    sign ++ body

/-- A double with `places` decimal places; a half goes to the even neighbour. -/
def fixed (places : Nat) (x : Float) : String :=
  let s := magnitude x
  let g : Int := -(places : Int)
  let c := floorGrid g s
  let n := if nearerBelow s c g then c else c + 1
  let ds := toString n
  let padded := zeros (places + 1 - ds.length) ++ ds
  let cut := padded.length - places
  let whole := String.ofList (padded.toList.take cut)
  let sign := if negative x then "-" else ""
  if places = 0 then sign ++ whole
  else sign ++ whole ++ "." ++ String.ofList (padded.toList.drop cut)

end CodeAtlas.Decimal
