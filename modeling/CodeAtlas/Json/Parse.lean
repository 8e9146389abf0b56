import CodeAtlas.Json.Basic

/-!
# Reading JSON

A reader takes the characters left and gives a value with the characters after it. Values may be
nested 128 deep.

* `Json.parse?`: the value that a text writes, if it writes exactly one.
* `number?`: whole numbers of 64 bits stay whole, all others become doubles.
-/

namespace CodeAtlas.Json

/-- The blanks between the parts of a value. -/
def isSpace (c : Char) : Bool := c == ' ' || c == '\n' || c == '\t' || c == '\r'

/-- The characters after leading blanks. -/
def skipSpace (s : List Char) : List Char := s.dropWhile isSpace

/-- The number that decimal digits write. -/
def digitsValue (ds : List Char) : Nat := ds.foldl (fun n c => 10 * n + (c.toNat - 48)) 0

/-- The value of a hexadecimal digit. -/
def hexValue? (c : Char) : Option Nat :=
  let n := c.toNat
  if 48 ≤ n ∧ n ≤ 57 then some (n - 48)
  else if 97 ≤ n ∧ n ≤ 102 then some (n - 87)
  else if 65 ≤ n ∧ n ≤ 70 then some (n - 55)
  else none

/-- The value of four hexadecimal digits. -/
def hex4? : List Char → Option (Nat × List Char)
  | a :: b :: c :: d :: rest => do
    let a ← hexValue? a
    let b ← hexValue? b
    let c ← hexValue? c
    let d ← hexValue? d
    return (((a * 16 + b) * 16 + c) * 16 + d, rest)
  | _ => none

/-- The character after a `\u`: one unit, or a high and a low surrogate together. -/
def unit? (s : List Char) : Option (Char × List Char) := do
  let (u, rest) ← hex4? s
  if 0xD800 ≤ u ∧ u < 0xDC00 then
    match rest with
    | '\\' :: 'u' :: rest' => do
      let (v, rest'') ← hex4? rest'
      if 0xDC00 ≤ v ∧ v < 0xE000 then
        some (Char.ofNat (0x10000 + (u - 0xD800) * 0x400 + (v - 0xDC00)), rest'')
      else none
    | _ => none
  else if 0xDC00 ≤ u ∧ u < 0xE000 then none
  else some (Char.ofNat u, rest)

/-- The rest of a quoted text, read into `acc` in reverse. -/
def quoted? : Nat → List Char → List Char → Option (String × List Char)
  | 0, _, _ => none
  | fuel + 1, acc, s =>
    match s with
    | [] => none
    | '"' :: rest => some (.ofList acc.reverse, rest)
    | '\\' :: c :: rest =>
      match c with
      | '"' => quoted? fuel ('"' :: acc) rest
      | '\\' => quoted? fuel ('\\' :: acc) rest
      | '/' => quoted? fuel ('/' :: acc) rest
      | 'b' => quoted? fuel (Char.ofNat 8 :: acc) rest
      | 'f' => quoted? fuel (Char.ofNat 12 :: acc) rest
      | 'n' => quoted? fuel ('\n' :: acc) rest
      | 'r' => quoted? fuel ('\r' :: acc) rest
      | 't' => quoted? fuel ('\t' :: acc) rest
      | 'u' =>
        match unit? rest with
        | some (c, rest') => quoted? fuel (c :: acc) rest'
        | none => none
      | _ => none
    | c :: rest => if c.toNat < 32 || c == '\\' then none else quoted? fuel (c :: acc) rest

/-- The digits at the start of a text, and the rest. -/
def digits (s : List Char) : List Char × List Char := (s.takeWhile Char.isDigit, s.dropWhile Char.isDigit)

/-- The double nearest to `± m · 10 ^ e`; none if it is not finite. -/
def double? (neg : Bool) (m : Nat) (e : Int) : Option Float :=
  let x :=
    if m = 0 then (0.0 : Float)
    else if e < 0 then Float.ofScientific m true (-e).toNat
    else if 400 < e then (1.0 / 0.0 : Float)
    else Float.ofScientific m false e.toNat
  if x.isFinite then some (if neg then -x else x) else none

/-- A number without fraction and exponent. -/
def whole? (neg : Bool) (m : Nat) : Option Json :=
  if neg then
    if m = 0 ∨ 0x8000000000000000 < m then (double? true m 0).map .float
    else some (.int (-(m : Int)))
  else if m < 0x10000000000000000 then some (.int m)
  else (double? false m 0).map .float

/-- The exponent of a number, after its mark. -/
def exponent? (s : List Char) : Option (Int × List Char) :=
  let (neg, s) : Bool × List Char :=
    match s with
    | '-' :: rest => (true, rest)
    | '+' :: rest => (false, rest)
    | rest => (false, rest)
  match digits s with
  | ([], _) => none
  | (ds, rest) =>
    let n : Int := if ds.length > 8 then 100000000 else digitsValue ds
    some (if neg then -n else n, rest)

/-- A number, from its sign or first digit on. -/
def number? (s : List Char) : Option (Json × List Char) := do
  let (neg, s) : Bool × List Char :=
    match s with
    | '-' :: rest => (true, rest)
    | rest => (false, rest)
  let (ds, rest) := digits s
  if ds.isEmpty || (ds.length > 1 && ds.head? == some '0') then none
  else
    let (frac, rest') ← (match rest with
      | '.' :: r =>
        match digits r with
        | ([], _) => none
        | (fs, r') => some (some fs, r')
      | r => some (none, r) : Option (Option (List Char) × List Char))
    let (exp, rest'') ← (match rest' with
      | 'e' :: r => (exponent? r).map fun (e, r') => (some e, r')
      | 'E' :: r => (exponent? r).map fun (e, r') => (some e, r')
      | r => some (none, r) : Option (Option Int × List Char))
    match frac, exp with
    | none, none => return (← whole? neg (digitsValue ds), rest'')
    | frac, exp =>
      let fs := frac.getD []
      let x ← double? neg (digitsValue (ds ++ fs)) (exp.getD 0 - fs.length)
      return (.float x, rest'')

/-- The rest of a text after a fixed word. -/
def word? (w : String) (v : Json) (s : List Char) : Option (Json × List Char) :=
  if w.toList.isPrefixOf s then some (v, s.drop w.length) else none

mutual

/-- A value, `depth` being how many levels may still be opened. -/
def value? : Nat → Nat → List Char → Option (Json × List Char)
  | 0, _, _ => none
  | fuel + 1, depth, s =>
    match skipSpace s with
    | '"' :: rest => (quoted? (rest.length + 1) [] rest).map fun (t, r) => (.str t, r)
    | '[' :: rest =>
      match depth with
      | 0 => none
      | depth + 1 =>
        match skipSpace rest with
        | ']' :: rest' => some (.arr [], rest')
        | rest' => items? fuel depth [] rest'
    | '{' :: rest =>
      match depth with
      | 0 => none
      | depth + 1 =>
        match skipSpace rest with
        | '}' :: rest' => some (.obj [], rest')
        | rest' => members? fuel depth [] rest'
    | 'n' :: rest => word? "null" .null ('n' :: rest)
    | 't' :: rest => word? "true" (.bool true) ('t' :: rest)
    | 'f' :: rest => word? "false" (.bool false) ('f' :: rest)
    | rest => number? rest

/-- The items of an array up to its end, read into `acc` in reverse. -/
def items? : Nat → Nat → List Json → List Char → Option (Json × List Char)
  | 0, _, _, _ => none
  | fuel + 1, depth, acc, s =>
    match value? fuel depth s with
    | none => none
    | some (v, rest) =>
      match skipSpace rest with
      | ',' :: rest' => items? fuel depth (v :: acc) rest'
      | ']' :: rest' => some (.arr (v :: acc).reverse, rest')
      | _ => none

/-- The members of an object up to its end, read into `acc` in reverse. -/
def members? : Nat → Nat → List (String × Json) → List Char → Option (Json × List Char)
  | 0, _, _, _ => none
  | fuel + 1, depth, acc, s =>
    match skipSpace s with
    | '"' :: rest =>
      match quoted? (rest.length + 1) [] rest with
      | none => none
      | some (k, rest') =>
        match skipSpace rest' with
        | ':' :: rest'' =>
          match value? fuel depth rest'' with
          | none => none
          | some (v, after) =>
            match skipSpace after with
            | ',' :: more => members? fuel depth ((k, v) :: acc) more
            | '}' :: more => some (Json.object ((k, v) :: acc).reverse, more)
            | _ => none
        | _ => none
    | _ => none

end

/-- The value that a text writes, if it writes exactly one. -/
def parse? (s : String) : Option Json :=
  let cs := s.toList
  match value? (2 * cs.length + 2) 127 cs with
  | some (v, rest) => if (skipSpace rest).isEmpty then some v else none
  | none => none

end CodeAtlas.Json
