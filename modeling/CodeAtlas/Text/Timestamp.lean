/-!
# Points in time

* `Text.utc`: the date and the time of day of a number of seconds since the start of 1970.
-/

namespace CodeAtlas.Text

/-- A day of the calendar. -/
structure Day where
  year : Int
  month : Nat
  day : Nat
  deriving DecidableEq, Inhabited

/-- The day that is some days after the first of January 1970. Years are counted from March on, so
that a leap day is the last of its year, in spans of 400 years. -/
def Day.ofNumber (n : Int) : Day :=
  let n := n + 719468
  let era := n.fdiv 146097
  let inEra := (n - era * 146097).toNat
  let year := (inEra - inEra / 1460 + inEra / 36524 - inEra / 146096) / 365
  let inYear := inEra - (365 * year + year / 4 - year / 100)
  let march := (5 * inYear + 2) / 153
  let day := inYear - (153 * march + 2) / 5 + 1
  let month := if march < 10 then march + 3 else march - 9
  { year := year + era * 400 + (if month ≤ 2 then 1 else 0), month, day }

/-- A number with at least some digits. -/
def padded (width n : Nat) : String :=
  let digits := toString n
  .ofList (List.replicate (width - digits.length) '0') ++ digits

/-- The date and the time of day of a number of seconds since the start of 1970. -/
def utc (seconds : Int) : String :=
  let day := Day.ofNumber (seconds.fdiv 86400)
  let rest := (seconds - seconds.fdiv 86400 * 86400).toNat
  let year := if day.year < 0 then "-" ++ padded 4 (-day.year).toNat else padded 4 day.year.toNat
  year ++ "-" ++ padded 2 day.month ++ "-" ++ padded 2 day.day ++ " " ++
    padded 2 (rest / 3600) ++ ":" ++ padded 2 (rest / 60 % 60) ++ ":" ++ padded 2 (rest % 60) ++
    " UTC"

end CodeAtlas.Text
