import CodeAtlas.Json.Parse
import CodeAtlas.Toml.Basic

/-!
# Reading TOML

A reader takes the characters left and gives a value with the characters after it.

* `Toml.parse?`: the entries of a document, if the text is one.
* `Toml.value?`: one value; `Toml.key?`: a dotted key.
* `Toml.basicBody?`, `Toml.literalBody?`: the four kinds of strings.
-/

namespace CodeAtlas.Toml

/-- A reader: a value with the characters after it. -/
abbrev Reader (α : Type) := List Char → Option (α × List Char)

/-- The single quote. -/
def apostrophe : Char := Char.ofNat 39

/-- Blanks inside a line. -/
def isGap (c : Char) : Bool := c == ' ' || c == '\t'

/-- The characters after blanks. -/
def skipGap (s : List Char) : List Char := s.dropWhile isGap

/-- Characters that a comment may hold. -/
def isCommentChar (c : Char) : Bool := c == '\t' || (32 ≤ c.toNat)

/-- The characters after a comment, if one starts here. -/
def skipComment : List Char → List Char
  | '#' :: rest => rest.dropWhile isCommentChar
  | s => s

/-- The characters after a line end, if one stands here. -/
def lineEnd? : List Char → Option (List Char)
  | '\n' :: rest => some rest
  | '\r' :: '\n' :: rest => some rest
  | _ => none

/-- The characters after blanks, comments and line ends. -/
def skipLines : Nat → List Char → List Char
  | 0, s => s
  | fuel + 1, s =>
    let s' := skipComment (skipGap s)
    match lineEnd? s' with
    | some rest => skipLines fuel rest
    | none => s'

/-- Characters of a bare key. -/
def isBare (c : Char) : Bool := c.isAlphanum || c == '_' || c == '-'

/-- Characters that a string may hold as they are, its own quote and backslash apart. -/
def isTextChar (c : Char) : Bool := c == '\t' || (32 ≤ c.toNat && c.toNat != 127)

/-- The character that `n` hexadecimal digits write; surrogates are none. -/
def codePoint? (n : Nat) (s : List Char) : Option (Char × List Char) := do
  let ds ← (s.take n).mapM Json.hexValue?
  let v := ds.foldl (fun acc d => 16 * acc + d) 0
  if ds.length = n ∧ v < 0x110000 ∧ ¬(0xD800 ≤ v ∧ v < 0xE000) then some (Char.ofNat v, s.drop n) else none

/-- The character that an escape writes, after its backslash. -/
def escape? : List Char → Option (Char × List Char)
  | 'b' :: r => some (Char.ofNat 8, r)
  | 't' :: r => some ('\t', r)
  | 'n' :: r => some ('\n', r)
  | 'f' :: r => some (Char.ofNat 12, r)
  | 'r' :: r => some ('\r', r)
  | '"' :: r => some ('"', r)
  | '\\' :: r => some ('\\', r)
  | 'u' :: r => codePoint? 4 r
  | 'U' :: r => codePoint? 8 r
  | _ => none

/-- The rest of a string in double quotes, read into `acc` in reverse. -/
def basicBody? : Nat → List Char → Reader String
  | 0, _, _ => none
  | fuel + 1, acc, s =>
    match s with
    | '"' :: rest => some (.ofList acc.reverse, rest)
    | '\\' :: rest =>
      match escape? rest with
      | some (c, rest') => basicBody? fuel (c :: acc) rest'
      | none => none
    | c :: rest => if isTextChar c then basicBody? fuel (c :: acc) rest else none
    | [] => none

/-- The rest of a string in single quotes. -/
def literalBody? (s : List Char) : Option (String × List Char) :=
  let body := s.takeWhile fun c => isTextChar c && c != apostrophe
  match s.drop body.length with
  | c :: rest => if c = apostrophe then some (.ofList body, rest) else none
  | [] => none

/-- The end of a string over several lines: three quotes, and up to two more that belong to it. -/
def closing? (q : Char) (s : List Char) : Option (Nat × List Char) :=
  let n := (s.takeWhile (· == q)).length
  if n < 3 then none
  else
    let extra := min (n - 3) 2
    some (extra, s.drop (3 + extra))

/-- After a backslash at the end of a line: blanks and line ends up to the next text. -/
def skipFold : Nat → List Char → List Char
  | 0, s => s
  | fuel + 1, s =>
    let s' := skipGap s
    match lineEnd? s' with
    | some rest => skipFold fuel rest
    | none => s'

/-- The rest of a string in three double quotes, read into `acc` in reverse. -/
def basicLines? : Nat → List Char → Reader String
  | 0, _, _ => none
  | fuel + 1, acc, s =>
    match s with
    | '"' :: rest =>
      match closing? '"' s with
      | some (extra, rest') => some (.ofList (List.replicate extra '"' ++ acc).reverse, rest')
      | none => basicLines? fuel ('"' :: acc) rest
    | '\\' :: rest =>
      match escape? rest with
      | some (c, rest') => basicLines? fuel (c :: acc) rest'
      | none =>
        match lineEnd? (skipGap rest) with
        | some rest' => basicLines? fuel acc (skipFold rest'.length rest')
        | none => none
    | '\r' :: '\n' :: rest => basicLines? fuel ('\n' :: acc) rest
    | '\n' :: rest => basicLines? fuel ('\n' :: acc) rest
    | c :: rest => if isTextChar c then basicLines? fuel (c :: acc) rest else none
    | [] => none

/-- The rest of a string in three single quotes, read into `acc` in reverse. -/
def literalLines? : Nat → List Char → Reader String
  | 0, _, _ => none
  | fuel + 1, acc, s =>
    match s with
    | '\r' :: '\n' :: rest => literalLines? fuel ('\n' :: acc) rest
    | '\n' :: rest => literalLines? fuel ('\n' :: acc) rest
    | c :: rest =>
      if c = apostrophe then
        match closing? apostrophe s with
        | some (extra, rest') => some (.ofList (List.replicate extra apostrophe ++ acc).reverse, rest')
        | none => literalLines? fuel (apostrophe :: acc) rest
      else if isTextChar c then literalLines? fuel (c :: acc) rest
      else none
    | [] => none

/-- A line end right after opening quotes is not part of the string. -/
def dropFirstLineEnd (s : List Char) : List Char := (lineEnd? s).getD s

/-- A string of any of the four kinds, from its first quote on. -/
def string? (s : List Char) : Option (String × List Char) :=
  match s with
  | '"' :: '"' :: '"' :: rest => basicLines? (rest.length + 1) [] (dropFirstLineEnd rest)
  | '"' :: rest => basicBody? (rest.length + 1) [] rest
  | c :: rest =>
    if c = apostrophe then
      if [apostrophe, apostrophe].isPrefixOf rest then
        literalLines? (rest.length + 1) [] (dropFirstLineEnd (rest.drop 2))
      else literalBody? rest
    else none
  | [] => none

/-- One part of a key. -/
def simpleKey? (s : List Char) : Option (String × List Char) :=
  match s with
  | '"' :: rest => basicBody? (rest.length + 1) [] rest
  | _ =>
    if s.head? == some apostrophe then literalBody? (s.drop 1) else
    let name := s.takeWhile isBare
    if name.isEmpty then none else some (.ofList name, s.drop name.length)

/-- A dotted key, with the blanks around its parts. -/
def key? : Nat → List Char → Option (List String × List Char)
  | 0, _ => none
  | fuel + 1, s => do
    let (k, rest) ← simpleKey? (skipGap s)
    match skipGap rest with
    | '.' :: rest' => do
      let (ks, rest'') ← key? fuel rest'
      return (k :: ks, rest'')
    | rest' => return ([k], rest')

/-- Digits with single underscores between them; the underscores are dropped. -/
def digitRun (isDigit : Char → Bool) : Nat → List Char → List Char × List Char
  | 0, s => ([], s)
  | fuel + 1, s =>
    match s with
    | c :: rest =>
      if isDigit c then
        match rest with
        | '_' :: d :: _ =>
          if isDigit d then
            let (ds, rest') := digitRun isDigit fuel (rest.drop 1)
            (c :: ds, rest')
          else ([c], rest)
        | _ =>
          let (ds, rest') := digitRun isDigit fuel rest
          (c :: ds, rest')
      else ([], s)
    | [] => ([], [])

/-- A whole number of 64 bits. -/
def signed? (n : Int) : Option Toml :=
  if -0x8000000000000000 ≤ n ∧ n < 0x8000000000000000 then some (.int n) else none

/-- Whether a character is a digit of a base up to sixteen. -/
def isBaseDigit (base : Nat) (c : Char) : Bool :=
  match Json.hexValue? c with
  | some v => v < base
  | none => false

/-- A number in another base, after its mark. -/
def based? (base : Nat) (s : List Char) : Option (Toml × List Char) := do
  let (ds, rest) := digitRun (isBaseDigit base) s.length s
  if ds.isEmpty then none
  else
    let v := ds.foldl (fun n c => base * n + (Json.hexValue? c).getD 0) 0
    return (← signed? v, rest)

/-- Two decimal digits at most `hi`. -/
def two? (lo hi : Nat) : List Char → Option (Nat × List Char)
  | a :: b :: rest =>
    if a.isDigit && b.isDigit then
      let v := Json.digitsValue [a, b]
      if lo ≤ v ∧ v ≤ hi then some (v, rest) else none
    else none
  | _ => none

/-- The number of days of a month. -/
def monthDays (year month : Nat) : Nat :=
  if month = 2 then
    if year % 4 = 0 ∧ (year % 100 ≠ 0 ∨ year % 400 = 0) then 29 else 28
  else if month = 4 ∨ month = 6 ∨ month = 9 ∨ month = 11 then 30
  else 31

/-- The characters after a given one. -/
def char? (c : Char) : List Char → Option (List Char)
  | d :: rest => if c = d then some rest else none
  | [] => none

/-- A date, as the characters after it. -/
def dateOnly? (s : List Char) : Option (List Char) := do
  let year := s.take 4
  if year.length = 4 ∧ year.all Char.isDigit then
    let rest ← char? '-' (s.drop 4)
    let (month, rest) ← two? 1 12 rest
    let rest ← char? '-' rest
    let (_, rest) ← two? 1 (monthDays (Json.digitsValue year) month) rest
    return rest
  else none

/-- A time of day, as the characters after it. -/
def timeOnly? (s : List Char) : Option (List Char) := do
  let (_, rest) ← two? 0 23 s
  let rest ← char? ':' rest
  let (_, rest) ← two? 0 59 rest
  let rest ← char? ':' rest
  let (_, rest) ← two? 0 60 rest
  match rest with
  | '.' :: d :: more => if d.isDigit then some (more.dropWhile Char.isDigit) else none
  | _ => some rest

/-- The offset of a time from universal time, if there is one. -/
def offset? (s : List Char) : Option (List Char) :=
  match s with
  | 'Z' :: rest => some rest
  | 'z' :: rest => some rest
  | '+' :: rest => hours rest
  | '-' :: rest => hours rest
  | _ => some s
where
  hours (rest : List Char) : Option (List Char) := do
    let (_, rest) ← two? 0 23 rest
    let rest ← char? ':' rest
    let (_, rest) ← two? 0 59 rest
    return rest

/-- A date, a time, or both. -/
def date? (s : List Char) : Option (Toml × List Char) :=
  match dateOnly? s with
  | some rest =>
    match rest with
    | c :: more =>
      if c == 'T' || c == 't' then
        (timeOnly? more).bind fun r => (offset? r).map fun r' => (.date, r')
      else if c == ' ' then
        match timeOnly? more with
        | some r => (offset? r).map fun r' => (.date, r')
        | none => some (.date, rest)
      else some (.date, rest)
    | [] => some (.date, [])
  | none => (timeOnly? s).map fun rest => (.date, rest)

/-- A decimal number, with its sign. -/
def decimal? (s : List Char) : Option (Toml × List Char) := do
  let (neg, body) : Bool × List Char :=
    match s with
    | '-' :: rest => (true, rest)
    | '+' :: rest => (false, rest)
    | rest => (false, rest)
  if ['i', 'n', 'f'].isPrefixOf body then
    return (.float (if neg then -(1.0 / 0.0 : Float) else 1.0 / 0.0), body.drop 3)
  else if ['n', 'a', 'n'].isPrefixOf body then
    return (.float (0.0 / 0.0), body.drop 3)
  else
    let (ds, rest) := digitRun Char.isDigit body.length body
    if ds.isEmpty || (ds.length > 1 && ds.head? == some '0') then none
    else
      let (frac, rest') ← (match rest with
        | '.' :: r =>
          match digitRun Char.isDigit r.length r with
          | ([], _) => none
          | (fs, r') => some (some fs, r')
        | r => some (none, r) : Option (Option (List Char) × List Char))
      let (exp, rest'') ← (match rest' with
        | c :: r =>
          if c == 'e' || c == 'E' then
            let (eneg, r) : Bool × List Char :=
              match r with
              | '-' :: r' => (true, r')
              | '+' :: r' => (false, r')
              | r' => (false, r')
            match digitRun Char.isDigit r.length r with
            | ([], _) => none
            | (es, r') =>
              let n : Int := if es.length > 8 then 100000000 else Json.digitsValue es
              some (some (if eneg then -n else n), r')
          else some (none, c :: r)
        | [] => some (none, []) : Option (Option Int × List Char))
      match frac, exp with
      | none, none =>
        let n : Int := Json.digitsValue ds
        return (← signed? (if neg then -n else n), rest'')
      | frac, exp =>
        let fs := frac.getD []
        let x ← Json.double? neg (Json.digitsValue (ds ++ fs)) (exp.getD 0 - fs.length)
        return (.float x, rest'')

/-- A number or a date, from its first character on. -/
def scalar? (s : List Char) : Option (Toml × List Char) :=
  match s with
  | '0' :: 'x' :: rest => based? 16 rest
  | '0' :: 'o' :: rest => based? 8 rest
  | '0' :: 'b' :: rest => based? 2 rest
  | _ =>
    match date? s with
    | some r => some r
    | none => decimal? s

mutual

/-- A value, from its first character on. -/
def value? : Nat → Reader Toml
  | 0, _ => none
  | fuel + 1, s =>
    match s with
    | '"' :: _ => (string? s).map fun (t, r) => (.str t, r)
    | '[' :: rest =>
      match skipLines rest.length rest with
      | ']' :: rest' => some (.arr [], rest')
      | rest' => items? fuel [] rest'
    | '{' :: rest =>
      match skipGap rest with
      | '}' :: rest' => some (.table .braced [], rest')
      | rest' => braced? fuel [] rest'
    | 't' :: 'r' :: 'u' :: 'e' :: rest => some (.bool true, rest)
    | 'f' :: 'a' :: 'l' :: 's' :: 'e' :: rest => some (.bool false, rest)
    | _ =>
      if s.head? == some apostrophe then (string? s).map fun (t, r) => (.str t, r)
      else scalar? s

/-- The items of an array up to its end, read into `acc` in reverse. -/
def items? : Nat → List Toml → Reader Toml
  | 0, _, _ => none
  | fuel + 1, acc, s =>
    match value? fuel s with
    | none => none
    | some (v, rest) =>
      match skipLines rest.length rest with
      | ',' :: rest' =>
        match skipLines rest'.length rest' with
        | ']' :: more => some (.arr (v :: acc).reverse, more)
        | more => items? fuel (v :: acc) more
      | ']' :: rest' => some (.arr (v :: acc).reverse, rest')
      | _ => none

/-- The entries of a table in braces up to its end. -/
def braced? : Nat → Entries → Reader Toml
  | 0, _, _ => none
  | fuel + 1, es, s =>
    match key? s.length s with
    | some (path, '=' :: rest) =>
      match value? fuel (skipGap rest) with
      | none => none
      | some (v, rest') =>
        match defineKey? v path es with
        | none => none
        | some es' =>
          match skipGap rest' with
          | ',' :: more => braced? fuel es' (skipGap more)
          | '}' :: more => some (.table .braced es', more)
          | _ => none
    | _ => none

end

/-- The characters after the end of a line: blanks, a comment, and a line end or the end of text. -/
def finishLine? (s : List Char) : Option (List Char) :=
  match skipComment (skipGap s) with
  | [] => some []
  | s' => lineEnd? s'

/-- The lines of a document, below the header `path`. -/
def document? : Nat → List String → Entries → List Char → Option Entries
  | 0, _, doc, s => if s.isEmpty then some doc else none
  | fuel + 1, path, doc, s =>
    match skipLines (s.length + 1) s with
    | [] => some doc
    | '[' :: '[' :: rest => do
      let (ks, rest') ← key? rest.length rest
      match rest' with
      | ']' :: ']' :: more => do
        let more ← finishLine? more
        let doc ← openItem? ks doc
        document? fuel ks doc more
      | _ => none
    | '[' :: rest => do
      let (ks, rest') ← key? rest.length rest
      match rest' with
      | ']' :: more => do
        let more ← finishLine? more
        let doc ← openTable? ks doc
        document? fuel ks doc more
      | _ => none
    | s' => do
      let (ks, rest) ← key? s'.length s'
      match rest with
      | '=' :: more => do
        let (v, more) ← value? (2 * more.length + 2) (skipGap more)
        let more ← finishLine? more
        let doc ← within (defineKey? v ks) path doc
        document? fuel path doc more
      | _ => none

/-- The entries of a document. A byte order mark at its start is skipped. -/
def parse? (s : String) : Option Entries :=
  let cs : List Char :=
    match s.toList with
    | c :: rest => if c.toNat = 0xFEFF then rest else c :: rest
    | [] => []
  document? (cs.length + 1) [] [] cs

end CodeAtlas.Toml
