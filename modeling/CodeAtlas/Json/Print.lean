import CodeAtlas.Decimal.Shortest
import CodeAtlas.Json.Basic

/-!
# Writing JSON

* `Json.compact`: a value on one line, without blanks.
* `Json.pretty`: a value over several lines, indented by two blanks a level.
-/

namespace CodeAtlas.Json

/-- A hexadecimal digit, in lower case. -/
def hexDigit (n : Nat) : Char :=
  if n < 10 then Char.ofNat (48 + n) else Char.ofNat (87 + n)

/-- A character inside a quoted text: quotes, backslashes and control characters are escaped. -/
def escapeChar (c : Char) : List Char :=
  match c with
  | '"' => ['\\', '"']
  | '\\' => ['\\', '\\']
  | '\n' => ['\\', 'n']
  | '\r' => ['\\', 'r']
  | '\t' => ['\\', 't']
  | c =>
    if c.toNat = 8 then ['\\', 'b']
    else if c.toNat = 12 then ['\\', 'f']
    else if c.toNat < 32 then ['\\', 'u', '0', '0', hexDigit (c.toNat / 16), hexDigit (c.toNat % 16)]
    else [c]

/-- A text in quotes. -/
def quote (s : String) : String := .ofList ('"' :: s.toList.flatMap escapeChar ++ ['"'])

/-- The opening and the closing brace of an object. -/
def braces : String × String := ("\x7b", "\x7d")

mutual

/-- A value on one line, without blanks. -/
def compact : Json → String
  | .null => "null"
  | .bool true => "true"
  | .bool false => "false"
  | .int n => toString n
  | .float x => Decimal.plain x
  | .str s => quote s
  | .arr items => "[" ++ ",".intercalate (compactItems items) ++ "]"
  | .obj members => braces.1 ++ ",".intercalate (compactMembers members) ++ braces.2

/-- The items of an array, each on its own. -/
def compactItems : List Json → List String
  | [] => []
  | j :: js => compact j :: compactItems js

/-- The members of an object, each on its own. -/
def compactMembers : List (String × Json) → List String
  | [] => []
  | (k, j) :: rest => (quote k ++ ":" ++ compact j) :: compactMembers rest

end

/-- A line break and the indentation of a level. -/
def newline (level : Nat) : String := .ofList ('\n' :: List.replicate (2 * level) ' ')

mutual

/-- A value over several lines; `level` is its depth. -/
def prettyAt (level : Nat) : Json → String
  | .arr [] => "[]"
  | .arr items =>
    "[" ++ newline (level + 1) ++
      ("," ++ newline (level + 1)).intercalate (prettyItems (level + 1) items) ++
      newline level ++ "]"
  | .obj [] => braces.1 ++ braces.2
  | .obj members =>
    braces.1 ++ newline (level + 1) ++
      ("," ++ newline (level + 1)).intercalate (prettyMembers (level + 1) members) ++
      newline level ++ braces.2
  | j => compact j

/-- The items of an array over several lines. -/
def prettyItems (level : Nat) : List Json → List String
  | [] => []
  | j :: js => prettyAt level j :: prettyItems level js

/-- The members of an object over several lines. -/
def prettyMembers (level : Nat) : List (String × Json) → List String
  | [] => []
  | (k, j) :: rest => (quote k ++ ": " ++ prettyAt level j) :: prettyMembers level rest

end

/-- A value over several lines, indented by two blanks a level. -/
def pretty (j : Json) : String := prettyAt 0 j

end CodeAtlas.Json
