import CodeAtlas.Text.Segment

/-!
# Path patterns

A pattern is one of four forms, told apart by its ends.

* `Pattern.ofText`: `dir/` and `**/dir/**` mean a directory at any depth, `*tail` an ending of the
  whole path, and anything else a file name or the last segments of a path.
* `Pattern.accepts`: whether a path matches.
-/

namespace CodeAtlas

/-- A path pattern. -/
inductive Pattern where
  /-- A directory at any depth. -/
  | directory (dir : List Char)
  /-- An ending of the whole path. -/
  | ending (tail : List Char)
  /-- The last segments of a path. -/
  | name (path : List Char)
  deriving DecidableEq

namespace Pattern

/-- The pattern that a text writes. -/
def ofText (s : List Char) : Pattern :=
  match Text.stripEnd? ['/'] s with
  | some dir => .directory dir
  | none =>
    match (Text.stripStart? ['*', '*', '/'] s).bind (Text.stripEnd? ['/', '*', '*']) with
    | some dir => .directory dir
    | none =>
      match s with
      | '*' :: tail => .ending tail
      | _ => .name s

/-- Whether a path matches a pattern. -/
def accepts (path : List Char) : Pattern → Bool
  | directory dir => Text.startsWith (dir ++ ['/']) path || Text.contains ('/' :: dir ++ ['/']) path
  | ending tail => Text.endsWith tail path
  | name p => path == p || Text.endsWith ('/' :: p) path

end Pattern

/-- Whether a path matches the pattern that a text writes. -/
def matchesPattern (path pattern : String) : Bool := (Pattern.ofText pattern.toList).accepts path.toList

end CodeAtlas
