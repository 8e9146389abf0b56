import CodeAtlas.Text.Segment

/-!
# Paths

* `Path.components`: the parts of a path; empty parts and dots inside a path do not count.
* `Path.relative`: a path as seen from a root, with slashes between its parts.
* `Path.extension?`: what stands after the last dot of a file name.
-/

namespace CodeAtlas.Path

/-- The parts of a path: a slash for the root of an absolute path, then names. A dot counts only at
the very start. -/
def components (path : String) : List String :=
  let cs := path.toList
  let parts := Text.segments cs
  match cs with
  | '/' :: _ => "/" :: (parts.filter fun p => !p.isEmpty && p != ['.']).map String.ofList
  | _ =>
    let head := if parts.head? == some ['.'] then ["."] else []
    head ++ (parts.filter fun p => !p.isEmpty && p != ['.']).map String.ofList

/-- Takes a prefix off a list. -/
def dropPrefix? : List String → List String → Option (List String)
  | [], s => some s
  | _ :: _, [] => none
  | p :: ps, c :: cs => if p = c then dropPrefix? ps cs else none

/-- A path as seen from a root; a path outside the root stays as it is. -/
def relative (root path : String) : String :=
  let parts := components path
  Text.join "/" ((dropPrefix? (components root) parts).getD parts)

def isAbsolute (path : String) : Bool := path.toList.head? == some '/'

/-- The name of the file or directory that a path ends with. -/
def fileName? (path : String) : Option String :=
  match (components path).getLast? with
  | some name => if name = "/" ∨ name = "." ∨ name = ".." then none else some name
  | none => none

/-- What stands after the last dot of a file name; a dot at its start makes no extension. -/
def extension? (path : String) : Option String := do
  let name ← fileName? path
  let (before, after) ← Text.splitLast? (· == '.') name.toList
  if before.isEmpty then none else some (.ofList after)

/-- One path below another; an absolute path stands for itself. -/
def join (root path : String) : String :=
  if isAbsolute path then path
  else if path.isEmpty then root ++ "/"
  else if root.toList.getLast? == some '/' || root.isEmpty then root ++ path
  else root ++ "/" ++ path

end CodeAtlas.Path
