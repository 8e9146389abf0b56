import CodeAtlas.Edge
import CodeAtlas.Text.Segment

/-!
# Import paths

* `ImportPath.normalize`: an import path as segments between slashes; leading dots are anchored at
  the directory of the importer.
* `ImportPath.fileMatches`: whether a file may be what such a path means.
* `ImportPath.resolve`: the files that an import means. Where no file matches, the last segments are
  dropped one after the other.
-/

namespace CodeAtlas.ImportPath

/-- Removes a text from the front where it stands there. -/
def dropStart (p s : List Char) : List Char := (Text.stripStart? p s).getD s

/-- A path with slashes in the place of dots and colons, without slashes at its ends and without the
words for the own crate, the own module and the one above. -/
def modulePath (path : List Char) : List Char :=
  let slashed := Text.replace ".".toList "/".toList (Text.replace "::".toList "/".toList path)
  let bare := Text.dropTail (· == '/') (slashed.dropWhile (· == '/'))
  ["crate/", "self/", "super/"].foldl (fun m p => dropStart p.toList m) bare

/-- Segments with slashes between them. -/
def joinSegments (segments : List (List Char)) : List Char := List.intercalate ['/'] segments

/-- The directory of an importer that `dots` leading dots name: one dot is its own directory, and
each further dot goes up by one. -/
def anchor? (importer : List Char) (dots : Nat) : Option (List Char) :=
  let base := (Text.segments importer).dropLast
  if dots - 1 ≤ base.length then some (joinSegments (base.take (base.length - (dots - 1))))
  else none

/-- The path that an import means, from the root of the project or from anywhere. -/
def normalize (path importer : List Char) : Option (List Char) := do
  let dots := (path.takeWhile (· == '.')).length
  let module := modulePath (path.drop dots)
  let full ←
    if dots == 0 then some module
    else do
      let base ← anchor? importer dots
      if module.isEmpty then some base
      else if base.isEmpty then some module
      else some (base ++ '/' :: module)
  if full.isEmpty then none else some full

/-- Whether a path ends with another at a slash: `a/b/c` ends with `b/c`, but `a/xb/c` does not. -/
def endsAtSlash (path suffix : List Char) : Bool :=
  path == suffix ||
    match Text.stripEnd? suffix path with
    | some head => Text.endsWith ['/'] head
    | none => false

/-- A path without its extension. -/
def stem (file : List Char) : List Char :=
  match Text.splitLast? (· == '.') file with
  | some (stem, extension) =>
    if !extension.contains '/' && !Text.endsWith ['/'] stem then stem else file
  | none => file

/-- The module of a file. The entry file of a package stands for its directory. -/
def moduleOf (file : List Char) : List Char :=
  let stem := stem file
  (["/mod", "/__init__", "/index"].findSome? fun e => Text.stripEnd? e.toList stem).getD stem

def directoryOf (file : List Char) : List Char :=
  match Text.splitLast? (· == '/') file with
  | some (directory, _) => directory
  | none => []

/-- Whether a file may be what a path means: its module or its directory ends with the path, or the
path ends with its directory. -/
def fileMatches (file path : List Char) : Bool :=
  let directory := directoryOf file
  endsAtSlash (moduleOf file) path ||
    (!directory.isEmpty && (endsAtSlash directory path || endsAtSlash path directory))

/-- The files that match the longest front of some segments that any file matches. -/
def longestMatch (importer : String) (files : List String) : Nat → List (List Char) → List String
  | 0, _ => []
  | n + 1, segments =>
    let path := joinSegments (segments.take (n + 1))
    let found := files.filter fun f => f != importer && fileMatches f.toList path
    if found.isEmpty then longestMatch importer files n segments else found

/-- The files that an import means. -/
def resolve (path importer : String) (files : List String) : List String :=
  match normalize path.toList importer.toList with
  | none => []
  | some full =>
    let segments := (Text.segments full).filter (!·.isEmpty)
    longestMatch importer files segments.length segments

end CodeAtlas.ImportPath
