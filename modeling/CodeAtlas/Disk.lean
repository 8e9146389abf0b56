import CodeAtlas.Config.Basic
import CodeAtlas.Path
import CodeAtlas.Store.Basic

/-!
# Directories and files

* `Entry`: a file, one that cannot be read, the index of a project, a directory, or something special.
* `Disk`: all directories and files, with `Disk.locate` (what a path means, step by step),
  `Disk.read`, `Disk.write`, `Disk.makeDirectory` and `Disk.remove`.
* `walkEntries`: the files below a directory that settings admit; excluded directories are not
  entered.
-/

namespace CodeAtlas

/-- What a name in a directory stands for. Names are texts: a name that is not well-formed text does
not come up. -/
inductive Entry where
  | file (content : ByteArray) (modified : Int)
  /-- A file that nobody may read. -/
  | locked
  | index (store : Store)
  | directory (entries : List (String × Entry))
  /-- Neither a file nor a directory: a socket. -/
  | special
  deriving Inhabited

/-- Why a path cannot be used. -/
inductive DiskError where
  | notFound
  | notDirectory
  | isDirectory
  | alreadyExists
  | noDevice
  | denied
  deriving DecidableEq, Inhabited, Repr

def DiskError.message : DiskError → String
  | notFound => "No such file or directory (os error 2)"
  | notDirectory => "Not a directory (os error 20)"
  | isDirectory => "Is a directory (os error 21)"
  | alreadyExists => "File exists (os error 17)"
  | noDevice => "No such device or address (os error 6)"
  | denied => "Permission denied (os error 13)"

namespace Entry

/-- The entry below another at the end of some names. -/
def get? : Entry → List String → Option Entry
  | e, [] => some e
  | .directory entries, name :: rest =>
    match entries.lookup name with
    | some e => e.get? rest
    | none => none
  | _, _ :: _ => none

def isDirectory : Entry → Bool
  | .directory _ => true
  | _ => false

/-- Whether an entry has content of its own. -/
def isFile : Entry → Bool
  | .file .. | .locked | .index .. => true
  | .directory _ | .special => false

/-- Puts an entry at its place among others, which are in the order of their names; `none` takes it
away. -/
def setEntry (name : String) (e : Option Entry) : List (String × Entry) → List (String × Entry)
  | [] => (e.map fun e => (name, e)).toList
  | (other, old) :: rest =>
    if name = other then (e.map fun e => (name, e)).toList ++ rest
    else if name < other then (e.map fun e => (name, e)).toList ++ (other, old) :: rest
    else (other, old) :: setEntry name e rest

/-- Changes the entry at the end of some names; directories on the way are made. -/
def alter (change : Option Entry → Except DiskError (Option Entry)) :
    List String → Option Entry → Except DiskError (Option Entry)
  | [], e => change e
  | name :: rest, e => do
    let entries ← match e with
      | none => pure []
      | some (.directory entries) => pure entries
      | some _ => throw .notDirectory
    let e ← alter change rest (entries.lookup name)
    pure (some (.directory (setEntry name e entries)))

end Entry

/-- All directories and files below the root of the file system. -/
structure Disk where
  top : Entry := .directory []
  deriving Inhabited

namespace Disk

/-- The entry at the end of some names. -/
def entry? (d : Disk) (names : List String) : Option Entry := d.top.get? names

/-- One step of a path from a directory. -/
def step (d : Disk) (names : List String) (segment : String) : Except DiskError (List String) :=
  match d.entry? names with
  | some (.directory entries) =>
    if segment = "" ∨ segment = "." then .ok names
    else if segment = ".." then .ok names.dropLast
    else if (entries.lookup segment).isSome then .ok (names ++ [segment])
    else .error .notFound
  | some _ => .error .notDirectory
  | none => .error .notFound

/-- The names that lead to what an absolute path means. -/
def locate (d : Disk) (path : String) : Except DiskError (List String) :=
  ((Text.segments path.toList).map String.ofList).foldlM d.step []

/-- The path made of some names from the root of the file system on. -/
def pathOf (names : List String) : String := "/" ++ Text.join "/" names

/-- The absolute path without detours. -/
def canonical (d : Disk) (path : String) : Except DiskError String := do
  pure (pathOf (← d.locate path))

/-- What a path means. -/
def find? (d : Disk) (path : String) : Option Entry :=
  match d.locate path with
  | .ok names => d.entry? names
  | .error _ => none

/-- Whether a path means anything. -/
def hasPath (d : Disk) (path : String) : Bool := (d.find? path).isSome

/-- Whether a path means a file. -/
def isFile (d : Disk) (path : String) : Bool := (d.find? path).any Entry.isFile

/-- The content of a file and the time it was changed. -/
def read (d : Disk) (path : String) : Except DiskError (ByteArray × Int) := do
  match d.entry? (← d.locate path) with
  | some (.file content modified) => pure (content, modified)
  | some .locked => throw .denied
  | some (.index _) => pure (.empty, 0)
  | some (.directory _) => throw .isDirectory
  | some .special => throw .noDevice
  | none => throw .notFound

/-- The names of an absolute path, where two dots take back the name before them. -/
def plainNames (path : String) : List String :=
  ((Path.components path).filter fun c => c != "/" && c != ".").foldl
    (fun names c => if c == ".." then names.dropLast else names ++ [c]) []

/-- Changes what is at a path; directories on the way are made. -/
def alter (d : Disk) (path : String) (change : Option Entry → Except DiskError (Option Entry)) :
    Except DiskError Disk := do
  match ← Entry.alter change (plainNames path) (some d.top) with
  | some top => pure ⟨top⟩
  | none => throw .isDirectory

def write (d : Disk) (path : String) (content : ByteArray) (modified : Int) :
    Except DiskError Disk :=
  d.alter path fun
    | some (.directory _) => .error .isDirectory
    | some .special => .error .noDevice
    | some .locked => .error .denied
    | _ => .ok (some (.file content modified))

/-- Makes a directory, if it is not there. -/
def makeDirectory (d : Disk) (path : String) : Except DiskError Disk :=
  d.alter path fun
    | none => .ok (some (.directory []))
    | some (.directory entries) => .ok (some (.directory entries))
    | some _ => .error .alreadyExists

/-- Removes a file, or a directory with all that is in it. -/
def remove (d : Disk) (path : String) : Except DiskError Disk := do
  let names ← d.locate path
  d.alter (pathOf names) fun
    | none => .error .notFound
    | some _ => .ok none

end Disk

/-! ## Walking -/

mutual

/-- The files at and below an entry that settings admit. -/
def walkEntry (c : Config) (path : String) : Entry → List String
  | .directory entries => if c.isExcludedDir path then [] else walkEntries c (path ++ "/") entries
  | .file .. | .locked | .index .. => if c.shouldIndexFile path then [path] else []
  | .special => []

/-- The files in and below a directory that settings admit; `base` stands in front of their names. -/
def walkEntries (c : Config) (base : String) : List (String × Entry) → List String
  | [] => []
  | (name, e) :: rest => walkEntry c (base ++ name) e ++ walkEntries c base rest

end

mutual

/-- All files at and below an entry. -/
def allFiles (path : String) : Entry → List String
  | .directory entries => allFilesIn (path ++ "/") entries
  | .file .. | .locked | .index .. => [path]
  | .special => []

/-- All files in and below a directory; `base` stands in front of their names. -/
def allFilesIn (base : String) : List (String × Entry) → List String
  | [] => []
  | (name, e) :: rest => allFiles (base ++ name) e ++ allFilesIn base rest

end

end CodeAtlas
