import CodeAtlas.Config.Load
import CodeAtlas.Indexing.Run

/-!
# Indexing a project

* `Indexer`: an open project: its root, its settings, its record.
* `Indexer.openAt`: opens the index of a directory, or makes one.
* `Indexer.indexAll`, `Indexer.indexFile`, `Indexer.removeFile`: a full run, one file, a file that is
  gone.
* `Indexer.update`: brings the index in line with a path that changed.

The index is a file in the root of the project. While it is open, other files lie beside it, and a walk
comes upon them as upon any file.
-/

namespace CodeAtlas

/-- Why a command fails: a message with its causes. -/
structure Trouble where
  message : String
  causes : List String := []
  deriving DecidableEq, Inhabited

/-- The text of a failure with its causes. -/
def Trouble.text (t : Trouble) : String := Text.join ": " (t.message :: t.causes)

/-- An error of the store as a failure. -/
def Trouble.ofStore (e : StoreError) : Trouble := ⟨e.trace, []⟩

/-- An open project. -/
structure Indexer where
  root : String
  config : Config
  project : Project
  extractor : Extractor := .grammars
  deriving Inhabited

/-- What comes of indexing one file. -/
inductive FileOutcome where
  | indexed (path : String) (stats : WriteStats)
  | unchanged (path : String)
  | unsupported (path : String)
  | failed (e : FileError)
  deriving Inhabited

namespace Disk

/-- The settings of the project at a directory. -/
def configAt (d : Disk) (root : String) : Config :=
  .loadOrDefault ((d.read (Path.join root configFile)).toOption.map (·.1))

/-- The index of the project at a directory. -/
def storeAt? (d : Disk) (root : String) : Option Store :=
  match d.find? (Path.join root indexFile) with
  | some (.index store) => some store
  | _ => none

/-- Puts the index of the project at a directory. -/
def putStore (d : Disk) (root : String) (store : Store) : Except DiskError Disk :=
  d.alter (Path.join root indexFile) fun _ => .ok (some (.index store))

/-- The root of a project, without detours. -/
def projectRoot (d : Disk) (directory shown : String) : Except Trouble String :=
  match d.canonical directory with
  | .ok root => .ok root
  | .error e => .error ⟨"Project root not found: " ++ shown, [e.message]⟩

end Disk

/-- Files that lie beside an index while it is open. -/
def indexCompanions : List String := [indexFile ++ "-wal", indexFile ++ "-shm"]

namespace Indexer

/-- The name of a project: the one in its settings, or that of its directory. -/
def projectName (c : Config) (root : String) : String :=
  if c.projectName.isEmpty then (Path.fileName? root).getD "project" else c.projectName

/-- Opens the index of a directory, or makes one; `shown` is the directory as it was given. -/
def openAt (now : Int) (disk : Disk) (directory shown : String) :
    Except Trouble (Indexer × Disk) := do
  let config := disk.configAt directory
  let root ← disk.projectRoot directory shown
  if !(disk.find? root).any Entry.isDirectory then
    throw ⟨"Failed to create directory: " ++ root, [DiskError.message .alreadyExists]⟩
  let store := (disk.storeAt? root).getD .empty
  match store.upsertProject now root (projectName config root) with
  | .error e => throw ⟨"Failed to register project", [e.trace]⟩
  | .ok (project, store) =>
    match disk.putStore root store with
    | .error e => throw ⟨"Failed to create connection pool", [e.message]⟩
    | .ok disk => pure ({ root, config, project }, disk)

/-- The languages that the settings enable. -/
def languages (ix : Indexer) : List Language := Language.named ix.config.enabledLanguages

/-- The store of an open project. -/
def store (ix : Indexer) (disk : Disk) : Store := (disk.storeAt? ix.root).getD .empty

/-- Keeps the store of an open project. -/
def save (ix : Indexer) (disk : Disk) (store : Store) : Disk :=
  (disk.putStore ix.root store).toOption.getD disk

/-- The disk while the index of a project is open. -/
def opened (ix : Indexer) (disk : Disk) : Disk :=
  indexCompanions.foldl (fun disk name =>
    let beside := disk.alter (Path.join ix.root name) fun e => .ok (some (e.getD (.file .empty 0)))
    beside.toOption.getD disk) disk

/-- What is needed to read files of the project. -/
def context (ix : Indexer) (known : List (String × String)) (force : Bool) : ReadContext :=
  { root := ix.root, languages := ix.languages, extractor := ix.extractor, known, force }

/-- Whether the root of the project is a directory. -/
def hasRoot (ix : Indexer) (disk : Disk) : Bool := (disk.find? ix.root).any Entry.isDirectory

/-- What is in the root of the project. -/
def entries (ix : Indexer) (disk : Disk) : List (String × Entry) :=
  match disk.find? ix.root with
  | some (.directory entries) => entries
  | _ => []

/-- The paths of the files that settings admit, in the order in which a walk comes upon them. -/
def walk (ix : Indexer) (disk : Disk) : List String :=
  (walkEntries ix.config "" (ix.entries disk)).map (Path.join ix.root)

/-- A run over the whole project: its report, or why there is none, and the disk after it. A run that is
cancelled at its start reads nothing, and a project whose root is gone cannot be indexed. -/
def run (ix : Indexer) (now : Int) (disk : Disk) (force cancelled : Bool) :
    StoreM IndexReport × Disk :=
  if ix.hasRoot disk then
    let store := ix.store disk
    let ctx := ix.context (store.fileHashes ix.project.id) force
    let shown := ix.opened disk
    let files := if cancelled then [] else ix.walk shown
    let (report, store) :=
      runReadings ⟨now, ix.project.id⟩ cancelled store (files.map (ctx.read shown))
    (report, ix.save disk store)
  else (.error (.vanished ix.project.id), disk)

/-- Indexes the whole project. -/
def indexAll (ix : Indexer) (now : Int) (disk : Disk) (force cancelled : Bool) :
    StoreM (IndexReport × Indexer × Disk) := do
  let (report, disk) := ix.run now disk force cancelled
  let report ← report
  pure (report, { ix with project := report.project.getD ix.project }, disk)

/-- A path below the root, or an absolute path without detours if it means anything. -/
def absolute (ix : Indexer) (disk : Disk) (path : String) : String :=
  if Path.isAbsolute path then (disk.canonical path).toOption.getD path
  else Path.join ix.root path

/-- Reads one file, if settings admit it. -/
def readFile (ix : Indexer) (disk : Disk) (path : String) : StoreM Reading := do
  let path := ix.absolute disk path
  let relativePath := Path.relative ix.root path
  if !ix.config.shouldIndexFile relativePath then pure (.unsupported relativePath)
  else
    let known := (← (ix.store disk).file? ix.project.id relativePath).toList.map fun f =>
      (relativePath, f.hash)
    pure ((ix.context known false).read disk path)

/-- Indexes one file. -/
def indexFile (ix : Indexer) (now : Int) (disk : Disk) (path : String) :
    StoreM (FileOutcome × Disk) := do
  match ← ix.readFile disk path with
  | .unchanged p => pure (.unchanged p, disk)
  | .unsupported p => pure (.unsupported p, disk)
  | .failed e => pure (.failed e, disk)
  | .parsed file outline =>
    let relativePath := file.relativePath
    match (ix.store disk).persist now ix.project.id file outline with
    | .ok (stats, store) =>
      pure (.indexed relativePath stats, ix.save disk (store.resolveLinks ix.project.id).2)
    | .error e =>
      let reason := "Failed to persist " ++ relativePath ++ ": " ++ e.trace
      pure (.failed ⟨.store, relativePath, reason⟩, disk)

/-- Removes a file from the index; says whether it was there. -/
def removeFile (ix : Indexer) (disk : Disk) (path : String) : Bool × Disk :=
  let relativePath := Path.relative ix.root (ix.absolute disk path)
  let (found, store) := (ix.store disk).removeFile ix.project.id relativePath
  (found, ix.save disk store)

/-- Brings the index in line with a path that changed: a file is indexed, and what is gone is
removed. Paths that are not absolute mean nothing here. -/
def update (ix : Indexer) (now : Int) (disk : Disk) (path : String) : StoreM Disk := do
  if Path.isAbsolute path && disk.isFile path then
    let (_, disk) ← ix.indexFile now disk path
    pure disk
  else if Path.isAbsolute path && disk.hasPath path then pure disk
  else pure (ix.removeFile disk path).2

/-- Whether a path may be that of a file in the index. -/
def isCandidate (ix : Indexer) (path : String) : Bool :=
  let relativePath := Path.relative ix.root path
  !relativePath.isEmpty && (Language.detect? ix.languages path).isSome &&
    ix.config.shouldIndexFile relativePath

/-- Brings the index in line with some paths that changed, in their order and each once. A path that
fails is left as it is. -/
def updateAll (ix : Indexer) (now : Int) (disk : Disk) (paths : List String) : Disk :=
  ((sortedTexts paths).filter ix.isCandidate).foldl
    (fun disk path => (ix.update now disk path).toOption.getD disk) disk

end Indexer

end CodeAtlas
