import CodeAtlas.Indexing.Reading
import CodeAtlas.Store.Write

/-!
# A full run over a project

* `IndexReport`: what a run did.
* `Collector`: takes up one reading after the other and stores what was parsed.
* `Collector.prune`, `Collector.link`, `Collector.stamp`, `Collector.conclude`: the end of a run removes
  files that are gone, brings links in line, counts the files and gives the project back. Each is kept
  when the next one fails.
* `Collector.finish`: all of it, unless the run was cancelled.

The order in which readings arrive shows in ids only.
-/

namespace CodeAtlas

/-- What a run did. -/
structure IndexReport where
  filesSeen : Nat := 0
  filesIndexed : Nat := 0
  filesUnchanged : Nat := 0
  filesSkipped : Nat := 0
  filesRemoved : Nat := 0
  linksResolved : Nat := 0
  errors : List FileError := []
  stats : WriteStats := {}
  cancelled : Bool := false
  elapsedMs : Nat := 0
  /-- The project after the run; a run that was cancelled has none. -/
  project : Option Project := none
  deriving Inhabited

/-- Where a run writes, and when. -/
structure RunTarget where
  now : Int
  project : Int

/-- A run under way: the store, the paths of files that are still there, and the report so far. -/
structure Collector where
  store : Store
  keep : List String := []
  report : IndexReport := {}
  deriving Inhabited

namespace Collector

/-- A file that was looked at. -/
def see (c : Collector) (path : String) : Collector := { c with keep := path :: c.keep }

/-- Stores a file that was parsed. One that cannot be stored is reported and keeps its rows. -/
def persist (c : Collector) (t : RunTarget) (file : SourceFile) (outline : Outline) : Collector :=
  match c.store.persist t.now t.project file outline with
  | .ok (stats, store) =>
    { c with
      store
      report := { c.report with
        filesIndexed := c.report.filesIndexed + 1
        stats := c.report.stats.merge stats } }
  | .error e =>
    let reason := "Failed to persist " ++ file.relativePath ++ ": " ++ e.trace
    { c with
      report := { c.report with
        errors := c.report.errors ++ [⟨.store, file.relativePath, reason⟩] } }

def take (t : RunTarget) (c : Collector) (r : Reading) : Collector :=
  let c := { c with report := { c.report with filesSeen := c.report.filesSeen + 1 } }
  match r with
  | .parsed file outline => (c.see file.relativePath).persist t file outline
  | .unchanged path =>
    { c.see path with
      report := { c.report with filesUnchanged := c.report.filesUnchanged + 1 } }
  | .unsupported _ =>
    { c with report := { c.report with filesSkipped := c.report.filesSkipped + 1 } }
  | .failed e => { c.see e.path with report := { c.report with errors := c.report.errors ++ [e] } }

/-- Removes the files that are gone. -/
def prune (t : RunTarget) (c : Collector) : Collector :=
  let (removed, store) := c.store.prune t.project c.keep
  { c with store, report := { c.report with filesRemoved := removed } }

/-- Brings the links in line with what is left. -/
def link (t : RunTarget) (c : Collector) : Collector :=
  let (resolved, store) := c.store.resolveLinks t.project
  { c with store, report := { c.report with linksResolved := resolved } }

/-- Counts the files of the project and records the time. -/
def stamp (t : RunTarget) (c : Collector) : Collector :=
  { c with store := c.store.stamp t.now t.project }

/-- Gives the project back. -/
def conclude (t : RunTarget) (c : Collector) : StoreM IndexReport := do
  pure { c.report with project := some (← c.store.stamped t.project) }

/-- The end of a run: its report, or why there is none, and what is then stored. -/
def finish (t : RunTarget) (cancelled : Bool) (c : Collector) : StoreM IndexReport × Store :=
  if cancelled then (.ok { c.report with cancelled := true }, c.store)
  else
    let c := ((c.prune t).link t).stamp t
    (c.conclude t, c.store)

end Collector

/-- A run over some readings. -/
def runReadings (t : RunTarget) (cancelled : Bool) (store : Store) (readings : List Reading) :
    StoreM IndexReport × Store :=
  (readings.foldl (Collector.take t) { store }).finish t cancelled

end CodeAtlas
