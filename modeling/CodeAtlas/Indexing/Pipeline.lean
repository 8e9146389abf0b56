import CodeAtlas.Indexing.Indexer

/-!
# A full run as its parts take turns

A walk sends paths through a channel to workers. Workers read the files and send what comes of it
through another channel to a collector, which stores it. Both channels are bounded. When the other
parts have ended, the collector removes the files that are gone, brings links in line and counts the
files, one write after the other.

* `Job`: what a run is to do; `Job.candidates`: the paths that the walk comes upon; `Job.Reads`: what
  may come of reading one.
* `Pipeline`: a run under way. `Stage`: how far its end is. `Pipeline.Step`: one step of one part.
* `Pipeline.Reaches`: the states that a job leads to with some workers, in any order of steps.

A run can be cancelled at any time. This is looked at by the walk before it sends a path, by a worker
while it waits for one, and by the collector before it removes files.
-/

namespace CodeAtlas

/-- What a run is to do. -/
structure Job where
  indexer : Indexer
  now : Int
  /-- The disk while the index is open. -/
  disk : Disk
  /-- The store at the start. -/
  store : Store
  force : Bool
  /-- How much a channel holds. -/
  capacity : Nat
  /-- Whether something may fail that the disk and the store do not make fail: reading or storing a
  file, a worker, a write at the end. -/
  faulty : Bool

namespace Job

/-- Where a run writes, and when. -/
def target (j : Job) : RunTarget := ⟨j.now, j.indexer.project.id⟩

/-- What is needed to read files. -/
def context (j : Job) : ReadContext :=
  j.indexer.context (j.store.fileHashes j.indexer.project.id) j.force

/-- What is in the root of the project. -/
def entries (j : Job) : List (String × Entry) := j.indexer.entries j.disk

/-- The paths that a walk comes upon, in order. -/
def candidates (j : Job) : List String := j.indexer.walk j.disk

/-- A path as seen from the root of the project. -/
def relative (j : Job) (path : String) : String := Path.relative j.indexer.root path

/-- What may come of reading a file. -/
inductive Reads (j : Job) (path : String) : Reading → Prop where
  | read : Reads j path (j.context.read j.disk path)
  | fault (h : j.faulty = true) (step : FileStep) (reason : String) :
    Reads j path (.failed ⟨step, j.relative path, reason⟩)

end Job

/-- How far the walk is. -/
inductive WalkStage where
  | going (rest : List String)
  | done
  | failed

/-- What a worker is doing. -/
inductive Worker where
  | idle
  | reading (path : String)
  | sending (path : String) (r : Reading)
  | stopped
  /-- It has ended abnormally, and what it held is lost. -/
  | crashed (held : Option String)

/-- The path that a worker holds, or held when it crashed. -/
def Worker.path? : Worker → Option String
  | reading path => some path
  | sending path _ => some path
  | crashed held => held
  | idle | stopped => none

/-- Whether a worker has not ended yet. -/
def Worker.isActive : Worker → Bool
  | idle | reading _ | sending _ _ => true
  | stopped | crashed _ => false

/-- How far the end of a run is. -/
inductive Stage where
  /-- Readings are taken up. -/
  | collecting
  /-- The other parts have ended, and the run was not cancelled. -/
  | checked
  | pruned
  | linked
  | counted
  deriving DecidableEq

inductive Ending where
  | failed
  | finished (report : IndexReport)

/-- How a run ends whose files are counted. -/
def Ending.ofReport : StoreM IndexReport → Ending
  | .ok report => .finished report
  | .error _ => .failed

/-- A file that the store refused: it is reported and keeps its rows. -/
def Collector.refuse (c : Collector) (path reason : String) : Collector :=
  { c.see path with
    report := { c.report with
      filesSeen := c.report.filesSeen + 1
      errors := c.report.errors ++ [⟨.store, path, reason⟩] } }

/-- A run under way. -/
structure Pipeline where
  walk : WalkStage
  /-- The paths that the walk has sent. -/
  sent : List String := []
  paths : List String := []
  workers : List Worker
  readings : List (String × Reading) := []
  /-- What has arrived at the collector. -/
  taken : List (String × Reading) := []
  collector : Collector
  cancelled : Bool := false
  stage : Stage := .collecting
  ending : Option Ending := none

namespace Pipeline

/-- A run at its start. Without a root it ends there. -/
def start (j : Job) (workers : Nat) : Pipeline where
  walk := .going j.candidates
  workers := List.replicate workers .idle
  collector := { store := j.store }
  ending := if j.indexer.hasRoot j.disk then none else some .failed

/-- The store of a run. -/
def store (q : Pipeline) : Store := q.collector.store

/-- All workers have ended. -/
def Deserted (q : Pipeline) : Prop := ∀ w ∈ q.workers, w.isActive = false

/-- All workers have crashed. -/
def Lost (q : Pipeline) : Prop := ∀ w ∈ q.workers, ∃ held, w = .crashed held

/-- No worker has crashed. -/
def Manned (q : Pipeline) : Prop := ∀ held, .crashed held ∉ q.workers

/-- The walk is over. -/
def Walked (q : Pipeline) : Prop := ∀ rest, q.walk ≠ .going rest

/-- All parts before the collector have ended, and it has taken up what they sent. -/
structure Drained (q : Pipeline) : Prop where
  stage : q.stage = .collecting
  readings : q.readings = []
  deserted : q.Deserted

/-- **One step of one part.** -/
inductive Step (j : Job) (q : Pipeline) : Pipeline → Prop where
  | cancel : Step j q { q with cancelled := true }
  | send {path : String} {rest : List String} (hw : q.walk = .going (path :: rest))
      (hc : q.paths.length < j.capacity) :
    Step j q { q with walk := .going rest, sent := q.sent ++ [path], paths := q.paths ++ [path] }
  /-- The walk ends when nothing is left, or when nobody wants more. -/
  | endWalk {rest : List String} (hw : q.walk = .going rest)
      (h : rest = [] ∨ q.cancelled = true ∨ q.Deserted) : Step j q { q with walk := .done }
  | failWalk {rest : List String} (hw : q.walk = .going rest) : Step j q { q with walk := .failed }
  | receive {path : String} {rest : List String} {l r : List Worker}
      (hw : q.workers = l ++ .idle :: r) (hp : q.paths = path :: rest) :
    Step j q { q with workers := l ++ .reading path :: r, paths := rest }
  | read {path : String} {x : Reading} {l r : List Worker}
      (hw : q.workers = l ++ .reading path :: r) (hx : j.Reads path x) :
    Step j q { q with workers := l ++ .sending path x :: r }
  | deliver {path : String} {x : Reading} {l r : List Worker}
      (hw : q.workers = l ++ .sending path x :: r) (hc : q.readings.length < j.capacity) :
    Step j q { q with workers := l ++ .idle :: r, readings := q.readings ++ [(path, x)] }
  /-- A worker stops when the run is cancelled, or when no path is left and none will come. -/
  | stop {l r : List Worker} (hw : q.workers = l ++ .idle :: r)
      (h : q.cancelled = true ∨ q.paths = [] ∧ q.Walked) :
    Step j q { q with workers := l ++ .stopped :: r }
  /-- A worker ends abnormally. Nobody is told which path it held. -/
  | crash {w : Worker} {l r : List Worker} (hf : j.faulty = true) (hw : q.workers = l ++ w :: r)
      (ha : w.isActive = true) : Step j q { q with workers := l ++ .crashed w.path? :: r }
  | take {path : String} {x : Reading} {rest : List (String × Reading)}
      (hr : q.readings = (path, x) :: rest) :
    Step j q { q with
      readings := rest, taken := q.taken ++ [(path, x)], collector := q.collector.take j.target x }
  /-- The store refuses a file. -/
  | refuse {path : String} {file : SourceFile} {outline : Outline} {rest : List (String × Reading)}
      (hf : j.faulty = true) (hr : q.readings = (path, .parsed file outline) :: rest)
      (reason : String) :
    Step j q { q with
      readings := rest, taken := q.taken ++ [(path, .parsed file outline)]
      collector := q.collector.refuse file.relativePath reason }
  /-- The store closes while a file is stored. -/
  | close {path : String} {file : SourceFile} {outline : Outline} {rest : List (String × Reading)}
      (hf : j.faulty = true) (hr : q.readings = (path, .parsed file outline) :: rest) :
    Step j q { q with ending := some .failed }
  /-- The walk has failed, and with it the run. -/
  | abandon (hd : q.Drained) (hw : q.walk = .failed) : Step j q { q with ending := some .failed }
  /-- The run was cancelled. -/
  | desist (hd : q.Drained) (hw : q.walk = .done) (hc : q.cancelled = true) :
    Step j q { q with
      ending := some (.finished { q.collector.report with cancelled := true }) }
  | check (hd : q.Drained) (hw : q.walk = .done) (hc : q.cancelled = false) :
    Step j q { q with stage := .checked }
  | prune (hs : q.stage = .checked) :
    Step j q { q with stage := .pruned, collector := q.collector.prune j.target }
  | link (hs : q.stage = .pruned) :
    Step j q { q with stage := .linked, collector := q.collector.link j.target }
  | count (hs : q.stage = .linked) :
    Step j q { q with stage := .counted, collector := q.collector.stamp j.target }
  | conclude (hs : q.stage = .counted) :
    Step j q { q with ending := some (.ofReport (q.collector.conclude j.target)) }
  /-- A write at the end fails, or its answer is lost. What was written before stays. -/
  | fail (hf : j.faulty = true) (hs : q.stage ≠ .collecting) :
    Step j q { q with ending := some .failed }

/-- **The states that a job leads to**, with some number of workers and any order of steps. -/
inductive Reaches (j : Job) (workers : Nat) : Pipeline → Prop where
  | start : Reaches j workers (start j workers)
  | step {q r : Pipeline} (h : Reaches j workers q) (ho : q.ending = none) (hs : Step j q r) :
    Reaches j workers r

end Pipeline

end CodeAtlas
