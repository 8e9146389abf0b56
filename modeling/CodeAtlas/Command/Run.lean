import CodeAtlas.Command.Basic
import CodeAtlas.Wire.Snapshot

/-!
# Running commands

* `Environment`: the time, the current directory and the number of processors.
* `Invocation.run`: the answer of a command, and the disk after it. Only `index` and `watch` change
  the disk.
-/

namespace CodeAtlas

/-- What a command takes from its surroundings. -/
structure Environment where
  now : Int := 0
  directory : String := "/"
  processors : Nat := 4
  deriving DecidableEq, Inhabited

/-- The index of a project that was indexed before. -/
structure OpenIndex where
  store : Store
  project : Project
  config : Config
  deriving Inhabited

/-- The number of workers of a run: the one in the settings, or one a processor, up to eight. -/
def Config.workerCount (c : Config) (processors : Nat) : Nat :=
  if c.workers > 0 then c.workers else min processors 8

/-- Opens the index of a project that was indexed before. -/
def openIndex (env : Environment) (disk : Disk) (project : String) : Except Trouble OpenIndex := do
  let root ← disk.projectRoot (Path.join env.directory project) project
  let indexPath := Path.join root indexFile
  match disk.storeAt? root with
  | none =>
    throw ⟨"No index at " ++ indexPath ++ "; run `symgraph index -p " ++ project ++ "` first", []⟩
  | some store =>
    match store.projectAt? root with
    | .error e => throw (.ofStore e)
    | .ok none => throw ⟨"Project " ++ root ++ " is not registered in its index", []⟩
    | .ok (some record) => pure { store, project := record, config := disk.configAt root }

/-- A read of the store as part of a command. -/
def reading {α : Type} : StoreM α → Except Trouble α
  | .ok a => .ok a
  | .error e => .error (.ofStore e)

/-- A question about a symbol as part of a command. -/
def asking {α : Type} : LookupM α → Except Trouble α
  | .ok a => .ok a
  | .error e => .error ⟨e.trace, []⟩

namespace OpenIndex

/-- The answers of a lookup, by the name of its type. -/
def query (ix : OpenIndex) (queryType target : String) (kind : Option String) (limit : Nat) :
    Except Trouble (List Hit) := do
  let kind ← match kind with
    | none => pure none
    | some name =>
      match SymbolKind.ofLabel? name with
      | some k => pure (some k)
      | none => throw ⟨"Unknown symbol kind: " ++ name, []⟩
  match queryType with
  | "callers" => reading (ix.store.callersOf target)
  | "callees" => reading (ix.store.calleesOf target)
  | "references" => reading (ix.store.usesOf target)
  | "dependencies" | "deps" => reading (ix.store.dependencyHits target)
  | "search" => reading (ix.store.search target kind limit)
  | _ =>
    throw ⟨"Unknown query type: " ++ queryType ++
      " (expected callers, callees, references, dependencies or search)", []⟩

/-- The change that a type of change and its operand stand for. -/
def changeOf (ix : OpenIndex) (changeType target : String) (newName : Option String) :
    Except Trouble SymbolChange := do
  match changeType, newName with
  | "rename", some newName => pure ⟨target, .rename newName⟩
  | "rename", none => throw ⟨"--to <NEW_NAME> is required for rename", []⟩
  | "delete", _ => pure ⟨target, .delete⟩
  | "modify", some signature =>
    match ← reading (ix.store.symbolsNamed target) with
    | [] => throw ⟨"symbol not found: " ++ target, []⟩
    | declaration :: _ =>
      pure ⟨target, .modify { declaration with signature := some signature }⟩
  | "modify", none => throw ⟨"--to <SIGNATURE> is required for modify", []⟩
  | _, _ =>
    throw ⟨"Unknown change type: " ++ changeType ++ " (expected rename, delete or modify)", []⟩

/-- The sizes and counts of an index. -/
def stats (ix : OpenIndex) : StoreM IndexStats := do
  pure
    { project := ix.project
      summary := ix.store.summary
      indexBytes := ix.store.snapshot.utf8ByteSize
      symbolsByKind := ← ix.store.groupCounts "symbols" "kind"
      filesByLanguage := ← ix.store.groupCounts "files" "language"
      relationshipsByType := ← ix.store.groupCounts "relationships" "type" }

/-- The answer of a command that only reads. -/
def answer (ix : OpenIndex) : Command → Except Trouble Answer
  | .query queryType target kind limit => do
    pure (.hits queryType target (← ix.query queryType target kind limit))
  | .deps symbol depth => do
    let graph ← asking (ix.store.dependencyGraph symbol (depth.getD (max ix.config.maxDepth 1)))
    let chain ← reading (ix.store.dependencyChain symbol)
    pure (.dependencies symbol graph chain)
  | .impact changeType target newName => do
    let change ← ix.changeOf changeType target newName
    pure (.change (← asking (ix.store.changeReport (max ix.config.impactDepth 1) change)))
  | .analyze => do
    pure (.audit ix.project.name (← reading (ix.store.audit .bySegments ix.project.id)))
  | .stats detailed => do pure (.stats (← reading ix.stats) detailed)
  | .languages | .index .. | .watch => pure .languages

end OpenIndex

def runIndex (env : Environment) (disk : Disk) (project : String) (rebuild : Bool)
    (workers : Option Nat) : Except Trouble (Answer × Disk) := do
  let (ix, disk) ← Indexer.openAt env.now disk (Path.join env.directory project) project
  let workers := match workers with
    | some n => max n 1
    | none => ix.config.workerCount env.processors
  let (report, ix, disk) ← reading (ix.indexAll env.now disk rebuild false)
  pure (.indexed ix.root ix.config.enabledLanguages workers rebuild report, disk)

/-- The answer of a command, and the disk after it. -/
def Invocation.run (inv : Invocation) (env : Environment) (disk : Disk) :
    Except Trouble (Answer × Disk) := do
  match inv.command with
  | .languages => pure (.languages, disk)
  | .index rebuild workers _ => runIndex env disk inv.project rebuild workers
  | .watch => do
    let (ix, disk) ← Indexer.openAt env.now disk (Path.join env.directory inv.project) inv.project
    pure (.watching ix.root, disk)
  | command => do
    let ix ← openIndex env disk inv.project
    pure (← ix.answer command, disk)

end CodeAtlas
