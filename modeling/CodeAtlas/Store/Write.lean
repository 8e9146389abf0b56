import CodeAtlas.Store.Read
import CodeAtlas.Store.Reconcile

/-!
# Writing the store

* `Store.upsertProject`, `Store.persist`, `Store.removeFile`, `Store.prune`, `Store.resolveLinks`,
  `Store.refresh`, `Store.setWorkflow`: the writes. A write that fails leaves the store as it was.
* `Write`, `Store.apply`: the writes as data, and the state after one.

A link is resolved to the first declaration of its name in its own file, or else to the only symbol
of that name in the project.
-/

namespace CodeAtlas

/-- The files that carry an id that is gone take their rows with them; links to symbols that are gone
are cleared. -/
def Store.dropSymbols (s : Store) (gone : SymbolRow → Bool) : Store :=
  let ids := (s.symbols.filter gone).map (·.id)
  let clear (link : Option Int) : Option Int := link.filter fun i => !ids.contains i
  { s with
    symbols := s.symbols.filter fun r => !gone r
    relationships := s.relationships.map fun r =>
      { r with sourceId := clear r.sourceId, targetId := clear r.targetId }
    references := s.references.map fun r =>
      { r with sourceId := clear r.sourceId, targetId := clear r.targetId } }

namespace Store

/-- Inserts a project, or renames the one at its path. Either way an id is used up. -/
def upsertProject (s : Store) (now : Int) (path name : String) : StoreM (Project × Store) := do
  let id := s.last.projects + 1
  let projects :=
    if s.projects.any (·.path == path) then
      s.projects.map fun r => if r.path == path then { r with name } else r
    else
      s.projects ++ [{ id, path, name, languageStats := [], createdAt := now, lastIndexed := none }]
  let s := { s with projects, last := { s.last with projects := id } }
  match ← s.projectAt? path with
  | some p => pure (p, s)
  | none => .error (.unreadable 0 "id")

/-- The row that a source file takes when it is stored. -/
def fileRow (now project id : Int) (f : SourceFile) : FileRow :=
  { toFile := { toSourceFile := f, id, projectId := project, lastIndexed := now } }

/-- Inserts a file, or rewrites the one at its path. Either way an id is used up. The first part of
the answer is the id of the file's row. -/
def upsertFile (s : Store) (now project : Int) (f : SourceFile) : StoreM (Int × Store) := do
  if !s.projects.any (·.id == project) then throw .missingOwner
  let fresh := s.last.files + 1
  let isIt (r : FileRow) : Bool := r.projectId == project && r.relativePath == f.relativePath
  let last := { s.last with files := fresh }
  match s.files.find? isIt with
  | some old =>
    let files := s.files.map fun r => if isIt r then fileRow now project r.id f else r
    pure (old.id, { s with files, last })
  | none => pure (fresh, { s with files := s.files ++ [fileRow now project fresh f], last })

/-- The stored rows of a file in the order in which they are matched. -/
def rowsOfFile (s : Store) (fileId : Int) : List SymbolRow :=
  sortBy (fun a b => signed a.range.startLine ≤ signed b.range.startLine)
    (s.symbols.filter (·.fileId == fileId))

/-- The ids of a project's symbols with a name. -/
def idsNamed (s : Store) (project : Int) (name : String) : List Int :=
  (s.symbols.filter fun r => r.name == name && s.ownsFile project r.fileId).map (·.id)

/-- The id of a project's only symbol with a name. -/
def uniqueId? (s : Store) (project : Int) (name : String) : Option Int :=
  match s.idsNamed project name with
  | [id] => some id
  | _ => none

/-- Numbers elements from the one after `last` on. -/
def numbered {α β : Type} (f : Int → α → β) : Int → List α → List β
  | _, [] => []
  | last, a :: as => f (last + 1) a :: numbered f (last + 1) as

/-- The links that a name may be resolved to: the first declaration in the file, or else the only
symbol of the project. -/
def resolve (s : Store) (project : Int) (r : Reconciled) (name : String) : Option Int :=
  match r.localId? name with
  | some id => some id
  | none => s.uniqueId? project name

/-- Puts the symbols of a file in the place of those it had. -/
def replaceSymbols (s : Store) (fileId : Int) (r : Reconciled) : Store :=
  let gone := r.removed.map (·.id)
  let s := s.dropSymbols fun row => row.fileId == fileId && gone.contains row.id
  let symbols := s.symbols.map fun row =>
    if row.fileId == fileId then ((r.rows.find? (·.2.id == row.id)).map (·.2)).getD row else row
  let fresh := (r.rows.filter (·.1 == .inserted)).map (·.2)
  { s with symbols := symbols ++ fresh, last := { s.last with symbols := r.last } }

/-- Puts the imports and links of a file in the place of those it had. -/
def replaceLinks (s : Store) (project fileId : Int) (path : String) (r : Reconciled)
    (o : Outline) : Store :=
  let imports := numbered (fun id (i : ImportClause) =>
    ({ toImport := { toImportClause := i, id, filePath := path }, fileId } : ImportRow))
    s.last.imports o.imports
  let relationships := numbered (fun id (e : Edge) =>
    ({ toRelationship :=
        { toEdge := e, id, sourceId := s.resolve project r e.source
          targetId := s.resolve project r e.target, filePath := path }, fileId } :
      RelationshipRow)) s.last.relationships o.edges
  let references := numbered (fun id (u : Use) =>
    ({ toReference :=
        { id, sourceId := u.source.bind r.localId?, target := u.target
          targetId := s.resolve project r u.target, qualifier := u.qualifier, kind := u.kind
          filePath := path, line := u.line, column := u.column }, fileId } :
      ReferenceRow)) s.last.references o.uses
  { s with
    imports := s.imports.filter (·.fileId != fileId) ++ imports
    relationships := s.relationships.filter (·.fileId != fileId) ++ relationships
    references := s.references.filter (·.fileId != fileId) ++ references
    last := { s.last with
      imports := s.last.imports + o.imports.length
      relationships := s.last.relationships + o.edges.length
      references := s.last.references + o.uses.length } }

/-- Stores a file with its outline. -/
def persist (s : Store) (now project : Int) (f : SourceFile) (o : Outline) :
    StoreM (WriteStats × Store) := do
  let (fileId, s) ← s.upsertFile now project f
  let stored := s.rowsOfFile fileId
  stored.forM fun r => checkFlaws (rangeColumns 4) r.flaws
  let r := reconcile fileId s.last.symbols stored o.symbols
  let s := (s.replaceSymbols fileId r).replaceLinks project fileId f.relativePath r o
  let stats : WriteStats :=
    { filesWritten := 1
      symbolsInserted := r.count .inserted
      symbolsUpdated := r.count .updated
      symbolsUnchanged := r.count .kept
      symbolsMoved := r.count .moved
      symbolsRemoved := r.removed.length
      importsWritten := o.imports.length
      relationshipsWritten := o.edges.length
      referencesWritten := o.uses.length }
  pure (stats, s)

/-- Removes files with all that they own. -/
def dropFiles (s : Store) (gone : FileRow → Bool) : Store :=
  let ids := (s.files.filter gone).map (·.id)
  let s := s.dropSymbols fun r => ids.contains r.fileId
  { s with
    files := s.files.filter fun f => !gone f
    imports := s.imports.filter fun r => !ids.contains r.fileId
    relationships := s.relationships.filter fun r => !ids.contains r.fileId
    references := s.references.filter fun r => !ids.contains r.fileId }

/-- Removes the file of a project at a path; says whether there was one. -/
def removeFile (s : Store) (project : Int) (path : String) : Bool × Store :=
  let isIt (f : FileRow) : Bool := f.projectId == project && f.relativePath == path
  (s.files.any isIt, s.dropFiles isIt)

/-- Removes the files of a project whose paths are not to be kept; says how many there were. -/
def prune (s : Store) (project : Int) (keep : List String) : Nat × Store :=
  let stale (f : FileRow) : Bool := f.projectId == project && !keep.contains f.relativePath
  ((s.files.filter stale).length, s.dropFiles stale)

/-- The file that a symbol belongs to. -/
def fileOfSymbol? (s : Store) (id : Int) : Option Int :=
  (s.symbols.find? (·.id == id)).map (·.fileId)

/-- Brings one link of a file in line with the symbols: a link into another file is cleared where its
name is not unique, and a link that is missing is set where its name is. -/
def relink (s : Store) (project fileId : Int) (name : String) (link : Option Int) : Option Int :=
  let kept := link.filter fun id =>
    s.fileOfSymbol? id == some fileId || (s.idsNamed project name).length ≤ 1
  kept.or (s.uniqueId? project name)

/-- Whether a link was missing, or was cleared, and is now set. -/
def wasFilled (s : Store) (project fileId : Int) (name : String) (link : Option Int) : Bool :=
  let kept := link.filter fun id =>
    s.fileOfSymbol? id == some fileId || (s.idsNamed project name).length ≤ 1
  kept.isNone && (s.uniqueId? project name).isSome

/-- Brings the links of a project in line with its symbols; says how many were filled in. -/
def resolveLinks (s : Store) (project : Int) : Nat × Store :=
  let owned := s.ownsFile project
  let fills (fileId : Int) (name : String) (link : Option Int) : Bool :=
    owned fileId && s.wasFilled project fileId name link
  let filled :=
    s.references.countP (fun r => fills r.fileId r.target r.targetId) +
      s.relationships.countP (fun r => fills r.fileId r.target r.targetId) +
      s.relationships.countP (fun r => fills r.fileId r.source r.sourceId)
  (filled,
    { s with
      references := s.references.map fun r =>
        if owned r.fileId then
          { r with targetId := s.relink project r.fileId r.target r.targetId } else r
      relationships := s.relationships.map fun r =>
        if owned r.fileId then
          { r with
            targetId := s.relink project r.fileId r.target r.targetId
            sourceId := s.relink project r.fileId r.source r.sourceId } else r })

/-- How many files a project has in each language, by name. -/
def languageCounts (s : Store) (project : Int) : List (String × Nat) :=
  let languages := (s.files.filter (·.projectId == project)).map (·.language)
  (sortBy (fun a b => compare a b != .gt) (distinct languages)).map fun l => (l, languages.count l)

/-- Counts a project's files by language and records the time. -/
def stamp (s : Store) (now project : Int) : Store :=
  { s with projects := s.projects.map fun r =>
    if r.id == project then
      { r with
        languageStats := s.languageCounts project
        lastIndexed := some now
        flaws := mend ["last_indexed"] r.flaws }
    else r }

/-- A project that was counted. -/
def stamped (s : Store) (project : Int) : StoreM Project := do
  match ← s.project? project with
  | some p => pure p
  | none => .error (.vanished project)

/-- Counts a project's files by language, records the time and gives the project back. -/
def refresh (s : Store) (now project : Int) : StoreM (Project × Store) := do
  let s := s.stamp now project
  pure (← s.stamped project, s)

/-- Sets what people keep on a symbol; says whether there is one. -/
def setWorkflow (s : Store) (id : Int) (workflow : Workflow) : Bool × Store :=
  (s.symbols.any (·.id == id),
    { s with symbols := s.symbols.map fun r =>
      if r.id == id then { r with workflow, flaws := mend ["priority"] r.flaws } else r })

end Store

/-! ## Writes as data -/

inductive Write where
  | upsertProject (now : Int) (path name : String)
  | persist (now project : Int) (file : SourceFile) (outline : Outline)
  | removeFile (project : Int) (path : String)
  | prune (project : Int) (keep : List String)
  | resolveLinks (project : Int)
  | refresh (now project : Int)
  | setWorkflow (id : Int) (workflow : Workflow)

/-- The state after a write that succeeds, or the state as it was. -/
def afterWrite {α : Type} (s : Store) : StoreM (α × Store) → Store
  | .ok (_, s) => s
  | .error _ => s

/-- The state after a write. -/
def Store.apply (s : Store) : Write → Store
  | .upsertProject now path name => afterWrite s (s.upsertProject now path name)
  | .persist now project file outline => afterWrite s (s.persist now project file outline)
  | .removeFile project path => (s.removeFile project path).2
  | .prune project keep => (s.prune project keep).2
  | .resolveLinks project => (s.resolveLinks project).2
  | .refresh now project => afterWrite s (s.refresh now project)
  | .setWorkflow id workflow => (s.setWorkflow id workflow).2

/-- The states that writes lead to from the empty store. -/
inductive Store.Reachable : Store → Prop where
  | empty : Reachable .empty
  | write {s : Store} (h : Reachable s) (w : Write) : Reachable (s.apply w)

end CodeAtlas
