import CodeAtlas.Store.Write

/-!
# Transactions

A file is stored statement by statement, and any statement may fail. What the statements did counts
only if all of them succeed, and the commit as well.

* `Faults`: the statements that fail whatever the tables hold.
* `Tx`: work in a transaction; `Tx.statement`: one statement.
* `Store.transaction`: what a transaction answers, and the tables it leaves behind.
* `Tx.matchSymbols`, `Tx.resolve`, `Tx.persist`: how a file is stored.
* `Store.persistInSteps`, `Store.pruneInSteps`: writes that run as transactions.

Names are looked up once, and rows that are left over are deleted in no particular order.
-/

namespace CodeAtlas

/-- The statements that fail whatever the tables hold, by their positions in a transaction. -/
abbrev Faults := Nat → Option StoreError

/-- A transaction under way: how many statements it has tried, and the tables as it has changed them. -/
structure Progress where
  tried : Nat
  store : Store

/-- Work in a transaction. Where it fails, what it did before is still in its tables. -/
def Tx (α : Type) : Type := Faults → Progress → StoreM α × Progress

instance : Monad Tx where
  pure a := fun _ p => (.ok a, p)
  bind x f := fun faults p =>
    match x faults p with
    | (.ok a, p) => f a faults p
    | (.error e, p) => (.error e, p)

/-- **A transaction**: if it fails, or if its commit does, the tables are as they were. -/
def Store.transaction {α : Type} (s : Store) (faults : Faults) (tx : Tx α) : StoreM α × Store :=
  match tx faults ⟨0, s⟩ with
  | (.error e, _) => (.error e, s)
  | (.ok a, p) =>
    match faults p.tried with
    | some e => (.error e, s)
    | none => (.ok a, p.store)

/-! ## Single statements -/

namespace Store

/-- Changes the symbol with an id. -/
def updateSymbol (s : Store) (id : Int) (f : SymbolRow → SymbolRow) : Store :=
  { s with symbols := s.symbols.map fun r => if r.id == id then f r else r }

/-- Inserts a symbol, and says which id it got. -/
def insertSymbol (s : Store) (fileId : Int) (d : Declaration) : Int × Store :=
  let id := s.last.symbols + 1
  (id, { s with
    symbols := s.symbols ++ [{ toDeclaration := d, id, fileId }]
    last := { s.last with symbols := id } })

/-- Deletes the symbol with an id. -/
def deleteSymbol (s : Store) (id : Int) : Store := s.dropSymbols (·.id == id)

/-- Deletes the imports of a file. -/
def clearImports (s : Store) (fileId : Int) : Store :=
  { s with imports := s.imports.filter (·.fileId != fileId) }

/-- Deletes the edges of a file. -/
def clearEdges (s : Store) (fileId : Int) : Store :=
  { s with relationships := s.relationships.filter (·.fileId != fileId) }

/-- Deletes the uses in a file. -/
def clearUses (s : Store) (fileId : Int) : Store :=
  { s with references := s.references.filter (·.fileId != fileId) }

/-- Inserts an import. -/
def insertImport (s : Store) (fileId : Int) (path : String) (c : ImportClause) : Store :=
  let id := s.last.imports + 1
  { s with
    imports := s.imports ++
      [{ toImport := { toImportClause := c, id, filePath := path }, fileId }]
    last := { s.last with imports := id } }

/-- Inserts an edge. -/
def insertEdge (s : Store) (fileId : Int) (path : String) (sourceId targetId : Option Int)
    (e : Edge) : Store :=
  let id := s.last.relationships + 1
  { s with
    relationships := s.relationships ++
      [{ toRelationship := { toEdge := e, id, sourceId, targetId, filePath := path }, fileId }]
    last := { s.last with relationships := id } }

/-- Inserts a use. -/
def insertUse (s : Store) (fileId : Int) (path : String) (sourceId targetId : Option Int)
    (u : Use) : Store :=
  let id := s.last.references + 1
  { s with
    references := s.references ++
      [{ toReference :=
          { id, sourceId, target := u.target, targetId, qualifier := u.qualifier, kind := u.kind
            filePath := path, line := u.line, column := u.column }
         fileId }]
    last := { s.last with references := id } }

end Store

namespace Tx

variable {α : Type}

/-- One statement. A statement that fails changes nothing. -/
def statement (run : Store → StoreM (α × Store)) : Tx α := fun faults p =>
  match faults p.tried with
  | some e => (.error e, { p with tried := p.tried + 1 })
  | none =>
    match run p.store with
    | .error e => (.error e, { p with tried := p.tried + 1 })
    | .ok (a, store) => (.ok a, ⟨p.tried + 1, store⟩)

/-- A statement that only reads. -/
def query (read : Store → StoreM α) : Tx α := statement fun s => do pure (← read s, s)

/-- A statement that only changes the tables. -/
def change (f : Store → Store) : Tx Unit := statement fun s => pure ((), f s)

/-! ## Symbols -/

/-- Symbols of a file as they are matched: the stored rows that are left, the ids of the names that
were declared, and what was done. -/
structure Matching where
  left : List SymbolRow
  locals : List (String × Int) := []
  stats : WriteStats

/-- Counts one more symbol. -/
def counted (w : WriteStats) : Fate → WriteStats
  | .kept => { w with symbolsUnchanged := w.symbolsUnchanged + 1 }
  | .moved => { w with symbolsMoved := w.symbolsMoved + 1 }
  | .updated => { w with symbolsUpdated := w.symbolsUpdated + 1 }
  | .inserted => { w with symbolsInserted := w.symbolsInserted + 1 }

/-- Notes what became of a declaration. Of several declarations of a name the first one counts. -/
def Matching.note (m : Matching) (fate : Fate) (name : String) (id : Int) : Matching :=
  { m with
    locals := if m.locals.any (·.1 == name) then m.locals else m.locals ++ [(name, id)]
    stats := counted m.stats fate }

/-- Matches a declaration with a stored row, or inserts it. -/
def matchSymbol (fileId : Int) (m : Matching) (d : Declaration) : Tx Matching := do
  match takeFirst (·.standsFor d) m.left with
  | some (r, left) =>
    let m := { m with left }
    if r.contentHash == d.contentHash then
      if r.range == d.range then pure (m.note .kept d.name r.id)
      else
        change (·.updateSymbol r.id (·.move d.range))
        pure (m.note .moved d.name r.id)
    else
      change (·.updateSymbol r.id (·.rewrite d))
      pure (m.note .updated d.name r.id)
  | none =>
    let id ← statement fun s => pure (s.insertSymbol fileId d)
    pure (m.note .inserted d.name id)

/-- Deletes a row that is left over. -/
def deleteLeft (m : Matching) (r : SymbolRow) : Tx Matching := do
  change (·.deleteSymbol r.id)
  pure { m with stats := { m.stats with symbolsRemoved := m.stats.symbolsRemoved + 1 } }

/-- Some order in which rows are deleted. -/
structure Shuffle where
  order : List SymbolRow → List SymbolRow
  perm : ∀ rows, (order rows).Perm rows

/-- Matches the declarations of a file with its stored rows, and deletes the rows that are left. -/
def matchSymbols (shuffle : Shuffle) (fileId : Int) (stats : WriteStats) (ds : List Declaration) :
    Tx Matching := do
  let stored ← query fun s => do
    let rows := s.rowsOfFile fileId
    rows.forM fun r => checkFlaws (rangeColumns 4) r.flaws
    pure rows
  let m ← ds.foldlM (matchSymbol fileId) { left := stored, stats }
  (shuffle.order m.left).foldlM deleteLeft m

/-! ## Links -/

/-- The names that were looked up, with the links that were found. -/
abbrev Cache := List (String × Option Int)

/-- The link of a name: the first declaration in the file, or else what was found before, or else the
only symbol of the project. -/
def resolve (project : Int) (locals : List (String × Int)) (cache : Cache) (name : String) :
    Tx (Option Int × Cache) := do
  match locals.lookup name with
  | some id => pure (some id, cache)
  | none =>
    match cache.lookup name with
    | some link => pure (link, cache)
    | none => do
      let link ← query fun s => pure (s.uniqueId? project name)
      pure (link, (name, link) :: cache)

/-- Inserts an edge with the links of its ends. -/
def insertEdge (project fileId : Int) (path : String) (locals : List (String × Int))
    (cache : Cache) (e : Edge) : Tx Cache := do
  let (sourceId, cache) ← resolve project locals cache e.source
  let (targetId, cache) ← resolve project locals cache e.target
  change (·.insertEdge fileId path sourceId targetId e)
  pure cache

/-- Inserts a use with the link of its target. It lies in a symbol of the file or in none. -/
def insertUse (project fileId : Int) (path : String) (locals : List (String × Int))
    (cache : Cache) (u : Use) : Tx Cache := do
  let (targetId, cache) ← resolve project locals cache u.target
  change (·.insertUse fileId path (u.source.bind fun n => locals.lookup n) targetId u)
  pure cache

/-- Puts the imports and links of a file in the place of those it had. -/
def replaceLinks (project fileId : Int) (path : String) (locals : List (String × Int)) (o : Outline) :
    Tx Unit := do
  change (·.clearImports fileId)
  change (·.clearEdges fileId)
  change (·.clearUses fileId)
  o.imports.forM fun i => change (·.insertImport fileId path i)
  let cache ← o.edges.foldlM (insertEdge project fileId path locals) []
  let _ ← o.uses.foldlM (insertUse project fileId path locals) cache
  pure ()

/-! ## Whole writes -/

/-- Stores a file with its outline. -/
def persist (shuffle : Shuffle) (now project : Int) (f : SourceFile) (o : Outline) :
    Tx WriteStats := do
  let fileId ← statement (·.upsertFile now project f)
  let m ← matchSymbols shuffle fileId { filesWritten := 1 } o.symbols
  replaceLinks project fileId f.relativePath m.locals o
  pure { m.stats with
    importsWritten := o.imports.length
    relationshipsWritten := o.edges.length
    referencesWritten := o.uses.length }

/-- Removes the files of a project whose paths are not to be kept; says how many there were. -/
def prune (project : Int) (keep : List String) : Tx Nat := do
  let paths ← query fun s => pure ((s.files.filter (·.projectId == project)).map (·.relativePath))
  let stale := paths.filter fun path => !keep.contains path
  stale.forM fun path => change fun s => (s.removeFile project path).2
  pure stale.length

end Tx

namespace Store

/-- Stores a file in a transaction. -/
def persistInSteps (s : Store) (faults : Faults) (shuffle : Tx.Shuffle) (now project : Int)
    (f : SourceFile) (o : Outline) : StoreM WriteStats × Store :=
  s.transaction faults (Tx.persist shuffle now project f o)

/-- Removes files in a transaction. -/
def pruneInSteps (s : Store) (faults : Faults) (project : Int) (keep : List String) :
    StoreM Nat × Store :=
  s.transaction faults (Tx.prune project keep)

end Store

end CodeAtlas
