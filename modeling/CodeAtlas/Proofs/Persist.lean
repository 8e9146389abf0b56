import CodeAtlas.Proofs.Integrity

/-!
# Storing a file

* `mem_replaceSymbols`: the rows of the file are those of its declarations, and all others stay.
* `Persisted`: the store after a file was stored, table by table; `persist_spec`.
* `exists_persist`: a file of a project that exists can always be stored.
* **`Reachable.sound`**: every sequence of writes leads to a sound store.
* **`Reachable.referential_integrity`**: so a path has one row, every row has its owner, and every
  link leads to a symbol of its name in its project.
-/

namespace CodeAtlas.Store

variable {s : Store}

/-! ## Symbols of a file that is stored -/

section ReplaceSymbols

theorem mem_rowsOfFile {i : Int} {x : SymbolRow} :
    x ∈ s.rowsOfFile i ↔ x ∈ s.symbols ∧ x.fileId = i := by
  rw [rowsOfFile, mem_sortBy, List.mem_filter, beq_iff_eq]

theorem rowsOfFile_nodup (h : s.Keyed) (i : Int) : ((s.rowsOfFile i).map (·.id)).Nodup := by
  rw [rowsOfFile, ((sortBy_perm _ _).map SymbolRow.id).nodup_iff]
  exact (h.symbols.sublist (List.Sublist.map _ List.filter_sublist)).nodup

/-- What becomes of the declarations of a file. -/
abbrev reconciled (s : Store) (i : Int) (ds : List Declaration) : Reconciled :=
  reconcile i s.last.symbols (s.rowsOfFile i) ds

variable (i : Int) (ds : List Declaration)

theorem reconciled_nodup (h : s.Keyed) :
    (((s.reconciled i ds).rows.map (·.2)).map (·.id)).Nodup :=
  reconcile_ids_nodup (rowsOfFile_nodup h i)
    (fun _ hrow => h.symbols.bound _ (List.mem_map_of_mem (mem_rowsOfFile.mp hrow).1)) ds

/-- A row of the file that is not removed is replaced by a row that is kept. -/
theorem placed_of_not_removed (h : s.Keyed) {x : SymbolRow} (hx : x ∈ s.symbols) (hi : x.fileId = i)
    (hr : x.id ∉ (s.reconciled i ds).removed.map (·.id)) :
    ∃ d, (x.update d).2 ∈ (s.reconciled i ds).kept ∧
      (((s.reconciled i ds).rows.find? (·.2.id == x.id)).map (·.2)).getD x = (x.update d).2 := by
  have hstored : x.id ∈ (s.rowsOfFile i).map (·.id) :=
    List.mem_map_of_mem (mem_rowsOfFile.mpr ⟨hx, hi⟩)
  rw [← (reconcile_stored s.last.symbols (s.rowsOfFile i) ds).mem_iff, List.mem_append] at hstored
  obtain ⟨k, hk, hkx⟩ := List.mem_map.mp (hstored.resolve_right hr)
  obtain ⟨old, hold, d, rfl⟩ := reconcile_kept _ _ _ k hk
  rw [SymbolRow.update_id] at hkx
  obtain rfl := h.symbol_eq (mem_rowsOfFile.mp hold).1 hx hkx
  refine ⟨d, hk, ?_⟩
  obtain ⟨y, hy, hye⟩ := List.mem_map.mp (Reconciled.mem_rows_iff.mpr (Or.inl hk))
  have hnd := reconciled_nodup i ds h
  rw [List.map_map] at hnd
  have hfind := find?_key hnd hy
  simp only [Function.comp, hye, SymbolRow.update_id] at hfind
  rw [hfind, Option.map_some, Option.getD_some, hye]

/-- Whether a row goes when the symbols of a file are replaced. -/
def leaves (s : Store) (i : Int) (ds : List Declaration) (row : SymbolRow) : Bool :=
  row.fileId == i && ((s.reconciled i ds).removed.map (·.id)).contains row.id

/-- What becomes of a row that stays. -/
def placed (s : Store) (i : Int) (ds : List Declaration) (row : SymbolRow) : SymbolRow :=
  if row.fileId == i then
    (((s.reconciled i ds).rows.find? (·.2.id == row.id)).map (·.2)).getD row
  else row

theorem replaceSymbols_eq : s.replaceSymbols i (s.reconciled i ds) =
    { s.dropSymbols (s.leaves i ds) with
      symbols := (s.dropSymbols (s.leaves i ds)).symbols.map (s.placed i ds) ++
        (s.reconciled i ds).fresh
      last := { s.last with symbols := (s.reconciled i ds).last } } := rfl

/-- A row that stays keeps its id, its name and its file. -/
theorem placed_stays (h : s.Keyed) {x : SymbolRow}
    (hx : x ∈ (s.dropSymbols (s.leaves i ds)).symbols) :
    (s.placed i ds x).id = x.id ∧ (s.placed i ds x).name = x.name ∧
      (s.placed i ds x).fileId = x.fileId ∧
      (x.fileId ≠ i ∧ s.placed i ds x = x ∨
        x.fileId = i ∧ s.placed i ds x ∈ (s.reconciled i ds).kept) := by
  obtain ⟨hx, hg⟩ := (mem_dropSymbols _).mp hx
  by_cases hi : x.fileId = i
  · have hr : x.id ∉ (s.reconciled i ds).removed.map (·.id) := by simpa [leaves, hi] using hg
    obtain ⟨d, hk, he⟩ := placed_of_not_removed i ds h hx hi hr
    have hp : s.placed i ds x = (x.update d).2 := (if_pos (by simpa using hi)).trans he
    rw [hp]
    exact ⟨SymbolRow.update_id _ _, SymbolRow.update_name _ _, SymbolRow.update_fileId _ _,
      Or.inr ⟨hi, hk⟩⟩
  · have hp : s.placed i ds x = x := if_neg (by simpa using hi)
    rw [hp]
    exact ⟨rfl, rfl, rfl, Or.inl ⟨hi, rfl⟩⟩

theorem replaceSymbols_ids (h : s.Keyed) :
    (s.replaceSymbols i (s.reconciled i ds)).symbols.map (·.id) =
      (s.dropSymbols (s.leaves i ds)).symbols.map (·.id) ++ (s.reconciled i ds).fresh.map (·.id) := by
  rw [replaceSymbols_eq, List.map_append, List.map_map]
  congr 1
  exact List.map_congr_left fun x hx => (placed_stays i ds h hx).1

/-- **The rows of the file are those of its declarations, and all others stay.** -/
theorem mem_replaceSymbols (h : s.Keyed) {y : SymbolRow} :
    y ∈ (s.replaceSymbols i (s.reconciled i ds)).symbols ↔
      (y ∈ s.symbols ∧ y.fileId ≠ i) ∨ y ∈ (s.reconciled i ds).rows.map (·.2) := by
  rw [replaceSymbols_eq, List.mem_append, Reconciled.mem_rows_iff, ← or_assoc]
  refine or_congr_left ?_
  constructor
  · intro hy
    obtain ⟨x, hx, rfl⟩ := List.mem_map.mp hy
    obtain ⟨-, -, -, ⟨hi, he⟩ | ⟨-, hk⟩⟩ := placed_stays i ds h hx
    · rw [he]
      exact Or.inl ⟨((mem_dropSymbols _).mp hx).1, hi⟩
    · exact Or.inr hk
  · rintro (⟨hy, hi⟩ | hk)
    · refine List.mem_map.mpr ⟨y, (mem_dropSymbols _).mpr ⟨hy, by simp [leaves, hi]⟩, if_neg ?_⟩
      simpa using hi
    · obtain ⟨old, hold, d, rfl⟩ := reconcile_kept _ _ _ y hk
      obtain ⟨hold, hi⟩ := mem_rowsOfFile.mp hold
      have hnd := (@reconcile_stored i s.last.symbols (s.rowsOfFile i) ds).nodup_iff.mpr
        (rowsOfFile_nodup h i)
      have hr : old.id ∉ (s.reconciled i ds).removed.map (·.id) := fun hr =>
        (List.disjoint_of_nodup_append hnd) (List.mem_map.mpr ⟨_, hk, SymbolRow.update_id _ _⟩) hr
      obtain ⟨d', hk', he⟩ := placed_of_not_removed i ds h hold hi hr
      refine List.mem_map.mpr
        ⟨old, (mem_dropSymbols _).mpr ⟨hold, by simpa [leaves, hi] using hr⟩, ?_⟩
      rw [placed, if_pos (by simpa using hi), he]
      refine List.inj_on_of_nodup_map (List.Nodup.of_append_left hnd) hk' hk ?_
      rw [SymbolRow.update_id, SymbolRow.update_id]

theorem reconciled_fileId {y : SymbolRow} (hy : y ∈ (s.reconciled i ds).rows.map (·.2)) :
    y.fileId = i :=
  reconcile_fileId (fun _ hrow => (mem_rowsOfFile.mp hrow).2) hy

theorem Sound.replaceSymbols (h : s.Sound) (hi : s.HasFile i) :
    (s.replaceSymbols i (s.reconciled i ds)).Sound := by
  set t := s.dropSymbols (s.leaves i ds) with ht
  have h' : t.Sound := h.dropSymbols _
  obtain ⟨hlast, hissued, hnew⟩ := @reconcile_issued i s.last.symbols (s.rowsOfFile i) ds
  have hsym : ∀ x ∈ t.symbols, ∃ y ∈ (s.replaceSymbols i (s.reconciled i ds)).symbols,
      y.id = x.id ∧ y.name = x.name ∧ y.fileId = x.fileId := by
    intro x hx
    obtain ⟨h1, h2, h3, -⟩ := placed_stays i ds h.keyed hx
    refine ⟨_, ?_, h1, h2, h3⟩
    rw [replaceSymbols_eq]
    exact List.mem_append_left _ (List.mem_map_of_mem hx)
  have hreach : ∀ j n l, t.Reaches j n l →
      (s.replaceSymbols i (s.reconciled i ds)).Reaches j n l := fun j n l hr =>
    hr.mono (fun _ hl => hl) (fun x hx _ => by
      obtain ⟨y, hy, h1, h2, h3⟩ := hsym x hx
      exact ⟨y, hy, h1, h2, fun p hp => by rw [h3]; exact hp⟩) fun _ hp => hp
  have hflaws : ∀ y ∈ (s.reconciled i ds).rows.map (·.2), y.flaws = [] := by
    intro y hy
    rcases Reconciled.mem_rows_iff.mp hy with hk | hf
    · obtain ⟨old, hold, d, rfl⟩ := reconcile_kept _ _ _ y hk
      exact SymbolRow.update_flaws (h.flawless.symbols _ (mem_rowsOfFile.mp hold).1)
    · exact (reconcile_fresh _ _ _ y hf).2
  exact {
    keyed := {
      h'.keyed with
      symbols := by
        rw [replaceSymbols_ids i ds h.keyed]
        exact h'.keyed.symbols.append hissued hnew hlast }
    owned := {
      h'.owned with
      symbols := fun y hy => by
        rcases (mem_replaceSymbols i ds h.keyed).mp hy with ⟨hy, -⟩ | hy
        · exact h.owned.symbols y hy
        · rw [reconciled_fileId i ds hy]; exact hi }
    linked := {
      sources := fun r hr => hreach _ _ _ (h'.linked.sources r hr)
      targets := fun r hr => hreach _ _ _ (h'.linked.targets r hr)
      uses := fun r hr => hreach _ _ _ (h'.linked.uses r hr)
      users := fun r hr j hj => by
        obtain ⟨x, hx, rfl, hf⟩ := h'.linked.users r hr j hj
        obtain ⟨y, hy, h1, -, h3⟩ := hsym x hx
        exact ⟨y, hy, h1, h3.trans hf⟩ }
    flawless := {
      h'.flawless with
      symbols := fun y hy => by
        rcases (mem_replaceSymbols i ds h.keyed).mp hy with ⟨hy, -⟩ | hy
        · exact h.flawless.symbols y hy
        · exact hflaws y hy } }

/-- The rows of other files stay as they are. -/
theorem symbolsIn_replaceSymbols (h : s.Keyed) {j : Int} (hj : j ≠ i) :
    (s.replaceSymbols i (s.reconciled i ds)).symbolsIn j = s.symbolsIn j := by
  have hfresh : (s.reconciled i ds).fresh.filter (·.fileId == j) = [] := by
    refine List.filter_eq_nil_iff.mpr fun r hr => ?_
    simpa [(reconcile_fresh _ _ _ r hr).1] using hj.symm
  have hstay : (s.dropSymbols (s.leaves i ds)).symbols.filter (·.fileId == j) = s.symbolsIn j := by
    rw [dropSymbols_eq, List.filter_filter]
    refine List.filter_congr fun r _ => ?_
    by_cases hr : r.fileId = j
    · have hi : r.fileId ≠ i := by rw [hr]; exact hj
      simp [hr, leaves, hj]
    · simp [hr]
  have hmap : ((s.dropSymbols (s.leaves i ds)).symbols.map (s.placed i ds)).filter
      (·.fileId == j) = (s.dropSymbols (s.leaves i ds)).symbols.filter (·.fileId == j) := by
    rw [List.filter_map]
    have hfile : (s.dropSymbols (s.leaves i ds)).symbols.filter
        ((·.fileId == j) ∘ s.placed i ds) =
          (s.dropSymbols (s.leaves i ds)).symbols.filter (·.fileId == j) :=
      List.filter_congr fun r hr => by
        rw [Function.comp, (placed_stays i ds h hr).2.2.1]
    rw [hfile]
    refine (List.map_congr_left fun r hr => ?_).trans (List.map_id _)
    have hrj : r.fileId = j := by simpa using (List.mem_filter.mp hr).2
    exact if_neg (by simpa [hrj] using hj)
  rw [symbolsIn, replaceSymbols_eq, List.filter_append, hfresh, List.append_nil, hmap, hstay]

theorem reconciled_mem (h : s.Keyed) {y : SymbolRow} (hy : y ∈ (s.reconciled i ds).rows.map (·.2)) :
    y ∈ (s.replaceSymbols i (s.reconciled i ds)).symbols :=
  (mem_replaceSymbols i ds h).mpr (Or.inr hy)

end ReplaceSymbols

/-! ## Links of a file that is stored -/

section ReplaceLinks

variable {p : Int} {n : String}

theorem localId?_eq_some {r : Reconciled} {j : Int} (h : r.localId? n = some j) :
    ∃ x ∈ r.rows.map (·.2), x.id = j ∧ x.name = n := by
  obtain ⟨x, hx, rfl⟩ := Option.map_eq_some_iff.mp h
  exact ⟨x.2, List.mem_map_of_mem (List.mem_of_find?_eq_some hx), rfl,
    by simpa using List.find?_some hx⟩

theorem reaches_resolve {i : Int} (hi : s.ownsFile p i = true) {r : Reconciled}
    (hr : ∀ x ∈ r.rows.map (·.2), x ∈ s.symbols ∧ x.fileId = i) :
    s.Reaches i n (s.resolve p r n) := by
  intro j hj
  unfold resolve at hj
  split at hj
  · next k hk =>
    cases hj
    obtain ⟨x, hx, hxj, hn⟩ := localId?_eq_some hk
    obtain ⟨hxs, hxi⟩ := hr x hx
    exact ⟨x, hxs, hxj, hn, p, by rw [hxi]; exact hi, hi⟩
  · exact reaches_uniqueId? hi j hj

variable (p i : Int) (path : String) (r : Reconciled) (o : Outline)

/-- The row of an import. -/
def importRow (i : Int) (path : String) (id : Int) (c : ImportClause) : ImportRow :=
  { toImport := { toImportClause := c, id, filePath := path }, fileId := i }

/-- The row of an edge. -/
def edgeRow (s : Store) (p i : Int) (path : String) (r : Reconciled) (id : Int) (e : Edge) :
    RelationshipRow :=
  { toRelationship :=
      { toEdge := e, id, sourceId := s.resolve p r e.source, targetId := s.resolve p r e.target
        filePath := path }
    fileId := i }

/-- The row of a use. -/
def useRow (s : Store) (p i : Int) (path : String) (r : Reconciled) (id : Int) (u : Use) :
    ReferenceRow :=
  { toReference :=
      { id, sourceId := u.source.bind r.localId?, target := u.target
        targetId := s.resolve p r u.target, qualifier := u.qualifier, kind := u.kind
        filePath := path, line := u.line, column := u.column }
    fileId := i }

theorem replaceLinks_eq : s.replaceLinks p i path r o =
    { s with
      imports := s.imports.filter (·.fileId != i) ++
        numbered (importRow i path) s.last.imports o.imports
      relationships := s.relationships.filter (·.fileId != i) ++
        numbered (s.edgeRow p i path r) s.last.relationships o.edges
      references := s.references.filter (·.fileId != i) ++
        numbered (s.useRow p i path r) s.last.references o.uses
      last := { s.last with
        imports := s.last.imports + o.imports.length
        relationships := s.last.relationships + o.edges.length
        references := s.last.references + o.uses.length } } := rfl

theorem Sound.replaceLinks (h : s.Sound) (hi : s.ownsFile p i = true)
    (hr : ∀ x ∈ r.rows.map (·.2), x ∈ s.symbols ∧ x.fileId = i) :
    (s.replaceLinks p i path r o).Sound := by
  have hhas : s.HasFile i := by
    obtain ⟨f, hf, hfi, -⟩ := ownsFile_iff.mp hi
    exact ⟨f, hf, hfi⟩
  have hreach : ∀ n, s.Reaches i n (s.resolve p r n) := fun n => reaches_resolve hi hr
  rw [replaceLinks_eq]
  exact {
    keyed := {
      h.keyed with
      imports := by
        rw [List.map_append]
        exact (h.keyed.imports.sublist (List.Sublist.map _ List.filter_sublist)).append_numbered
          (fun _ _ => rfl) _
      relationships := by
        rw [List.map_append]
        exact (h.keyed.relationships.sublist
          (List.Sublist.map _ List.filter_sublist)).append_numbered (fun _ _ => rfl) _
      references := by
        rw [List.map_append]
        exact (h.keyed.references.sublist
          (List.Sublist.map _ List.filter_sublist)).append_numbered (fun _ _ => rfl) _ }
    owned := {
      h.owned with
      imports := List.forall_mem_append.mpr
        ⟨fun x hx => h.owned.imports x (List.mem_of_mem_filter hx),
          fun x hx => by obtain ⟨id, a, -, rfl⟩ := exists_of_mem_numbered hx; exact hhas⟩
      relationships := List.forall_mem_append.mpr
        ⟨fun x hx => h.owned.relationships x (List.mem_of_mem_filter hx),
          fun x hx => by obtain ⟨id, a, -, rfl⟩ := exists_of_mem_numbered hx; exact hhas⟩
      references := List.forall_mem_append.mpr
        ⟨fun x hx => h.owned.references x (List.mem_of_mem_filter hx),
          fun x hx => by obtain ⟨id, a, -, rfl⟩ := exists_of_mem_numbered hx; exact hhas⟩ }
    linked := {
      sources := List.forall_mem_append.mpr
        ⟨fun x hx => h.linked.sources x (List.mem_of_mem_filter hx),
          fun x hx => by
            obtain ⟨id, e, -, rfl⟩ := exists_of_mem_numbered hx
            exact hreach e.source⟩
      targets := List.forall_mem_append.mpr
        ⟨fun x hx => h.linked.targets x (List.mem_of_mem_filter hx),
          fun x hx => by
            obtain ⟨id, e, -, rfl⟩ := exists_of_mem_numbered hx
            exact hreach e.target⟩
      uses := List.forall_mem_append.mpr
        ⟨fun x hx => h.linked.uses x (List.mem_of_mem_filter hx),
          fun x hx => by
            obtain ⟨id, u, -, rfl⟩ := exists_of_mem_numbered hx
            exact hreach u.target⟩
      users := List.forall_mem_append.mpr
        ⟨fun x hx => h.linked.users x (List.mem_of_mem_filter hx),
          fun x hx j hj => by
            obtain ⟨id, u, -, rfl⟩ := exists_of_mem_numbered hx
            obtain ⟨n, -, hn⟩ := Option.bind_eq_some_iff.mp hj
            obtain ⟨y, hy, hyj, -⟩ := localId?_eq_some hn
            exact ⟨y, (hr y hy).1, hyj, (hr y hy).2⟩⟩ }
    flawless := {
      h.flawless with
      imports := List.forall_mem_append.mpr
        ⟨fun x hx => h.flawless.imports x (List.mem_of_mem_filter hx),
          fun x hx => by obtain ⟨id, a, -, rfl⟩ := exists_of_mem_numbered hx; rfl⟩
      relationships := List.forall_mem_append.mpr
        ⟨fun x hx => h.flawless.relationships x (List.mem_of_mem_filter hx),
          fun x hx => by obtain ⟨id, a, -, rfl⟩ := exists_of_mem_numbered hx; rfl⟩
      references := List.forall_mem_append.mpr
        ⟨fun x hx => h.flawless.references x (List.mem_of_mem_filter hx),
          fun x hx => by obtain ⟨id, a, -, rfl⟩ := exists_of_mem_numbered hx; rfl⟩ } }

end ReplaceLinks

/-! ## The whole write -/

section Persist

variable {now p : Int} {f : SourceFile} {o : Outline}

/-- The store with its files rewritten. -/
def withFiles (s : Store) (files : List FileRow) : Store :=
  { s with files, last := { s.last with files := s.last.files + 1 } }

/-- **The store after a file was stored**, with the id of its row. -/
structure Persisted (s : Store) (now p : Int) (f : SourceFile) (o : Outline) (i : Int) (t : Store) :
    Prop where
  project : ∃ r ∈ s.projects, r.id = p
  projects : t.projects = s.projects
  upserted : s.upsertFile now p f = .ok (i, s.withFiles t.files)
  files : s.FileUpsert now p f i t.files
  symbols : ∀ y, y ∈ t.symbols ↔
    (y ∈ s.symbols ∧ y.fileId ≠ i) ∨ y ∈ (s.reconciled i o.symbols).rows.map (·.2)
  otherSymbols : ∀ j, j ≠ i → t.symbolsIn j = s.symbolsIn j
  imports : t.importsIn i = numbered (importRow i f.relativePath) s.last.imports o.imports
  relationships : t.relationshipsIn i =
    numbered (t.edgeRow p i f.relativePath (s.reconciled i o.symbols)) s.last.relationships o.edges
  references : t.referencesIn i =
    numbered (t.useRow p i f.relativePath (s.reconciled i o.symbols)) s.last.references o.uses
  otherImports : ∀ j, j ≠ i → t.importsIn j = s.importsIn j
  otherRelationships : ∀ j, j ≠ i →
    t.relationshipsIn j = (s.relationshipsIn j).map (s.clearEdge (s.leaves i o.symbols))
  otherReferences : ∀ j, j ≠ i →
    t.referencesIn j = (s.referencesIn j).map (s.clearUse (s.leaves i o.symbols))
  last : t.last =
    { projects := s.last.projects
      files := s.last.files + 1
      symbols := (s.reconciled i o.symbols).last
      imports := s.last.imports + o.imports.length
      relationships := s.last.relationships + o.edges.length
      references := s.last.references + o.uses.length }

/-- What a write touches. -/
def statsOf (s : Store) (i : Int) (o : Outline) : WriteStats :=
  let r := s.reconciled i o.symbols
  { filesWritten := 1
    symbolsInserted := r.count .inserted
    symbolsUpdated := r.count .updated
    symbolsUnchanged := r.count .kept
    symbolsMoved := r.count .moved
    symbolsRemoved := r.removed.length
    importsWritten := o.imports.length
    relationshipsWritten := o.edges.length
    referencesWritten := o.uses.length }

/-- The store with the rows of a file replaced. -/
def withRows (s : Store) (p i : Int) (path : String) (o : Outline) : Store :=
  (s.replaceSymbols i (s.reconciled i o.symbols)).replaceLinks p i path
    (s.reconciled i o.symbols) o

theorem checkFlaws_nil (columns : List Column) : checkFlaws columns [] = .ok () := by
  unfold checkFlaws
  rw [show (columns.findSome? fun c =>
    (List.find? (fun x : Flaw => x.column == c.name) []).map fun f => (c, f)) = none by simp]

theorem forM_checkFlaws {rows : List SymbolRow} (h : ∀ r ∈ rows, r.flaws = [])
    (columns : List Column) :
    (rows.forM fun r => checkFlaws columns r.flaws) = (.ok () : StoreM Unit) := by
  induction rows with
  | nil => rfl
  | cons r rows ih =>
    have hr := h r List.mem_cons_self
    simp only [List.forM, hr, checkFlaws_nil]
    exact ih fun r' hr' => h r' (List.mem_cons_of_mem _ hr')

/-- A write that stores a file rewrites the file's row and then its rows. -/
theorem persist_eq (h : s.Sound) :
    s.persist now p f o = (s.upsertFile now p f).map fun x =>
      (x.2.statsOf x.1 o, x.2.withRows p x.1 f.relativePath o) := by
  unfold persist
  cases hu : s.upsertFile now p f with
  | error e => rfl
  | ok x =>
    obtain ⟨i, t⟩ := x
    have ht : t.Sound := h.upsertFile hu
    have hflaws := @forM_checkFlaws (t.rowsOfFile i)
      (fun r hr => ht.flawless.symbols r (mem_rowsOfFile.mp hr).1) (rangeColumns 4)
    simp only [bind, Except.bind, hflaws]
    rfl

theorem filter_replaced_self {ρ : Type} {file : ρ → Int} {i : Int} {new : List ρ}
    (hnew : ∀ r ∈ new, file r = i) (rows : List ρ) :
    (rows.filter (file · != i) ++ new).filter (file · == i) = new := by
  rw [List.filter_append, List.filter_filter, List.filter_eq_nil_iff.mpr, List.nil_append,
    List.filter_eq_self]
  · exact fun r hr => by simpa using hnew r hr
  · intro r _
    simp

theorem filter_replaced_other {ρ : Type} {file : ρ → Int} {i j : Int} (hj : j ≠ i) {new : List ρ}
    (hnew : ∀ r ∈ new, file r = i) (rows : List ρ) :
    (rows.filter (file · != i) ++ new).filter (file · == j) = rows.filter (file · == j) := by
  rw [List.filter_append, @List.filter_eq_nil_iff _ _ new |>.mpr, List.append_nil]
  · exact @filter_fileId_filter _ file (fun k => k != i) j (by simpa using hj) rows
  · intro r hr
    simpa [hnew r hr] using hj.symm

/-- **What storing a file does.** -/
theorem persist_spec (h : s.Sound) {stats : WriteStats} {t : Store}
    (ht : s.persist now p f o = .ok (stats, t)) :
    ∃ i, s.Persisted now p f o i t ∧ stats = s.statsOf i o ∧ t.Sound := by
  rw [persist_eq h] at ht
  cases hu : s.upsertFile now p f with
  | error e => rw [hu] at ht; cases ht
  | ok x =>
    obtain ⟨i, s'⟩ := x
    rw [hu] at ht
    cases ht
    have hs' : s'.Sound := h.upsertFile hu
    obtain ⟨hproj, files, hup, rfl⟩ := upsertFile_spec h.keyed hu
    have hown : (s.withFiles files).ownsFile p i = true :=
      ownsFile_iff.mpr ⟨_, hup.id_mem, rfl, rfl⟩
    have hhas : (s.withFiles files).HasFile i := ⟨_, hup.id_mem, rfl⟩
    have hrows : ∀ x ∈ (s.reconciled i o.symbols).rows.map (·.2),
        x ∈ ((s.withFiles files).replaceSymbols i (s.reconciled i o.symbols)).symbols ∧
          x.fileId = i := fun x hx =>
      ⟨@reconciled_mem (s.withFiles files) i o.symbols hs'.keyed x hx,
        reconciled_fileId i o.symbols hx⟩
    have himp : ∀ r ∈ numbered (importRow i f.relativePath) s.last.imports o.imports,
        r.fileId = i := fun r hr => by
      obtain ⟨_, _, -, rfl⟩ := exists_of_mem_numbered hr
      rfl
    have hrel : ∀ (t : Store), ∀ r ∈ numbered (t.edgeRow p i f.relativePath
        (s.reconciled i o.symbols)) s.last.relationships o.edges, r.fileId = i := fun t r hr => by
      obtain ⟨_, _, -, rfl⟩ := exists_of_mem_numbered hr
      rfl
    have href : ∀ (t : Store), ∀ r ∈ numbered (t.useRow p i f.relativePath
        (s.reconciled i o.symbols)) s.last.references o.uses, r.fileId = i := fun t r hr => by
      obtain ⟨_, _, -, rfl⟩ := exists_of_mem_numbered hr
      rfl
    refine ⟨i, ?_, rfl, (hs'.replaceSymbols i o.symbols hhas).replaceLinks p i f.relativePath _ o
      hown hrows⟩
    exact {
      project := hproj
      projects := rfl
      upserted := hu
      files := hup
      symbols := fun y => @mem_replaceSymbols (s.withFiles files) i o.symbols hs'.keyed y
      otherSymbols := fun j hj =>
        @symbolsIn_replaceSymbols (s.withFiles files) i o.symbols hs'.keyed j hj
      imports := filter_replaced_self himp _
      relationships := filter_replaced_self (hrel _) _
      references := filter_replaced_self (href _) _
      otherImports := fun j hj => filter_replaced_other hj himp _
      otherRelationships := fun j hj => (filter_replaced_other hj (hrel _) _).trans
        (relationshipsIn_dropSymbols _ _)
      otherReferences := fun j hj => (filter_replaced_other hj (href _) _).trans
        (referencesIn_dropSymbols _ _)
      last := rfl }

/-- A file of a project that exists can always be stored. -/
theorem exists_persist (h : s.Sound) (hp : ∃ r ∈ s.projects, r.id = p) (now : Int) (f : SourceFile)
    (o : Outline) : ∃ stats t, s.persist now p f o = .ok (stats, t) := by
  rw [persist_eq h]
  have hany : s.projects.any (·.id == p) = true := by simpa using hp
  unfold upsertFile
  simp only [hany, bind, Except.bind, Bool.not_true, Bool.false_eq_true, if_false]
  split <;> exact ⟨_, _, rfl⟩

/-- A file of a project that does not exist cannot be stored. -/
theorem persist_missing (h : s.Sound) (hp : ¬ ∃ r ∈ s.projects, r.id = p) :
    s.persist now p f o = .error .missingOwner := by
  rw [persist_eq h]
  have hany : s.projects.any (·.id == p) = false := by simpa using hp
  unfold upsertFile
  simp only [hany, bind, Except.bind, Bool.not_false, if_true]
  rfl

end Persist

/-! ## Sequences of writes -/

theorem Sound.afterWrite {α : Type} (h : s.Sound) {x : StoreM (α × Store)}
    (hx : ∀ a t, x = .ok (a, t) → t.Sound) : (afterWrite s x).Sound := by
  cases x with
  | error e => exact h
  | ok y => exact hx y.1 y.2 rfl

/-- A write keeps a store sound. -/
theorem Sound.apply (h : s.Sound) (w : Write) : (s.apply w).Sound := by
  cases w with
  | upsertProject now path name => exact h.afterWrite fun _ _ ht => h.upsertProject ht
  | persist now p f o =>
    refine h.afterWrite fun _ _ ht => ?_
    obtain ⟨_, -, -, ht⟩ := persist_spec h ht
    exact ht
  | removeFile p path => exact h.dropFiles _
  | prune p keep => exact h.dropFiles _
  | resolveLinks p => exact h.resolveLinks p
  | refresh now p => exact h.afterWrite fun _ _ ht => h.refresh ht
  | setWorkflow id w => exact h.setWorkflow id w

/-- **Every sequence of writes leads to a sound store.** -/
theorem Reachable.sound (h : s.Reachable) : s.Sound := by
  induction h with
  | empty => exact sound_empty
  | write _ w ih => exact ih.apply w

/-- The state that some writes lead to. -/
def run (ws : List Write) : Store := ws.foldl Store.apply .empty

theorem reachable_run (ws : List Write) : (run ws).Reachable := by
  suffices ∀ s : Store, s.Reachable → (ws.foldl Store.apply s).Reachable from this _ .empty
  induction ws with
  | nil => exact fun s h => h
  | cons w ws ih => exact fun s h => ih _ (h.write w)

/-! ## Referential integrity -/

/-- A symbol has an id and a name, and its file lies in the project of another file. -/
def Resolves (s : Store) (fileId : Int) (name : String) (id : Int) : Prop :=
  ∃ x ∈ s.symbols, x.id = id ∧ x.name = name ∧
    ∃ f ∈ s.files, ∃ g ∈ s.files, f.id = x.fileId ∧ g.id = fileId ∧ f.projectId = g.projectId

theorem Reaches.resolves {i j : Int} {n : String} {link : Option Int} (h : s.Reaches i n link)
    (hj : link = some j) : s.Resolves i n j := by
  obtain ⟨x, hx, hxj, hn, p, hp, hp'⟩ := h j hj
  obtain ⟨f, hf, hfx, hfp⟩ := ownsFile_iff.mp hp
  obtain ⟨g, hg, hgi, hgp⟩ := ownsFile_iff.mp hp'
  exact ⟨x, hx, hxj, hn, f, hf, g, hg, hfx, hgi, hfp.trans hgp.symm⟩

/-- **Referential integrity.** After any writes, those that failed included, a project has one file
row at a path; every row has an owner; the target of a use and both ends of an edge that are resolved
are symbols of the stored names in the same project; and what a use lies in is a symbol of its own
file. -/
theorem Reachable.referential_integrity (h : s.Reachable) :
    (s.files.map fun f => (f.projectId, f.relativePath)).Nodup ∧
    (∀ f ∈ s.files, ∃ p ∈ s.projects, p.id = f.projectId) ∧
    (∀ r ∈ s.symbols, ∃ f ∈ s.files, f.id = r.fileId) ∧
    (∀ r ∈ s.imports, ∃ f ∈ s.files, f.id = r.fileId) ∧
    (∀ r ∈ s.relationships, ∃ f ∈ s.files, f.id = r.fileId) ∧
    (∀ r ∈ s.references, ∃ f ∈ s.files, f.id = r.fileId) ∧
    (∀ r ∈ s.references, ∀ i, r.targetId = some i → s.Resolves r.fileId r.target i) ∧
    (∀ r ∈ s.relationships, ∀ i, r.targetId = some i → s.Resolves r.fileId r.target i) ∧
    (∀ r ∈ s.relationships, ∀ i, r.sourceId = some i → s.Resolves r.fileId r.source i) ∧
    ∀ r ∈ s.references, ∀ i, r.sourceId = some i → ∃ x ∈ s.symbols, x.id = i ∧ x.fileId = r.fileId := by
  have hs := h.sound
  refine ⟨hs.keyed.filePaths, hs.owned.files, hs.owned.symbols, hs.owned.imports,
    hs.owned.relationships, hs.owned.references, ?_, ?_, ?_, hs.linked.users⟩
  · exact fun r hr i hi => (hs.linked.uses r hr).resolves hi
  · exact fun r hr i hi => (hs.linked.targets r hr).resolves hi
  · exact fun r hr i hi => (hs.linked.sources r hr).resolves hi

/-- Two files of a project, the second of which calls into the first, and a write that fails. -/
def crossFile : List Write :=
  [.upsertProject 0 "/p" "p",
    .persist 0 1 { relativePath := "a.go" } { symbols := [{ name := "f" }] },
    .persist 0 1 { relativePath := "b.go" }
      { symbols := [{ name := "g" }]
        edges := [{ kind := .calls, source := "g", target := "f", line := 2 }]
        uses := [⟨.call, some "g", "f", none, 2, 3⟩] },
    .persist 0 7 { relativePath := "c.go" } {}]

/-- A call in one file is linked to a symbol of its name in another. -/
theorem referential_integrity_crossFile :
    (run crossFile).references.map (fun r => (r.fileId, r.target, r.targetId)) =
      [(2, "f", some 1)] ∧ (run crossFile).Resolves 2 "f" 1 := by
  have hrefs : (run crossFile).references.map (fun r => (r.fileId, r.target, r.targetId)) =
      [(2, "f", some 1)] := by decide +kernel
  obtain ⟨-, -, -, -, -, -, huses, -⟩ := (reachable_run crossFile).referential_integrity
  refine ⟨hrefs, ?_⟩
  obtain ⟨r, hr, he⟩ := List.mem_map.mp (hrefs ▸ List.mem_singleton_self (2, "f", some 1))
  obtain ⟨h1, h2, h3⟩ : r.fileId = 2 ∧ r.target = "f" ∧ r.targetId = some 1 := by simpa using he
  have := huses r hr 1 h3
  rwa [h1, h2] at this

end CodeAtlas.Store
