import Mathlib.Data.List.Induction
import CodeAtlas.Indexing.Run
import CodeAtlas.Proofs.Frame

/-!
# Files that are stored one after the other

* `Archive.logged`: a log of files that are stored.
* `Archive.Stays`: a file is left alone. **`Stays.logged`**: a log leaves every file alone that is not
  in it.
* `Archive.Rewritten`: a file was stored, and its rows depend only on those it had at the start.
  **`exists_rewritten`**: so is every file of a log.
* `Store.tally`: what storing some files touches, as seen from the start. **`logged_counters`**: the
  counters move on by it. `tally_perm`: the order does not matter.
-/

namespace CodeAtlas

/-- A file with its outline, ready to be stored. -/
abbrev Parsed := SourceFile × Outline

/-- The paths of some files. -/
def logPaths (log : List Parsed) : List String := log.map (·.1.relativePath)

/-- The write that stores a file. -/
def RunTarget.write (t : RunTarget) (x : Parsed) : Write := .persist t.now t.project x.1 x.2

/-- Counters that have not gone back. -/
structure Counters.Le (c d : Counters) : Prop where
  files : c.files ≤ d.files
  symbols : c.symbols ≤ d.symbols
  imports : c.imports ≤ d.imports
  relationships : c.relationships ≤ d.relationships
  references : c.references ≤ d.references

theorem Counters.Le.refl (c : Counters) : c.Le c :=
  ⟨Int.le_refl _, Int.le_refl _, Int.le_refl _, Int.le_refl _, Int.le_refl _⟩

theorem Counters.Le.trans {c d e : Counters} (h : c.Le d) (h' : d.Le e) : c.Le e :=
  ⟨Int.le_trans h.files h'.files, Int.le_trans h.symbols h'.symbols,
    Int.le_trans h.imports h'.imports, Int.le_trans h.relationships h'.relationships,
    Int.le_trans h.references h'.references⟩

theorem Store.Persisted.last_le {s u : Store} {now p i : Int} {f : SourceFile} {o : Outline}
    (h : s.Persisted now p f o i u) : s.last.Le u.last := by
  rw [h.last]
  have hsym := (@reconcile_issued i s.last.symbols (s.rowsOfFile i) o.symbols).1
  exact ⟨by dsimp only; omega, hsym, by dsimp only; omega, by dsimp only; omega,
    by dsimp only; omega⟩

/-- An id for the file at a path: the one it has, or one that was not given out yet. -/
def Store.IdFor (s : Store) (p : Int) (path : String) (i : Int) : Prop :=
  (∃ g ∈ s.files, g.id = i ∧ g.projectId = p ∧ g.relativePath = path) ∨
    s.last.files < i ∧ ∀ g ∈ s.files, ¬ (g.projectId = p ∧ g.relativePath = path)

namespace Archive

variable {a b c : Archive} {t : RunTarget} {x : Parsed} {log : List Parsed} {g : FileRow}

/-- Some files stored one after the other. -/
def logged (a : Archive) (t : RunTarget) (log : List Parsed) : Archive :=
  (log.map t.write).foldl Archive.apply a

theorem logged_cons (a : Archive) (t : RunTarget) (x : Parsed) (log : List Parsed) :
    a.logged t (x :: log) = (a.apply (t.write x)).logged t log := rfl

theorem logged_append (a : Archive) (t : RunTarget) (log log' : List Parsed) :
    a.logged t (log ++ log') = (a.logged t log).logged t log' := by
  rw [logged, List.map_append, List.foldl_append]
  rfl

theorem Faithful.logged (h : a.Faithful) (t : RunTarget) (log : List Parsed) :
    (a.logged t log).Faithful := by
  induction log generalizing a with
  | nil => exact h
  | cons x log ih => exact ih (h.apply _)

/-- A file was stored: what became of the store, and its filing. -/
structure Wrote (t : RunTarget) (x : Parsed) (i : Int) (a b : Archive) : Prop where
  result : a.store.persist t.now t.project x.1 x.2 = .ok (a.store.statsOf i x.2, b.store)
  persisted : a.store.Persisted t.now t.project x.1 x.2 i b.store
  filed : b.filed = fun q path =>
    if q = t.project ∧ path = x.1.relativePath then
      some ⟨x.2, ((a.store.reconciled i x.2.symbols).rows.map (·.2)).map (·.id)⟩
    else a.filed q path

/-- A write stores its file, or does nothing where the project is missing. -/
theorem apply_write (h : a.Faithful) (t : RunTarget) (x : Parsed) :
    (∃ i, Wrote t x i a (a.apply (t.write x))) ∨
      (¬ ∃ r ∈ a.store.projects, r.id = t.project) ∧ a.apply (t.write x) = a := by
  by_cases hp : ∃ r ∈ a.store.projects, r.id = t.project
  · obtain ⟨stats, u, hu⟩ := Store.exists_persist h.sound hp t.now x.1 x.2
    obtain ⟨i, hper, rfl, -⟩ := Store.persist_spec h.sound hu
    have hstore : (a.apply (t.write x)).store = u := by
      simp only [Archive.apply, RunTarget.write, Store.apply, hu]
      rfl
    refine Or.inl ⟨i, by rw [hstore]; exact hu, by rw [hstore]; exact hper, ?_⟩
    have hfiling : a.store.filingOf t.now t.project x.1 x.2 =
        ⟨x.2, ((a.store.reconciled i x.2.symbols).rows.map (·.2)).map (·.id)⟩ := by
      unfold Store.filingOf
      rw [hper.upserted]
      rfl
    simp only [Archive.apply, RunTarget.write, filedAfter, hu, hfiling]
  · refine Or.inr ⟨hp, ?_⟩
    have hu := @Store.persist_missing a.store t.now t.project x.1 x.2 h.sound hp
    simp only [Archive.apply, RunTarget.write, Store.apply, filedAfter, hu]
    rfl

/-! ## Files that are left alone -/

/-- A file is at a path of the log. -/
def Touched (t : RunTarget) (log : List Parsed) (g : FileRow) : Prop :=
  g.projectId = t.project ∧ g.relativePath ∈ logPaths log

/-- **A file is left alone.** -/
structure Stays (p : Int) (a b : Archive) (g : FileRow) : Prop where
  mem : g ∈ b.store.files
  rows : Store.SameRows a.store b.store g.id
  links : g.projectId ≠ p → Store.SameLinks a.store b.store g.id
  filed : b.filed g.projectId g.relativePath = a.filed g.projectId g.relativePath

theorem Stays.refl (p : Int) (hg : g ∈ a.store.files) : Stays p a a g :=
  ⟨hg, .refl _ _, fun _ => .refl _ _, rfl⟩

theorem Stays.trans {p : Int} (h : Stays p a b g) (h' : Stays p b c g) : Stays p a c g :=
  ⟨h'.mem, h.rows.trans h'.rows, fun hp => (h.links hp).trans (h'.links hp),
    h'.filed.trans h.filed⟩

theorem Wrote.stays {i : Int} (h : a.Faithful) (hw : Wrote t x i a b) (hg : g ∈ a.store.files)
    (hne : ¬ (g.projectId = t.project ∧ g.relativePath = x.1.relativePath)) :
    Stays t.project a b g := by
  have hs := h.sound
  have hi : g.id ≠ i := by
    rintro rfl
    rcases hw.persisted.files.old_or_new with ⟨old, hold, hid, hp, hr⟩ | ⟨hk, -⟩
    · rw [hs.keyed.file_eq hold hg hid] at hp hr
      exact hne ⟨hp, hr⟩
    · have hb := hs.keyed.files.bound _ (List.mem_map_of_mem hg)
      omega
  exact ⟨(hw.persisted.files.mem_iff hs.keyed).mpr (Or.inr ⟨hg, hi⟩), hw.persisted.sameRows hs hi,
    fun hp => hw.persisted.sameLinks hs hg hp hi, by rw [hw.filed]; exact if_neg hne⟩

/-- **A log leaves every file alone that is not in it.** -/
theorem Stays.logged (h : a.Faithful) (hg : g ∈ a.store.files) (hne : ¬ Touched t log g) :
    Stays t.project a (a.logged t log) g := by
  induction log generalizing a with
  | nil => exact .refl _ hg
  | cons x log ih =>
    have hx : ¬ (g.projectId = t.project ∧ g.relativePath = x.1.relativePath) := fun hk =>
      hne ⟨hk.1, by rw [hk.2]; exact List.mem_cons_self⟩
    have hlog : ¬ Touched t log g := fun hk => hne ⟨hk.1, List.mem_cons_of_mem _ hk.2⟩
    have hstep : Stays t.project a (a.apply (t.write x)) g := by
      rcases apply_write h t x with ⟨i, hw⟩ | ⟨-, he⟩
      · exact hw.stays h hg hx
      · rw [he]; exact .refl _ hg
    exact hstep.trans (ih (h.apply _) hstep.mem hlog)

/-- A log brings no file but its own. -/
theorem mem_of_mem_logged (h : a.Faithful) (hg : g ∈ (a.logged t log).store.files)
    (hne : ¬ Touched t log g) : g ∈ a.store.files := by
  induction log generalizing a with
  | nil => exact hg
  | cons x log ih =>
    have hlog : ¬ Touched t log g := fun hk => hne ⟨hk.1, List.mem_cons_of_mem _ hk.2⟩
    have hmem := ih (h.apply _) hg hlog
    rcases apply_write h t x with ⟨i, hw⟩ | ⟨-, he⟩
    · rcases (hw.persisted.files.mem_iff h.sound.keyed).mp hmem with rfl | ⟨hmem, -⟩
      · exact absurd ⟨rfl, List.mem_cons_self⟩ hne
      · exact hmem
    · rw [he] at hmem
      exact hmem

/-- A log keeps the row of every file that was there. -/
theorem exists_mem_logged (h : a.Faithful) (hg : g ∈ a.store.files) (t : RunTarget)
    (log : List Parsed) : ∃ g' ∈ (a.logged t log).store.files, g'.id = g.id ∧
      g'.projectId = g.projectId ∧ g'.relativePath = g.relativePath := by
  induction log generalizing a g with
  | nil => exact ⟨g, hg, rfl, rfl, rfl⟩
  | cons x log ih =>
    have hstep : ∃ g' ∈ (a.apply (t.write x)).store.files, g'.id = g.id ∧
        g'.projectId = g.projectId ∧ g'.relativePath = g.relativePath := by
      rcases apply_write h t x with ⟨i, hw⟩ | ⟨-, he⟩
      · by_cases hk : g.projectId = t.project ∧ g.relativePath = x.1.relativePath
        · refine ⟨_, hw.persisted.files.id_mem, ?_, hk.1.symm, hk.2.symm⟩
          by_contra hne
          exact hw.persisted.files.path_ne h.sound.keyed hg (fun he => hne he.symm) hk
        · exact ⟨g, (hw.stays h hg hk).mem, rfl, rfl, rfl⟩
      · rw [he]; exact ⟨g, hg, rfl, rfl, rfl⟩
    obtain ⟨g', hg', hid, hp, hr⟩ := hstep
    obtain ⟨g'', hg'', hid', hp', hr'⟩ := ih (h.apply _) hg'
    exact ⟨g'', hg'', hid'.trans hid, hp'.trans hp, hr'.trans hr⟩

theorem logged_projects (h : a.Faithful) : (a.logged t log).store.projects = a.store.projects := by
  induction log generalizing a with
  | nil => rfl
  | cons x log ih =>
    rw [logged_cons, ih (h.apply _)]
    rcases apply_write h t x with ⟨i, hw⟩ | ⟨-, he⟩
    · exact hw.persisted.projects
    · rw [he]

theorem logged_last (h : a.Faithful) : a.store.last.Le (a.logged t log).store.last := by
  induction log generalizing a with
  | nil => exact .refl _
  | cons x log ih =>
    refine Counters.Le.trans ?_ (ih (h.apply _))
    rcases apply_write h t x with ⟨i, hw⟩ | ⟨-, he⟩
    · exact hw.persisted.last_le
    · rw [he]; exact .refl _

/-! ## Files of the log -/

/-- **A file was stored**, and its rows depend only on those it had at the start. -/
structure Rewritten (t : RunTarget) (a₀ a : Archive) (x : Parsed) (i last : Int) : Prop where
  issued : a₀.store.last.symbols ≤ last
  file : Store.fileRow t.now t.project i x.1 ∈ a.store.files
  id : a₀.store.IdFor t.project x.1.relativePath i
  filed : a.filed t.project x.1.relativePath = some ⟨x.2,
    ((reconcile i last (a₀.store.rowsOfFile i) x.2.symbols).rows.map (·.2)).map (·.id)⟩
  symbols : ∀ y ∈ (reconcile i last (a₀.store.rowsOfFile i) x.2.symbols).rows.map (·.2),
    y ∈ a.store.symbols
  imports : ∀ r ∈ a.store.importsIn i, a₀.store.last.imports < r.id
  relationships : ∀ r ∈ a.store.relationshipsIn i, a₀.store.last.relationships < r.id
  references : ∀ r ∈ a.store.referencesIn i, a₀.store.last.references < r.id

theorem lt_of_mem_numbered {α β : Type} {f : Int → α → β} (key : β → Int)
    (hf : ∀ i a, key (f i a) = i) {last : Int} {xs : List α} {r : β}
    (hr : r ∈ Store.numbered f last xs) : last < key r :=
  (Store.issued_numbered hf last xs).2 _ (List.mem_map_of_mem hr)

theorem Wrote.rewritten {i : Int} (hw : Wrote t x i a b) :
    Rewritten t a b x i a.store.last.symbols where
  issued := Int.le_refl _
  file := hw.persisted.files.id_mem
  id := hw.persisted.files.old_or_new.imp_right fun h => ⟨by omega, h.2⟩
  filed := by rw [hw.filed]; exact if_pos ⟨rfl, rfl⟩
  symbols := fun y hy => (hw.persisted.symbols y).mpr (Or.inr hy)
  imports := fun r hr => by
    rw [hw.persisted.imports] at hr
    exact lt_of_mem_numbered (fun r : ImportRow => r.id) (fun _ _ => rfl) hr
  relationships := fun r hr => by
    rw [hw.persisted.relationships] at hr
    exact lt_of_mem_numbered (fun r : RelationshipRow => r.id) (fun _ _ => rfl) hr
  references := fun r hr => by
    rw [hw.persisted.references] at hr
    exact lt_of_mem_numbered (fun r : ReferenceRow => r.id) (fun _ _ => rfl) hr

/-- A file that was stored stays so when it is left alone. -/
theorem Rewritten.stays {a₀ : Archive} {i last : Int} (h : Rewritten t a₀ a x i last)
    (hst : Stays t.project a b (Store.fileRow t.now t.project i x.1)) :
    Rewritten t a₀ b x i last := by
  have hrows : Store.SameRows a.store b.store i := hst.rows
  refine ⟨h.issued, hst.mem, h.id, hst.filed.trans h.filed, fun y hy => ?_, fun r hr => ?_,
    fun r hr => ?_, fun r hr => ?_⟩
  · have hi : y.fileId = i := reconcile_fileId (fun _ hr => (Store.mem_rowsOfFile.mp hr).2) hy
    have hmem : y ∈ a.store.symbolsIn i := Store.mem_symbolsIn.mpr ⟨h.symbols y hy, hi⟩
    rw [← hrows.symbols] at hmem
    exact (Store.mem_symbolsIn.mp hmem).1
  · rw [hrows.imports] at hr
    exact h.imports r hr
  · have hmem : r.id ∈ (b.store.relationshipsIn i).map (·.id) := List.mem_map_of_mem hr
    rw [hrows.relationshipIds] at hmem
    obtain ⟨r', hr', he⟩ := List.mem_map.mp hmem
    rw [← he]
    exact h.relationships r' hr'
  · have hmem : r.id ∈ (b.store.referencesIn i).map (·.id) := List.mem_map_of_mem hr
    rw [hrows.referenceIds] at hmem
    obtain ⟨r', hr', he⟩ := List.mem_map.mp hmem
    rw [← he]
    exact h.references r' hr'

/-- An id that was not given out yet has no rows. -/
theorem rowsOfFile_eq_nil {s : Store} (h : s.Sound) {i : Int} (hi : s.last.files < i) :
    s.rowsOfFile i = [] := by
  refine List.eq_nil_iff_forall_not_mem.mpr fun r hr => ?_
  obtain ⟨hr, hri⟩ := Store.mem_rowsOfFile.mp hr
  obtain ⟨g, hg, hgi⟩ := h.owned.symbols r hr
  have hb := h.keyed.files.bound _ (List.mem_map_of_mem hg)
  omega

/-- Before a file of the log comes up, its rows are those it had at the start. -/
theorem rowsOfFile_logged (h : a.Faithful) (hx : x.1.relativePath ∉ logPaths log) {i : Int}
    (hi : (a.logged t log).store.IdFor t.project x.1.relativePath i) :
    a.store.IdFor t.project x.1.relativePath i ∧
      (a.logged t log).store.rowsOfFile i = a.store.rowsOfFile i := by
  rcases hi with ⟨g, hg, hgi, hp, hr⟩ | ⟨hlt, hnew⟩
  · have hne : ¬ Touched t log g := fun hk => hx (by rw [← hr]; exact hk.2)
    have hmem := mem_of_mem_logged h hg hne
    have hsym := (Stays.logged h hmem hne).rows.symbols
    rw [hgi] at hsym
    refine ⟨Or.inl ⟨g, hmem, hgi, hp, hr⟩, ?_⟩
    change sortBy _ ((a.logged t log).store.symbolsIn i) = sortBy _ (a.store.symbolsIn i)
    rw [hsym]
  · have hlt' : a.store.last.files < i := Int.lt_of_le_of_lt (logged_last h).files hlt
    refine ⟨Or.inr ⟨hlt', fun g hg hk => ?_⟩, ?_⟩
    · obtain ⟨g', hg', -, hp, hr⟩ := exists_mem_logged h hg t log
      exact hnew g' hg' ⟨hp.trans hk.1, hr.trans hk.2⟩
    · rw [rowsOfFile_eq_nil (h.logged t log).sound hlt, rowsOfFile_eq_nil h.sound hlt']

/-- **Every file of a log was stored.** -/
theorem exists_rewritten (h : a.Faithful) (hp : ∃ r ∈ a.store.projects, r.id = t.project)
    (hnd : (logPaths log).Nodup) (hx : x ∈ log) :
    ∃ i last, Rewritten t a (a.logged t log) x i last := by
  obtain ⟨before, after, rfl⟩ := List.append_of_mem hx
  have hpaths : (logPaths before ++ x.1.relativePath :: logPaths after).Nodup := by
    simpa [logPaths] using hnd
  have hbefore : x.1.relativePath ∉ logPaths before := fun hmem =>
    (List.disjoint_of_nodup_append hpaths) hmem List.mem_cons_self
  have hafter : x.1.relativePath ∉ logPaths after :=
    (List.nodup_cons.mp (List.Nodup.of_append_right hpaths)).1
  have hb := h.logged t before
  rw [logged_append, logged_cons]
  rcases apply_write hb t x with ⟨i, hw⟩ | ⟨hmiss, -⟩
  · refine ⟨i, (a.logged t before).store.last.symbols, ?_⟩
    have hrw := hw.rewritten
    obtain ⟨hid, hrows⟩ := rowsOfFile_logged h hbefore hrw.id
    have hle := @logged_last a t before h
    -- seen from the start, the rows and the counters are those before the write or later ones
    have hstart : Rewritten t a ((a.logged t before).apply (t.write x)) x i
        (a.logged t before).store.last.symbols :=
      { issued := hle.symbols
        file := hrw.file
        id := hid
        filed := by rw [← hrows]; exact hrw.filed
        symbols := by rw [← hrows]; exact hrw.symbols
        imports := fun r hr => Int.lt_of_le_of_lt hle.imports (hrw.imports r hr)
        relationships := fun r hr => Int.lt_of_le_of_lt hle.relationships (hrw.relationships r hr)
        references := fun r hr => Int.lt_of_le_of_lt hle.references (hrw.references r hr) }
    exact hstart.stays (Stays.logged (hb.apply _) hstart.file fun hk => hafter hk.2)
  · rw [logged_projects h] at hmiss
    exact absurd hp hmiss

/-! ## What a log touches -/

end Archive

theorem Store.statsOf_congr {s u : Store} {i k : Int} (h : s.rowsOfFile i = u.rowsOfFile k)
    (o : Outline) : s.statsOf i o = u.statsOf k o := by
  have hcount : ∀ fate, (s.reconciled i o.symbols).count fate =
      (u.reconciled k o.symbols).count fate := by
    intro fate
    unfold Store.reconciled
    rw [h]
    exact reconcile_count ..
  have hremoved : (s.reconciled i o.symbols).removed = (u.reconciled k o.symbols).removed := by
    unfold Store.reconciled
    rw [h]
    exact (reconcile_twins (Int.min_le_left ..) (Int.min_le_right ..) _ _).2
  simp only [Store.statsOf, hcount, hremoved]

/-- What storing a file touches. -/
def Store.statsFor (s : Store) (p : Int) (x : Parsed) : WriteStats :=
  let old := s.files.find? fun g => g.projectId == p && g.relativePath == x.1.relativePath
  s.statsOf ((old.map (·.id)).getD (s.last.files + 1)) x.2

theorem Store.statsOf_eq_statsFor {s : Store} (h : s.Sound) {p i : Int} {x : Parsed}
    (hi : s.IdFor p x.1.relativePath i) : s.statsOf i x.2 = s.statsFor p x := by
  refine Store.statsOf_congr ?_ x.2
  cases hf : s.files.find? fun g => g.projectId == p && g.relativePath == x.1.relativePath with
  | some g =>
    have hmem := List.mem_of_find?_eq_some hf
    have hkey : g.projectId = p ∧ g.relativePath = x.1.relativePath := by
      simpa using List.find?_some hf
    rcases hi with ⟨g', hg', rfl, hp, hr⟩ | ⟨-, hnew⟩
    · rw [h.keyed.file_eq_of_path hg' hmem (hp.trans hkey.1.symm) (hr.trans hkey.2.symm)]
      rfl
    · exact absurd hkey (hnew g hmem)
  | none =>
    rcases hi with ⟨g', hg', -, hp, hr⟩ | ⟨hlt, -⟩
    · refine absurd (List.find?_eq_none.mp hf g' hg') ?_
      simp [hp, hr]
    · rw [Archive.rowsOfFile_eq_nil h hlt]
      exact (Archive.rowsOfFile_eq_nil h (Int.lt_succ _)).symm

/-- What storing some files touches, as seen from the start. -/
def Store.tally (s : Store) (p : Int) (log : List Parsed) : WriteStats :=
  log.foldl (fun w x => w.merge (s.statsFor p x)) {}

theorem Store.tally_append (s : Store) (p : Int) (log : List Parsed) (x : Parsed) :
    s.tally p (log ++ [x]) = (s.tally p log).merge (s.statsFor p x) := by
  rw [Store.tally, List.foldl_append]
  rfl

/-- The order in which files are stored does not matter to what is touched. -/
theorem Store.tally_perm (s : Store) (p : Int) {log log' : List Parsed} (h : log.Perm log') :
    s.tally p log = s.tally p log' := by
  have hcomm : RightCommutative fun w x => WriteStats.merge w (s.statsFor p x) := ⟨fun w x y => by
    simp only [WriteStats.merge, WriteStats.mk.injEq]
    omega⟩
  exact h.foldl_eq ({} : WriteStats)

/-- The counters after something was written. -/
def Counters.after (c : Counters) (w : WriteStats) : Counters where
  projects := c.projects
  files := c.files + w.filesWritten
  symbols := c.symbols + w.symbolsInserted
  imports := c.imports + w.importsWritten
  relationships := c.relationships + w.relationshipsWritten
  references := c.references + w.referencesWritten

theorem Counters.after_merge (c : Counters) (v w : WriteStats) :
    c.after (v.merge w) = (c.after v).after w := by
  simp [Counters.after, WriteStats.merge, Int.add_assoc]

namespace Archive

variable {a b : Archive} {t : RunTarget} {x : Parsed} {log : List Parsed}

theorem Wrote.counters {i : Int} (hw : Wrote t x i a b) :
    b.store.last = a.store.last.after (a.store.statsOf i x.2) := by
  rw [hw.persisted.last, reconcile_last]
  rfl

/-- **What storing one more file touches is what it touches at the start.** -/
theorem exists_wrote (h : a.Faithful) (hp : ∃ r ∈ a.store.projects, r.id = t.project)
    (hx : x.1.relativePath ∉ logPaths log) :
    ∃ i, Wrote t x i (a.logged t log) (a.logged t (log ++ [x])) ∧
      (a.logged t log).store.statsOf i x.2 = a.store.statsFor t.project x := by
  rw [logged_append]
  rcases apply_write (h.logged t log) t x with ⟨i, hw⟩ | ⟨hmiss, -⟩
  · obtain ⟨hid, hrows⟩ := rowsOfFile_logged h hx hw.rewritten.id
    exact ⟨i, hw, (Store.statsOf_congr hrows x.2).trans (Store.statsOf_eq_statsFor h.sound hid)⟩
  · rw [logged_projects h] at hmiss
    exact absurd hp hmiss

/-- **The counters move on by what is touched.** -/
theorem logged_counters (h : a.Faithful) (hp : ∃ r ∈ a.store.projects, r.id = t.project)
    (hnd : (logPaths log).Nodup) :
    (a.logged t log).store.last = a.store.last.after (a.store.tally t.project log) := by
  induction log using List.reverseRecOn with
  | nil => simp [logged, Store.tally, Counters.after]
  | append_singleton log x ih =>
    rw [logPaths, List.map_append, List.map_singleton] at hnd
    have hx : x.1.relativePath ∉ logPaths log := fun hmem =>
      (List.disjoint_of_nodup_append hnd) hmem (List.mem_singleton_self _)
    obtain ⟨i, hw, hstats⟩ := exists_wrote h hp hx
    rw [hw.counters, hstats, ih (List.Nodup.of_append_left hnd), Store.tally_append,
      Counters.after_merge]

end Archive

end CodeAtlas
