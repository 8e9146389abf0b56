import CodeAtlas.Proofs.Rank

/-!
# What a write counts

A file that is stored again has one row for each of its declarations, and the write says how many of
these are new, rewritten, moved or left alone, and how many rows went.

* `Reconciled.count_fates`: each declaration is counted once.
* `reconcile_removed`: of the rows of one name and kind, those without a declaration of their rank go.
* **`reconcile_survivors`**: as many stay as there are both rows and declarations.
* `Store.symbolsAt`: the symbols of the file at a path.
* **`Store.Reachable.symbols_accounted`**: what storing a file does to its symbols, in numbers.
-/

namespace CodeAtlas

/-! ## Fates -/

namespace Reconciled

/-- Each declaration has one fate. -/
theorem count_fates (r : Reconciled) :
    r.count .inserted + r.count .updated + r.count .moved + r.count .kept = r.rows.length := by
  unfold count
  induction r.rows with
  | nil => rfl
  | cons x rows ih =>
    obtain ⟨fate, row⟩ := x
    cases fate <;>
      · simp only [List.filter_cons, List.length_cons, beq_self_eq_true, if_true, reduceCtorEq,
          beq_iff_eq, if_false]
        omega

theorem length_kept (r : Reconciled) :
    r.kept.length = r.count .updated + r.count .moved + r.count .kept := by
  have hperm := r.rows_perm.length_eq
  have hfresh : r.fresh.length = r.count .inserted := List.length_map _
  have hfates := r.count_fates
  rw [List.length_append, List.length_map] at hperm
  omega

end Reconciled

/-! ## Rows that stay and rows that go -/

section Survivors

variable {fileId last : Int} {stored : List SymbolRow}

/-- **Of the rows of one name and kind, the first ones stay**, one for each declaration. -/
theorem reconcile_removed (last : Int) (hflaws : ∀ r ∈ stored, r.flaws = [])
    (ds : List Declaration) (c : String × SymbolKind) :
    (reconcile fileId last stored ds).removed.filter (·.handle == c) =
      (stored.filter (·.handle == c)).drop (ds.countP (·.handle == c)) := by
  induction ds generalizing last stored with
  | nil => simp [reconcile]
  | cons d ds ih =>
    cases h : takeFirst (·.standsFor d) stored with
    | some x =>
      obtain ⟨row, rest⟩ := x
      obtain ⟨hrest, hgroup⟩ := filter_handle_of_takeFirst hflaws h
      rw [reconcile_cons_matched ds h, hgroup c]
      by_cases hc : d.handle = c
      · rw [if_pos hc, List.countP_cons_of_pos (by simpa using hc), List.drop_succ_cons]
        exact ih last hrest
      · rw [if_neg hc, List.countP_cons_of_neg (by simpa using hc)]
        exact ih last hrest
    | none =>
      rw [reconcile_cons_new ds h]
      have hih := ih (last + 1) hflaws
      by_cases hc : d.handle = c
      · subst hc
        rw [filter_handle_of_takeFirst_none hflaws h, List.drop_nil] at hih ⊢
        exact hih
      · rw [List.countP_cons_of_neg (by simpa using hc)]
        exact hih

/-- Rows that go were there. -/
theorem mem_of_mem_removed (hflaws : ∀ r ∈ stored, r.flaws = []) (ds : List Declaration)
    {r : SymbolRow} (hr : r ∈ (reconcile fileId last stored ds).removed) : r ∈ stored := by
  have hmem : r ∈ (reconcile fileId last stored ds).removed.filter (·.handle == r.handle) :=
    List.mem_filter.mpr ⟨hr, by simp⟩
  rw [reconcile_removed last hflaws] at hmem
  exact List.mem_of_mem_filter (List.mem_of_mem_drop hmem)

/-- A row that was there has its id among the rows if and only if it does not go. -/
theorem id_mem_rows_iff (hnd : (stored.map (·.id)).Nodup) (hbound : ∀ r ∈ stored, r.id ≤ last)
    (hflaws : ∀ r ∈ stored, r.flaws = []) (ds : List Declaration) {r : SymbolRow}
    (hr : r ∈ stored) :
    r.id ∈ ((reconcile fileId last stored ds).rows.map (·.2)).map (·.id) ↔
      r ∉ (reconcile fileId last stored ds).removed := by
  set res := reconcile fileId last stored ds with hres
  have hstored : (res.kept.map (·.id) ++ res.removed.map (·.id)).Perm (stored.map (·.id)) :=
    reconcile_stored last stored ds
  have hfresh : r.id ∉ res.fresh.map (·.id) := fun hmem => by
    have hnew : last < r.id := (reconcile_issued last stored ds).2.2 _ hmem
    have hold := hbound r hr
    omega
  have hgone : r.id ∈ res.removed.map (·.id) ↔ r ∈ res.removed := by
    refine ⟨fun hmem => ?_, List.mem_map_of_mem⟩
    obtain ⟨x, hx, hid⟩ := List.mem_map.mp hmem
    have hxs := mem_of_mem_removed hflaws ds hx
    rwa [← List.inj_on_of_nodup_map hnd hxs hr hid]
  rw [(res.rows_perm.map (·.id)).mem_iff, List.map_append, List.mem_append, or_iff_left hfresh,
    ← hgone]
  constructor
  · exact fun hk hg => (List.disjoint_of_nodup_append (hstored.nodup_iff.mpr hnd)) hk hg
  · intro hg
    have hmem := hstored.mem_iff.mpr (List.mem_map_of_mem hr)
    exact (List.mem_append.mp hmem).resolve_right hg

/-- **As many rows of one name and kind stay as there are both rows and declarations of them.** -/
theorem reconcile_survivors (hnd : (stored.map (·.id)).Nodup) (hbound : ∀ r ∈ stored, r.id ≤ last)
    (hflaws : ∀ r ∈ stored, r.flaws = []) (ds : List Declaration) (c : String × SymbolKind) :
    stored.countP (fun r => r.handle == c &&
        ((reconcile fileId last stored ds).rows.map (·.2)).any (·.id == r.id)) =
      min (stored.countP (·.handle == c)) (ds.countP (·.handle == c)) := by
  set res := reconcile fileId last stored ds with hres
  set group := stored.filter (·.handle == c) with hgroup
  set survives : SymbolRow → Bool := fun r => (res.rows.map (·.2)).any (·.id == r.id) with hsurvives
  have hsurvives_iff : ∀ r ∈ stored, survives r = true ↔ r ∉ res.removed := fun r hr => by
    rw [hres, ← id_mem_rows_iff hnd hbound hflaws ds hr, hsurvives]
    simp only [List.any_eq_true, beq_iff_eq, List.mem_map, hres]
  have hgone : (group.filter fun r => !survives r).Perm (res.removed.filter (·.handle == c)) := by
    have hgroup_nodup : group.Nodup := hnd.of_map.sublist List.filter_sublist
    have hremoved_nodup : (res.removed.filter (·.handle == c)).Nodup := by
      rw [reconcile_removed last hflaws]
      exact hgroup_nodup.sublist (List.drop_sublist _ _)
    refine (List.perm_ext_iff_of_nodup (hgroup_nodup.sublist List.filter_sublist)
      hremoved_nodup).mpr fun r => ?_
    simp only [List.mem_filter, hgroup, Bool.not_eq_true']
    constructor
    · rintro ⟨⟨hr, hc⟩, hs⟩
      refine ⟨?_, hc⟩
      by_contra hkept
      rw [(hsurvives_iff r hr).mpr hkept] at hs
      cases hs
    · rintro ⟨hrem, hc⟩
      have hr := mem_of_mem_removed hflaws ds hrem
      refine ⟨⟨hr, hc⟩, ?_⟩
      rw [Bool.eq_false_iff]
      exact fun hs => (hsurvives_iff r hr).mp hs hrem
  have hgone_count : group.countP (fun r => !survives r) =
      group.length - ds.countP (·.handle == c) := by
    rw [List.countP_eq_length_filter, hgone.length_eq, reconcile_removed last hflaws,
      List.length_drop]
  have hsplit : group.length = group.countP survives + group.countP fun r => !survives r := by
    rw [List.length_eq_countP_add_countP survives]
    simp
  have hcount : stored.countP (fun r => r.handle == c && survives r) = group.countP survives := by
    rw [hgroup, List.countP_filter]
    exact List.countP_congr fun r _ => by rw [Bool.and_comm]
  have hsize : stored.countP (·.handle == c) = group.length := List.countP_eq_length_filter
  rw [hcount, hsize]
  omega

end Survivors

namespace Store

variable {s t : Store} {now p i : Int} {f : SourceFile} {o : Outline}

/-! ## The file at a path -/

/-- Whether a file is that of a project at a path. -/
def isFileAt (s : Store) (p : Int) (path : String) (i : Int) : Bool :=
  s.files.any fun g => g.id == i && g.projectId == p && g.relativePath == path

/-- The symbols of the file of a project at a path. -/
def symbolsAt (s : Store) (p : Int) (path : String) : List SymbolRow :=
  s.symbols.filter fun r => s.isFileAt p path r.fileId

theorem isFileAt_iff {path : String} : s.isFileAt p path i = true ↔
    ∃ g ∈ s.files, g.id = i ∧ g.projectId = p ∧ g.relativePath = path := by
  simp [isFileAt, and_assoc]

theorem Persisted.symbolsAt_after (h : s.Persisted now p f o i t) (ht : t.Keyed) :
    t.symbolsAt p f.relativePath = t.symbolsIn i := by
  refine List.filter_congr fun r _ => ?_
  rw [Bool.eq_iff_iff, isFileAt_iff, beq_iff_eq]
  constructor
  · rintro ⟨g, hg, hid, hproject, hpath⟩
    rw [← hid, ht.file_eq_of_path hg h.files.id_mem hproject hpath]
    rfl
  · rintro hid
    exact ⟨_, h.files.id_mem, hid.symm, rfl, rfl⟩

theorem Persisted.symbolsAt_before (h : s.Persisted now p f o i t) (hs : s.Sound) :
    s.symbolsAt p f.relativePath = s.symbolsIn i := by
  refine List.filter_congr fun r hr => ?_
  rw [Bool.eq_iff_iff, isFileAt_iff, beq_iff_eq]
  constructor
  · rintro ⟨g, hg, hid, hproject, hpath⟩
    rw [← hid, h.id_eq hs.keyed hg hproject hpath]
  · rintro rfl
    rcases h.files.old_or_new with hold | ⟨hnew, -⟩
    · exact hold
    · -- a row of a file that is not there yet
      obtain ⟨g, hg, hid⟩ := hs.owned.symbols r hr
      have hbound := hs.keyed.files.bound _ (List.mem_map_of_mem hg)
      omega

/-! ## Symbols in numbers -/

/-- **Storing a file matches its symbols with its declarations one to one, and counts them right.**
The rows of the file are those of its declarations, each with the name, kind, place and content of
its own; every declaration is counted once, and so is every row there was; and of the rows of one name
and kind, as many ids stay as there are both rows and declarations. -/
theorem Reachable.symbols_accounted (h : s.Reachable) {stats : WriteStats}
    (ht : s.persist now p f o = .ok (stats, t)) :
    (∃ rows, rows.Perm (t.symbolsAt p f.relativePath) ∧ (rows.map (·.id)).Nodup ∧
      List.Forall₂ (fun d r => r.toDeclaration.shape = d.shape) o.symbols rows) ∧
    stats.symbolsInserted + stats.symbolsUpdated + stats.symbolsMoved + stats.symbolsUnchanged =
      o.symbols.length ∧
    stats.symbolsUpdated + stats.symbolsMoved + stats.symbolsUnchanged + stats.symbolsRemoved =
      (s.symbolsAt p f.relativePath).length ∧
    ∀ c : String × SymbolKind,
      (s.symbolsAt p f.relativePath).countP (fun r => r.handle == c &&
          (t.symbolsAt p f.relativePath).any (·.id == r.id)) =
        min ((s.symbolsAt p f.relativePath).countP (·.handle == c))
          (o.symbols.countP (·.handle == c)) := by
  have hs := h.sound
  obtain ⟨i, hp, rfl, hts⟩ := persist_spec hs ht
  set res := s.reconciled i o.symbols with hres
  have hrows : (t.symbolsIn i).Perm (res.rows.map (·.2)) := hp.symbolsIn_perm hs.keyed hts.keyed
  have hshape := @reconcile_shape i s.last.symbols (s.rowsOfFile i) o.symbols
  have hstored : (s.rowsOfFile i).Perm (s.symbolsIn i) := sortBy_perm _ _
  rw [hp.symbolsAt_after hts.keyed, hp.symbolsAt_before hs]
  refine ⟨⟨res.rows.map (·.2), hrows.symm, reconciled_nodup i o.symbols hs.keyed,
    List.forall₂_map_right_iff.mpr hshape⟩, ?_, ?_, fun c => ?_⟩
  · exact res.count_fates.trans hshape.length_eq.symm
  · have hlen := (@reconcile_stored i s.last.symbols (s.rowsOfFile i) o.symbols).length_eq
    rw [List.length_append, List.length_map, List.length_map, List.length_map, Reconciled.length_kept,
      hstored.length_eq] at hlen
    exact hlen
  · have hany : ∀ r : SymbolRow, (t.symbolsIn i).any (·.id == r.id) =
        (res.rows.map (·.2)).any (·.id == r.id) := fun r => by
      rw [Bool.eq_iff_iff, List.any_eq_true, List.any_eq_true]
      simp only [hrows.mem_iff]
    simp only [hany]
    rw [← hstored.countP_eq, ← hstored.countP_eq]
    exact reconcile_survivors (rowsOfFile_nodup hs.keyed i)
      (fun r hr => hs.keyed.symbols.bound _ (List.mem_map_of_mem (mem_rowsOfFile.mp hr).1))
      (fun r hr => hs.flawless.symbols r (mem_rowsOfFile.mp hr).1) o.symbols c

/-- A file with two functions of one name and a constant. -/
def twins : List Write :=
  [.upsertProject 0 "/p" "p",
    .persist 0 1 { relativePath := "a.go" }
      { symbols := [{ name := "f", range := { startLine := 1 }, contentHash := "1" },
          { name := "f", range := { startLine := 5 }, contentHash := "2" },
          { name := "k", kind := .constant, contentHash := "3" }] }]

/-- The functions become three, the second of which moved, and a variable is where the constant
was. -/
def twinsGrown : Outline :=
  { symbols := [{ name := "f", range := { startLine := 1 }, contentHash := "4" },
      { name := "f", range := { startLine := 6 }, contentHash := "2" },
      { name := "f", range := { startLine := 9 }, contentHash := "5" },
      { name := "k", kind := .global, contentHash := "3" }] }

/-- Two functions keep their rows and two symbols get new ones, while the constant goes. -/
theorem symbols_accounted_twinsGrown : ∃ stats t,
    (run twins).persist 0 1 { relativePath := "a.go" } twinsGrown = .ok (stats, t) ∧
      stats.symbolsInserted + stats.symbolsUpdated + stats.symbolsMoved +
        stats.symbolsUnchanged = 4 ∧
      stats.symbolsUpdated + stats.symbolsMoved + stats.symbolsUnchanged +
        stats.symbolsRemoved = 3 ∧
      ((run twins).symbolsAt 1 "a.go").countP (fun r => r.handle == ("f", .function) &&
        (t.symbolsAt 1 "a.go").any (·.id == r.id)) = 2 := by
  obtain ⟨stats, t, ht⟩ := exists_persist (reachable_run twins).sound
    (by decide +kernel : ∃ r ∈ (run twins).projects, r.id = 1) 0 { relativePath := "a.go" } twinsGrown
  obtain ⟨-, hdeclared, hstored, hsurvivors⟩ := (reachable_run twins).symbols_accounted ht
  have hrows : ((run twins).symbolsAt 1 "a.go").length = 3 := by decide +kernel
  have hgroups : min (((run twins).symbolsAt 1 "a.go").countP (·.handle == ("f", .function)))
      (twinsGrown.symbols.countP (·.handle == ("f", .function))) = 2 := by decide +kernel
  exact ⟨stats, t, ht, hdeclared, hstored.trans hrows, (hsurvivors _).trans hgroups⟩

end Store

end CodeAtlas
