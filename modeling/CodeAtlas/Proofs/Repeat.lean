import CodeAtlas.Outline.Extract
import CodeAtlas.Proofs.Rank

/-!
# Storing a file twice

A file whose declarations did not change is stored again without a write to its symbols if its rows
come in the order of its declarations. Rows are ordered by line; declarations come as the walk over
the source finds them, which need not be by line.

* `SymbolRow.Before`: the order of the rows of a file, by line and then by id;
  `rowsOfFile_pairwise`.
* `Store.Aligned`: rows and declarations of one name and kind have the same places and contents, one
  by one.
* `reconcile_kept_iff`: every row is left alone if and only if rows and declarations are aligned.
* `Persisted.aligned_of_lines`, `Persisted.aligned_iff_of_new`: when that is so.
* **`Reachable.persist_twice`**: so nothing is written to the symbols of a file that is stored twice if
  and only if the first time left them aligned.
-/

namespace CodeAtlas

/-- The line of a declaration, as the store orders it. -/
def Declaration.line (d : Declaration) : Int := signed d.range.startLine

/-- Place and content of a declaration. -/
def Declaration.place (d : Declaration) : Range × String := (d.range, d.contentHash)

theorem Declaration.place_eq_of_shape {d e : Declaration} (h : d.shape = e.shape) :
    d.place = e.place := by
  simp only [Declaration.shape, Prod.mk.injEq] at h
  rw [Declaration.place, Declaration.place, h.2.2.1, h.2.2.2]

/-- The declarations of one name and kind come in an order of their lines. -/
def ByLine (r : Int → Int → Prop) (ds : List Declaration) : Prop :=
  ds.Pairwise fun d e => d.handle = e.handle → r d.line e.line

instance (r : Int → Int → Prop) [DecidableRel r] (ds : List Declaration) : Decidable (ByLine r ds) :=
  inferInstanceAs (Decidable (ds.Pairwise fun d e => d.handle = e.handle → r d.line e.line))

theorem byLine_iff {r : Int → Int → Prop} {ds : List Declaration} :
    ByLine r ds ↔ ∀ c, (ds.filter (·.handle == c)).Pairwise fun d e => r d.line e.line := by
  simp only [ByLine, List.pairwise_filter, beq_iff_eq]
  constructor
  · exact fun h c => h.imp fun hde hd he => hde (hd.trans he.symm)
  · intro h
    refine List.pairwise_iff_forall_sublist.mpr fun {d e} hsub hde => ?_
    exact List.pairwise_iff_forall_sublist.mp (h e.handle) hsub hde rfl

/-- Nothing is written to the symbols of a file with so many declarations. -/
structure WriteStats.Idle (w : WriteStats) (declared : Nat) : Prop where
  inserted : w.symbolsInserted = 0
  updated : w.symbolsUpdated = 0
  moved : w.symbolsMoved = 0
  removed : w.symbolsRemoved = 0
  unchanged : w.symbolsUnchanged = declared

theorem SymbolRow.update_kept_iff (r : SymbolRow) (d : Declaration) :
    (r.update d).1 = .kept ↔ r.place = d.place := by
  unfold update
  split_ifs with hh hr
  · simp only [beq_iff_eq] at hh hr
    simp [Declaration.place, hh, hr]
  · simp only [beq_iff_eq] at hr
    simp [Declaration.place, hr]
  · simp only [beq_iff_eq] at hh
    simp [Declaration.place, hh]

theorem SymbolRow.update_of_kept {r : SymbolRow} {d : Declaration} (h : (r.update d).1 = .kept) :
    (r.update d).2 = r := by
  unfold update at h ⊢
  split_ifs at h ⊢
  rfl

/-! ## Rows that are all left alone -/

/-- As many rows as declarations, matched by rank, are all left alone if and only if they have the
same places and contents. -/
theorem kept_iff_of_becomes {last : Int} {rs : List SymbolRow} {ds : List Declaration}
    {ys : List (Fate × SymbolRow)} (hlen : rs.length = ds.length)
    (h : List.Forall₂ (fun x y => Becomes last x.1 x.2 y) (alongside rs ds) ys) :
    (∀ y ∈ ys, y.1 = .kept) ↔ rs.map (·.place) = ds.map (·.place) := by
  fun_induction alongside rs ds generalizing ys with
  | case1 rs =>
    obtain rfl := List.length_eq_zero_iff.mp hlen
    cases h
    simp
  | case2 d ds ih => simp at hlen
  | case3 r rs d ds ih =>
    cases h with
    | cons hy hys =>
      rw [List.forall_mem_cons, hy.2, SymbolRow.update_kept_iff, ih (by simpa using hlen) hys,
        List.map_cons, List.map_cons, List.cons_eq_cons]

/-- **Every row is left alone if and only if rows and declarations of one name and kind have the same
places and contents**, provided that there are as many of them. -/
theorem reconcile_kept_iff {fileId last : Int} {stored : List SymbolRow} {ds : List Declaration}
    (hflaws : ∀ r ∈ stored, r.flaws = [])
    (hlen : ∀ c, (stored.filter (·.handle == c)).length = (ds.filter (·.handle == c)).length) :
    (∀ y ∈ (reconcile fileId last stored ds).rows, y.1 = .kept) ↔
      ∀ c, (stored.filter (·.handle == c)).map (·.place) =
        (ds.filter (·.handle == c)).map (·.place) := by
  have hgroup : ∀ c, (∀ y ∈ (reconcile fileId last stored ds).rows.filter (·.2.handle == c),
      y.1 = .kept) ↔ (stored.filter (·.handle == c)).map (·.place) =
        (ds.filter (·.handle == c)).map (·.place) := fun c =>
    kept_iff_of_becomes (hlen c) (reconcile_by_rank last hflaws ds c)
  constructor
  · exact fun h c => (hgroup c).mp fun y hy => h y (List.mem_filter.mp hy).1
  · exact fun h y hy => (hgroup y.2.handle).mpr (h _) y (List.mem_filter.mpr ⟨hy, by simp⟩)

/-- Rows that are left alone are rows that were stored. -/
theorem reconcile_mem_stored {fileId last : Int} {stored : List SymbolRow} {ds : List Declaration}
    {y : Fate × SymbolRow} (hy : y ∈ (reconcile fileId last stored ds).rows) (hkept : y.1 = .kept) :
    y.2 ∈ stored := by
  obtain ⟨d, -, old, hold, hbecomes⟩ := exists_left_of_forall₂ (reconcile_becomes last stored ds) hy
  cases old with
  | none => exact absurd (hbecomes.1.symm.trans hkept) (by decide)
  | some r =>
    rw [hbecomes.2] at hkept ⊢
    rw [SymbolRow.update_of_kept hkept]
    exact hold r rfl

/-! ## The order of rows -/

/-- A row comes before another one: by line, then by id. -/
def SymbolRow.Before (a b : SymbolRow) : Prop := a.line < b.line ∨ a.line = b.line ∧ a.id < b.id

theorem SymbolRow.Before.line_le {a b : SymbolRow} (h : a.Before b) : a.line ≤ b.line := by
  rcases h with h | ⟨h, -⟩ <;> omega

theorem SymbolRow.Before.asymm {a b : SymbolRow} (h : a.Before b) : ¬ b.Before a := by
  unfold SymbolRow.Before at h ⊢
  omega

namespace Store

variable {s t : Store} {now p i : Int} {f : SourceFile} {o : Outline}

/-- The rows of a file are matched by line, and by id on one line. -/
theorem rowsOfFile_pairwise (h : s.Keyed) (i : Int) :
    (s.rowsOfFile i).Pairwise SymbolRow.Before := by
  have hids : (s.symbols.filter (·.fileId == i)).Pairwise fun a b => a.id < b.id :=
    (List.pairwise_map.mp h.symbols.grows).sublist List.filter_sublist
  refine (sortBy_stable ?_ ?_ hids).imp fun {a b} hab => ?_
  · intro a b c hab hbc
    simp only [decide_eq_true_eq] at hab hbc ⊢
    omega
  · intro a b hab
    simp only [decide_eq_false_iff_not, decide_eq_true_eq] at hab ⊢
    omega
  · simp only [decide_eq_true_eq] at hab
    unfold SymbolRow.Before Declaration.line
    have hid := hab.2
    omega

/-- The rows of one name and kind are ordered by line. -/
theorem places_pairwise (h : s.Keyed) (i : Int) (c : String × SymbolKind) :
    (((s.rowsOfFile i).filter (·.handle == c)).map (·.place)).Pairwise
      fun x y => signed x.1.startLine ≤ signed y.1.startLine :=
  List.pairwise_map.mpr
    (((rowsOfFile_pairwise h i).sublist List.filter_sublist).imp SymbolRow.Before.line_le)

/-- Rows and declarations of one name and kind have the same places and contents, one by one. -/
def Aligned (t : Store) (i : Int) (ds : List Declaration) : Prop :=
  ∀ c, ((t.rowsOfFile i).filter (·.handle == c)).map (·.place) =
    (ds.filter (·.handle == c)).map (·.place)

/-- Rows that are aligned with declarations pass their order by line on to them. -/
theorem Aligned.byLine {ds : List Declaration} (h : t.Aligned i ds) (ht : t.Keyed) :
    ByLine (· ≤ ·) ds := by
  refine byLine_iff.mpr fun c => ?_
  have hplaces := places_pairwise ht i c
  rw [h c] at hplaces
  exact (List.pairwise_map (f := fun d : Declaration => d.place)).mp hplaces

/-! ## A file that was just stored -/

/-- Rows and declarations of one name and kind have the same places and contents in some order. -/
theorem Persisted.places_perm (h : s.Persisted now p f o i t) (hs : s.Keyed) (ht : t.Keyed)
    (c : String × SymbolKind) :
    (((t.rowsOfFile i).filter (·.handle == c)).map (·.place)).Perm
      ((o.symbols.filter (·.handle == c)).map (·.place)) := by
  have hcolumn := h.column_perm hs ht (fun d => (d.handle, d.place)) fun d e hde => by
    rw [Declaration.handle_eq_of_shape hde, Declaration.place_eq_of_shape hde]
  have hsorted : ((t.rowsOfFile i).map fun r => (r.handle, r.place)).Perm
      (o.symbols.map fun d => (d.handle, d.place)) :=
    ((sortBy_perm _ _).map _).trans hcolumn
  have hgroup := (hsorted.filter (·.1 == c)).map (·.2)
  rwa [List.filter_map, List.filter_map, List.map_map, List.map_map] at hgroup

/-- Declarations of one name and kind on growing lines are aligned with their rows. -/
theorem Persisted.aligned_of_lines (h : s.Persisted now p f o i t) (hs : s.Keyed) (ht : t.Keyed)
    (hlines : ByLine (· < ·) o.symbols) : t.Aligned i o.symbols := by
  intro c
  have hds : ((o.symbols.filter (·.handle == c)).map (·.place)).Pairwise
      fun x y => signed x.1.startLine < signed y.1.startLine :=
    List.pairwise_map.mpr (byLine_iff.mp hlines c)
  have hperm := h.places_perm hs ht c
  refine List.Perm.eq_of_pairwise (fun x y hx hy hxy hyx => ?_) (places_pairwise ht i c)
    (hds.imp Int.le_of_lt) hperm
  -- no two declarations are on one line, so two places on one line are the same
  have hnd : (((o.symbols.filter (·.handle == c)).map (·.place)).map
      fun x => signed x.1.startLine).Nodup := List.pairwise_map.mpr (hds.imp Int.ne_of_lt)
  exact List.inj_on_of_nodup_map hnd (hperm.mem_iff.mp hx) hy (Int.le_antisymm hxy hyx)

/-- The declarations of a new file are aligned with their rows if and only if those of one name and
kind are on lines that never go down. -/
theorem Persisted.aligned_iff_of_new (h : s.Persisted now p f o i t) (hs : s.Keyed) (ht : t.Keyed)
    (hnew : s.symbolsIn i = []) : t.Aligned i o.symbols ↔ ByLine (· ≤ ·) o.symbols := by
  refine ⟨fun ha => ha.byLine ht, fun hlines c => ?_⟩
  obtain ⟨hdeclared, hids⟩ := reconciled_of_new hnew o.symbols
  have hperm : (t.rowsOfFile i).Perm ((s.reconciled i o.symbols).rows.map (·.2)) :=
    (sortBy_perm _ _).trans (h.symbolsIn_perm hs ht)
  generalize (s.reconciled i o.symbols).rows.map (·.2) = rows at hdeclared hids hperm
  have hgroup : (rows.filter (·.handle == c)).map (·.toDeclaration) =
      o.symbols.filter (·.handle == c) := by
    rw [← hdeclared, List.filter_map]
    rfl
  have hbefore : (rows.filter (·.handle == c)).Pairwise SymbolRow.Before := by
    have hlines' := byLine_iff.mp hlines c
    rw [← hgroup, List.pairwise_map] at hlines'
    refine (hlines'.and (hids.sublist List.filter_sublist)).imp fun {a b} hab => ?_
    unfold SymbolRow.Before
    omega
  have heq : (t.rowsOfFile i).filter (·.handle == c) = rows.filter (·.handle == c) :=
    List.Perm.eq_of_pairwise (fun a b _ _ hab hba => absurd hba hab.asymm)
      ((rowsOfFile_pairwise ht i).sublist List.filter_sublist) hbefore (hperm.filter _)
  rw [heq, ← hgroup, List.map_map]
  rfl

/-! ## Storing it again -/

/-- Rows that are all left alone are the rows there were, and no row is removed. -/
theorem reconciled_of_kept (ht : t.Keyed) {ds : List Declaration}
    (hlen : (t.rowsOfFile i).length = ds.length)
    (hall : ∀ y ∈ (t.reconciled i ds).rows, y.1 = .kept) :
    (t.reconciled i ds).removed = [] ∧
      ∀ y, y ∈ (t.reconciled i ds).rows.map (·.2) ↔ y ∈ t.rowsOfFile i := by
  have hkept : (t.reconciled i ds).kept = (t.reconciled i ds).rows.map (·.2) :=
    congrArg _ (List.filter_eq_self.mpr fun y hy => by simp [hall y hy])
  have hstored : ((t.reconciled i ds).kept.map (·.id) ++ (t.reconciled i ds).removed.map (·.id)).Perm
      ((t.rowsOfFile i).map (·.id)) := reconcile_stored _ _ _
  rw [hkept] at hstored
  have hremoved : (t.reconciled i ds).removed = [] := by
    have hrows : ds.length = (t.reconciled i ds).rows.length := (reconcile_becomes _ _ _).length_eq
    have htotal := hstored.length_eq
    simp only [List.length_append, List.length_map] at htotal
    exact List.length_eq_zero_iff.mp (by omega)
  rw [hremoved, List.map_nil, List.append_nil] at hstored
  have hmem : ∀ y ∈ (t.reconciled i ds).rows.map (·.2), y ∈ t.rowsOfFile i :=
    List.forall_mem_map.mpr fun y hy => reconcile_mem_stored hy (hall y hy)
  refine ⟨hremoved, fun y => ⟨hmem y, fun hy => ?_⟩⟩
  obtain ⟨z, hz, hzy⟩ := List.mem_map.mp (hstored.mem_iff.mpr (List.mem_map_of_mem hy))
  rwa [← ht.symbol_eq (mem_rowsOfFile.mp (hmem z hz)).1 (mem_rowsOfFile.mp hy).1 hzy]

/-- **Nothing is written to the symbols of a file if and only if they are aligned.** -/
theorem Persisted.idle_iff {u : Store} {now' : Int} (h : s.Persisted now p f o i t) (hs : s.Keyed)
    (ht : t.Sound) (hu : u.Keyed) (h' : t.Persisted now' p f o i u) :
    (t.statsOf i o).Idle o.symbols.length ∧ u.symbols = t.symbols ↔ t.Aligned i o.symbols := by
  have hflaws : ∀ r ∈ t.rowsOfFile i, r.flaws = [] := fun r hr =>
    ht.flawless.symbols r (mem_rowsOfFile.mp hr).1
  have hgroups : ∀ c, ((t.rowsOfFile i).filter (·.handle == c)).length =
      (o.symbols.filter (·.handle == c)).length := fun c => by
    simpa using (h.places_perm hs ht.keyed c).length_eq
  have hlen : (t.rowsOfFile i).length = o.symbols.length := by
    have hcolumn := (h.column_perm hs ht.keyed _ fun _ _ => Declaration.place_eq_of_shape).length_eq
    simpa [rowsOfFile, (sortBy_perm _ _).length_eq, symbolsIn] using hcolumn
  have hrows : o.symbols.length = (t.reconciled i o.symbols).rows.length :=
    (reconcile_becomes _ _ _).length_eq
  rw [Aligned, ← @reconcile_kept_iff i t.last.symbols _ _ hflaws hgroups]
  constructor
  · rintro ⟨hidle, -⟩ y hy
    have hall := List.length_filter_eq_length_iff.mp (hidle.unchanged.trans hrows) y hy
    simpa using hall
  · intro hall
    obtain ⟨hremoved, hmem⟩ := reconciled_of_kept ht.keyed hlen hall
    have hcount : ∀ fate ≠ Fate.kept, (t.reconciled i o.symbols).count fate = 0 := fun fate hne =>
      List.length_eq_zero_iff.mpr (List.filter_eq_nil_iff.mpr fun y hy => by
        simpa [hall y hy] using hne.symm)
    refine ⟨⟨hcount _ (by decide), hcount _ (by decide), hcount _ (by decide), ?_, ?_⟩, ?_⟩
    · exact congrArg List.length hremoved
    · exact (List.length_filter_eq_length_iff.mpr fun y hy => by simp [hall y hy]).trans hrows.symm
    · refine eq_of_mem_iff hu.symbols.grows ht.keyed.symbols.grows fun y => ?_
      rw [h'.symbols y, hmem y, mem_rowsOfFile]
      tauto

/-- **What storing a file a second time does to its symbols.** Let a file be stored, and stored again
with the same declarations. Nothing is written to its symbols if and only if, after the first time,
the rows of each name and kind, by line and id, have the places and contents of its declarations in
order. They have if the declarations of each name and kind are on growing lines. If they have, these
are on lines that never go down; and in a file that had no symbols the converse holds too. -/
theorem Reachable.persist_twice (h : s.Reachable) {stats : WriteStats}
    (ht : s.persist now p f o = .ok (stats, t)) (now' : Int) :
    ∃ g ∈ t.files, g.projectId = p ∧ g.relativePath = f.relativePath ∧
      ∃ stats' u, t.persist now' p f o = .ok (stats', u) ∧
        (stats'.Idle o.symbols.length ∧ u.symbols = t.symbols ↔ t.Aligned g.id o.symbols) ∧
        (ByLine (· < ·) o.symbols → t.Aligned g.id o.symbols) ∧
        (t.Aligned g.id o.symbols → ByLine (· ≤ ·) o.symbols) ∧
        (s.symbolsIn g.id = [] → ByLine (· ≤ ·) o.symbols → t.Aligned g.id o.symbols) := by
  have hs := h.sound
  obtain ⟨i, hp, -, hts⟩ := persist_spec hs ht
  have hproject : ∃ r ∈ t.projects, r.id = p := by
    rw [hp.projects]
    exact hp.project
  obtain ⟨stats', u, hu⟩ := exists_persist hts hproject now' f o
  obtain ⟨j, hp', rfl, hus⟩ := persist_spec hts hu
  obtain rfl : j = i := hp'.id_eq hts.keyed hp.files.id_mem rfl rfl
  refine ⟨_, hp.files.id_mem, rfl, rfl, _, u, hu, hp.idle_iff hs.keyed hts hus.keyed hp', ?_, ?_, ?_⟩
  · exact hp.aligned_of_lines hs.keyed hts.keyed
  · exact fun ha => ha.byLine hts.keyed
  · exact fun hnew => (hp.aligned_iff_of_new hs.keyed hts.keyed hnew).mpr

/-- Two functions of one name with another one between them. -/
def interleaved : Outline :=
  { symbols := [{ name := "f", range := { startLine := 1 }, contentHash := "1" },
      { name := "g", range := { startLine := 3 }, contentHash := "2" },
      { name := "f", range := { startLine := 5 }, contentHash := "3" }] }

/-- Declarations on growing lines are left alone the second time. -/
theorem persist_twice_interleaved :
    ∃ stats t stats' u,
      (run [.upsertProject 0 "/p" "p"]).persist 0 1 { relativePath := "a.go" } interleaved =
        .ok (stats, t) ∧
      t.persist 1 1 { relativePath := "a.go" } interleaved = .ok (stats', u) ∧
      stats'.symbolsUnchanged = 3 ∧ u.symbols = t.symbols := by
  have hs := reachable_run [.upsertProject 0 "/p" "p"]
  obtain ⟨stats, t, ht⟩ := exists_persist hs.sound
    (by decide +kernel : ∃ r ∈ (run [.upsertProject 0 "/p" "p"]).projects, r.id = 1) 0
    { relativePath := "a.go" } interleaved
  obtain ⟨g, -, -, -, stats', u, hu, hidle, hgrow, -⟩ := hs.persist_twice ht 1
  obtain ⟨hidle, hsame⟩ := hidle.mpr (hgrow (by decide +kernel))
  exact ⟨stats, t, stats', u, ht, hu, hidle.unchanged, hsame⟩

/-- A package variable `x` comes after a function that declares an `x` of its own. -/
def shadowing : Syntax.Source :=
  ⟨"package p\n\nvar (\n\ta = func() \x7b\n\t\tvar x = 1\n\t\t_ = x\n\t\x7d\n\tx = 2\n)\n".toUTF8⟩

/-- The file is stored. -/
def shadowingStored : List Write :=
  [.upsertProject 0 "/p" "p",
    .persist 0 1 { relativePath := "a.go" } (Outline.extract .go shadowing)]

set_option maxRecDepth 20000 in
/-- The walk finds the package variable first, and the one in the function, on an earlier line, after
it. The second time each of them takes the row of the other, and both rows are written. -/
theorem shadowing_written_twice :
    (run shadowingStored).symbols.map (fun r => (r.id, r.name, r.range.startLine)) =
      [(1, "a", 4), (2, "x", 8), (3, "x", 5)] ∧
    ((run shadowingStored).persist 1 1 { relativePath := "a.go" }
        (Outline.extract .go shadowing)).map (fun x =>
      (x.1.symbolsUnchanged, x.1.symbolsUpdated,
        x.2.symbols.map fun r => (r.id, r.name, r.range.startLine))) =
      .ok (1, 2, [(1, "a", 4), (2, "x", 5), (3, "x", 8)]) := by
  constructor <;> decide +kernel

end Store

end CodeAtlas
