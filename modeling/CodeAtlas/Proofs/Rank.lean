import CodeAtlas.Proofs.Identity

/-!
# Rows and declarations by rank

A file that is stored again matches its declarations with its rows by name and kind. Among those of
one name and kind, the first declaration takes the first row, the second the second one, and so on.

* `Declaration.handle`: name and kind; `Declaration.content`: these with the hash of the content.
* `Becomes`: what becomes of a declaration and the row it takes. `reconcile_becomes`: each declaration
  takes a stored row or gets a new one.
* **`reconcile_by_rank`**: a declaration takes the row of its rank. `reconciled_of_new`: in a file
  without symbols each gets a new row, in order.
* **`Reachable.workflow_follows_rank`**: so what people keep on a symbol stays with its content if and
  only if its rank stays the same.
-/

namespace CodeAtlas

/-- Name and kind of a declaration, by which it is matched with a row. -/
def Declaration.handle (d : Declaration) : String × SymbolKind := (d.name, d.kind)

/-- Name, kind and content of a declaration. -/
def Declaration.content (d : Declaration) : String × SymbolKind × String :=
  (d.name, d.kind, d.contentHash)

theorem Declaration.handle_eq_of_shape {d e : Declaration} (h : d.shape = e.shape) :
    d.handle = e.handle := by
  simp only [Declaration.shape, Prod.mk.injEq] at h
  rw [Declaration.handle, Declaration.handle, h.1, h.2.1]

theorem Declaration.content_eq_of_shape {d e : Declaration} (h : d.shape = e.shape) :
    d.content = e.content := by
  simp only [Declaration.shape, Prod.mk.injEq] at h
  rw [Declaration.content, Declaration.content, h.1, h.2.1, h.2.2.2]

theorem SymbolRow.standsFor_eq {r : SymbolRow} (hr : r.flaws = []) (d : Declaration) :
    r.standsFor d = (r.handle == d.handle) := by
  rw [Bool.eq_iff_iff, SymbolRow.standsFor_iff, beq_iff_eq, Declaration.handle, Declaration.handle,
    Prod.mk.injEq]
  simp [hr]

/-! ## What becomes of one declaration -/

/-- What becomes of a declaration that takes a row, or that gets a new one. -/
def Becomes (last : Int) (old : Option SymbolRow) (d : Declaration) (y : Fate × SymbolRow) : Prop :=
  match old with
  | some r => r.standsFor d = true ∧ y = r.update d
  | none => y.1 = .inserted ∧ y.2.toDeclaration = d ∧ last < y.2.id

theorem Becomes.mono {last last' : Int} {old : Option SymbolRow} {d : Declaration}
    {y : Fate × SymbolRow} (h : Becomes last old d y) (hl : last' ≤ last) :
    Becomes last' old d y := by
  cases old with
  | none => exact ⟨h.1, h.2.1, Int.lt_of_le_of_lt hl h.2.2⟩
  | some r => exact h

theorem Becomes.shape {last : Int} {old : Option SymbolRow} {d : Declaration}
    {y : Fate × SymbolRow} (h : Becomes last old d y) : y.2.toDeclaration.shape = d.shape := by
  cases old with
  | none => rw [h.2.1]
  | some r =>
    rw [h.2]
    exact SymbolRow.update_shape h.1

/-- A declaration ends on a row that was there before if and only if it takes it. -/
theorem Becomes.id_eq_iff {last : Int} {old : Option SymbolRow} {d : Declaration}
    {y : Fate × SymbolRow} (h : Becomes last old d y) {x : SymbolRow} (hx : x.id ≤ last)
    (hold : ∀ r, old = some r → r.id = x.id → r = x) : y.2.id = x.id ↔ old = some x := by
  cases old with
  | none =>
    have hlast : x.id < y.2.id := Int.lt_of_le_of_lt hx h.2.2
    simp only [reduceCtorEq, iff_false]
    omega
  | some r =>
    rw [h.2, SymbolRow.update_id, Option.some.injEq]
    exact ⟨hold r rfl, congrArg SymbolRow.id⟩

/-- **Each declaration takes a stored row or gets a new one.** -/
theorem reconcile_becomes {fileId : Int} (last : Int) (stored : List SymbolRow)
    (ds : List Declaration) :
    List.Forall₂ (fun d y => ∃ old : Option SymbolRow, (∀ r, old = some r → r ∈ stored) ∧
      Becomes last old d y) ds (reconcile fileId last stored ds).rows := by
  induction ds generalizing last stored with
  | nil => exact .nil
  | cons d ds ih =>
    cases h : takeFirst (·.standsFor d) stored with
    | some x =>
      obtain ⟨row, rest⟩ := x
      obtain ⟨hrow, hperm⟩ := takeFirst_eq_some h
      rw [reconcile_cons_matched ds h]
      refine .cons ⟨some row, ?_, hrow, rfl⟩ ((ih last rest).imp ?_)
      · rintro r ⟨⟩
        exact hperm.mem_iff.mpr List.mem_cons_self
      · rintro d y ⟨old, hold, hy⟩
        exact ⟨old, fun r hr => hperm.mem_iff.mpr (List.mem_cons_of_mem _ (hold r hr)), hy⟩
    | none =>
      rw [reconcile_cons_new ds h]
      refine .cons ⟨none, by simp, rfl, rfl, by dsimp only; omega⟩ ((ih (last + 1) stored).imp ?_)
      rintro d y ⟨old, hold, hy⟩
      exact ⟨old, hold, hy.mono (by omega)⟩

/-! ## Ranks -/

/-- Declarations, each with the row of its rank as long as there are rows. -/
def alongside : List SymbolRow → List Declaration → List (Option SymbolRow × Declaration)
  | _, [] => []
  | [], d :: ds => (none, d) :: alongside [] ds
  | r :: rs, d :: ds => (some r, d) :: alongside rs ds

theorem alongside_getElem? (rs : List SymbolRow) (ds : List Declaration) (k : Nat) :
    (alongside rs ds)[k]? = ds[k]?.map fun d => (rs[k]?, d) := by
  fun_induction alongside rs ds generalizing k with
  | case1 rs => simp
  | case2 d ds ih => cases k <;> simp [ih]
  | case3 r rs d ds ih => cases k <;> simp [ih]

/-- The row that a declaration takes is the first one of its name and kind; rows of another name or
kind stay as they are. -/
theorem filter_handle_of_takeFirst {stored rest : List SymbolRow} {d : Declaration} {row : SymbolRow}
    (hflaws : ∀ r ∈ stored, r.flaws = [])
    (h : takeFirst (·.standsFor d) stored = some (row, rest)) :
    (∀ r ∈ rest, r.flaws = []) ∧ ∀ c, stored.filter (·.handle == c) =
      if d.handle = c then row :: rest.filter (·.handle == c) else rest.filter (·.handle == c) := by
  obtain ⟨hrow, hperm⟩ := takeFirst_eq_some h
  have hrest : ∀ r ∈ rest, r.flaws = [] := fun r hr =>
    hflaws r (hperm.mem_iff.mpr (List.mem_cons_of_mem _ hr))
  refine ⟨hrest, fun c => ?_⟩
  split
  · next hc =>
    subst hc
    rw [← List.filter_congr fun r hr => SymbolRow.standsFor_eq (hflaws r hr) d,
      takeFirst_filter_self h]
    exact congrArg _ (List.filter_congr fun r hr => SymbolRow.standsFor_eq (hrest r hr) d)
  · next hc =>
    have hhandle : row.handle = d.handle := by
      have hflaw := hflaws row (hperm.mem_iff.mpr List.mem_cons_self)
      rwa [SymbolRow.standsFor_eq hflaw, beq_iff_eq] at hrow
    exact takeFirst_filter_other h (by simpa [hhandle] using hc)

/-- A declaration gets a new row where no row has its name and kind. -/
theorem filter_handle_of_takeFirst_none {stored : List SymbolRow} {d : Declaration}
    (hflaws : ∀ r ∈ stored, r.flaws = []) (h : takeFirst (·.standsFor d) stored = none) :
    stored.filter (·.handle == d.handle) = [] := by
  rw [← List.filter_congr fun r hr => SymbolRow.standsFor_eq (hflaws r hr) d, takeFirst_eq_none h]

/-- **A declaration takes the row of its rank** among the rows of its name and kind. -/
theorem reconcile_by_rank {fileId : Int} (last : Int) {stored : List SymbolRow}
    (hflaws : ∀ r ∈ stored, r.flaws = []) (ds : List Declaration) (c : String × SymbolKind) :
    List.Forall₂ (fun x y => Becomes last x.1 x.2 y)
      (alongside (stored.filter (·.handle == c)) (ds.filter (·.handle == c)))
      ((reconcile fileId last stored ds).rows.filter (·.2.handle == c)) := by
  induction ds generalizing last stored with
  | nil =>
    simp only [reconcile, List.filter_nil]
    unfold alongside
    exact .nil
  | cons d ds ih =>
    cases h : takeFirst (·.standsFor d) stored with
    | some x =>
      obtain ⟨row, rest⟩ := x
      obtain ⟨hrest, hgroup⟩ := filter_handle_of_takeFirst hflaws h
      have hrow := (takeFirst_eq_some h).1
      have hupdate : (row.update d).2.handle = d.handle :=
        Declaration.handle_eq_of_shape (SymbolRow.update_shape hrow)
      rw [reconcile_cons_matched ds h, hgroup c]
      by_cases hc : d.handle = c
      · rw [if_pos hc, List.filter_cons_of_pos (by simpa using hc),
          List.filter_cons_of_pos (by simpa [hupdate] using hc)]
        exact .cons ⟨hrow, rfl⟩ (ih last hrest)
      · rw [if_neg hc, List.filter_cons_of_neg (by simpa using hc),
          List.filter_cons_of_neg (by simpa [hupdate] using hc)]
        exact ih last hrest
    | none =>
      rw [reconcile_cons_new ds h]
      have hih := ih (last + 1) hflaws
      by_cases hc : d.handle = c
      · subst hc
        rw [filter_handle_of_takeFirst_none hflaws h] at hih ⊢
        rw [List.filter_cons_of_pos (by simp), List.filter_cons_of_pos (by simp)]
        exact .cons ⟨rfl, rfl, by dsimp only; omega⟩ (hih.imp fun _ _ hy => hy.mono (by omega))
      · rw [List.filter_cons_of_neg (by simpa using hc), List.filter_cons_of_neg (by simpa using hc)]
        exact hih.imp fun _ _ hy => hy.mono (by omega)

/-- The rank of a content among the declarations of its name and kind. -/
def rank (c : String × SymbolKind × String) (ds : List Declaration) : Nat :=
  (ds.filter (·.handle == (c.1, c.2.1))).findIdx (·.contentHash == c.2.2)

theorem content_eq_iff {d : Declaration} {c : String × SymbolKind × String} :
    d.content = c ↔ d.handle = (c.1, c.2.1) ∧ d.contentHash = c.2.2 := by
  obtain ⟨n, k, h⟩ := c
  simp only [Declaration.content, Declaration.handle, Prod.mk.injEq, and_assoc]

/-- At its rank there is a declaration with the content. -/
theorem exists_getElem?_rank {c : String × SymbolKind × String} {ds : List Declaration}
    {d : Declaration} (hd : d ∈ ds) (hc : d.content = c) :
    ∃ e, (ds.filter (·.handle == (c.1, c.2.1)))[rank c ds]? = some e ∧ e.content = c := by
  obtain ⟨hhandle, hhash⟩ := content_eq_iff.mp hc
  have hmem : d ∈ ds.filter (·.handle == (c.1, c.2.1)) :=
    List.mem_filter.mpr ⟨hd, by simpa using hhandle⟩
  have hlt := List.findIdx_lt_length_of_exists (p := (·.contentHash == c.2.2))
    ⟨d, hmem, by simpa using hhash⟩
  have hp := List.findIdx_getElem (w := hlt)
  refine ⟨_, List.getElem?_eq_getElem hlt, content_eq_iff.mpr ⟨?_, by simpa using hp⟩⟩
  simpa using (List.mem_filter.mp (List.getElem_mem hlt)).2

/-- What becomes of the declaration of a rank. -/
theorem exists_becomes_of_rank {fileId : Int} (last : Int) {stored : List SymbolRow}
    (hflaws : ∀ r ∈ stored, r.flaws = []) {ds : List Declaration} {c : String × SymbolKind} {k : Nat}
    {d : Declaration} (hd : (ds.filter (·.handle == c))[k]? = some d) :
    ∃ y ∈ (reconcile fileId last stored ds).rows,
      Becomes last (stored.filter (·.handle == c))[k]? d y := by
  have hrow := alongside_getElem? (stored.filter (·.handle == c)) (ds.filter (·.handle == c)) k
  rw [hd, Option.map_some] at hrow
  obtain ⟨y, hy, hbecomes⟩ := exists_getElem?_of_forall₂ (reconcile_by_rank last hflaws ds c) hrow
  exact ⟨y, (List.mem_filter.mp (List.mem_of_getElem? hy)).1, hbecomes⟩

/-- Elements with a value that is there once are one. -/
theorem eq_of_count_map {α β : Type} [BEq β] [LawfulBEq β] {f : α → β} {l : List α} {c : β}
    (h : (l.map f).count c = 1) {a b : α} (ha : a ∈ l) (hb : b ∈ l) (hfa : f a = c)
    (hfb : f b = c) : a = b := by
  rw [List.count, List.countP_map, List.countP_eq_length_filter] at h
  obtain ⟨z, hz⟩ := List.length_eq_one_iff.mp h
  have hmem : ∀ x ∈ l, f x = c → x = z := fun x hx hfx => by
    have hx' : x ∈ l.filter ((· == c) ∘ f) := List.mem_filter.mpr ⟨hx, by simpa using hfx⟩
    rwa [hz, List.mem_singleton] at hx'
  rw [hmem a ha hfa, hmem b hb hfb]

namespace Store

variable {s t : Store} {now p i : Int} {f : SourceFile} {o : Outline}

/-- The declarations of a new file get rows of their own, in order. -/
theorem reconciled_of_new (hnew : s.symbolsIn i = []) (ds : List Declaration) :
    ((s.reconciled i ds).rows.map (·.2)).map (·.toDeclaration) = ds ∧
      ((s.reconciled i ds).rows.map (·.2)).Pairwise fun a b => a.id < b.id := by
  have hstored : s.rowsOfFile i = [] := by
    rw [rowsOfFile, ← symbolsIn, hnew]
    rfl
  have hinserted : List.Forall₂ (fun d y => y.1 = Fate.inserted ∧ y.2.toDeclaration = d) ds
      (s.reconciled i ds).rows := by
    refine (reconcile_becomes s.last.symbols (s.rowsOfFile i) ds).imp ?_
    rintro d y ⟨old, hold, hy⟩
    cases old with
    | none => exact ⟨hy.1, hy.2.1⟩
    | some r => exact absurd (hold r rfl) (by simp [hstored])
  constructor
  · rw [List.map_map]
    exact (map_eq_of_forall₂ hinserted fun d y _ hy => hy.2).trans (List.map_id _)
  · have hfresh : (s.reconciled i ds).fresh = (s.reconciled i ds).rows.map (·.2) := by
      refine congrArg _ (List.filter_eq_self.mpr fun y hy => ?_)
      obtain ⟨d, -, hd, -⟩ := exists_left_of_forall₂ hinserted hy
      simpa using hd
    rw [← hfresh]
    exact List.pairwise_map.mp (reconcile_issued _ _ _).2.1.grows

/-- The row of a file that is stored again is the one it had. -/
theorem Persisted.id_eq (h : s.Persisted now p f o i t) (hs : s.Keyed) {g : FileRow}
    (hg : g ∈ s.files) (hp : g.projectId = p) (hr : g.relativePath = f.relativePath) : i = g.id := by
  by_contra hne
  exact h.files.path_ne hs hg (Ne.symm hne) ⟨hp, hr⟩

/-- The symbols of a file that is stored are the rows of its declarations. -/
theorem Persisted.symbolsIn_perm (h : s.Persisted now p f o i t) (hs : s.Keyed) (ht : t.Keyed) :
    (t.symbolsIn i).Perm ((s.reconciled i o.symbols).rows.map (·.2)) := by
  have hnd : (t.symbolsIn i).Nodup := ht.symbols.nodup.of_map.sublist List.filter_sublist
  refine (List.perm_ext_iff_of_nodup hnd (reconciled_nodup i o.symbols hs).of_map).mpr fun y => ?_
  rw [mem_symbolsIn, h.symbols y]
  constructor
  · rintro ⟨⟨-, hne⟩ | hrow, hi⟩
    · exact absurd hi hne
    · exact hrow
  · exact fun hrow => ⟨Or.inr hrow, reconciled_fileId i o.symbols hrow⟩

/-- A column that a shape determines is as the declarations have it. -/
theorem Persisted.column_perm (h : s.Persisted now p f o i t) (hs : s.Keyed) (ht : t.Keyed)
    {β : Type} (column : Declaration → β)
    (hcolumn : ∀ d e : Declaration, d.shape = e.shape → column d = column e) :
    ((t.symbolsIn i).map fun r => column r.toDeclaration).Perm (o.symbols.map column) := by
  have hrows : ((s.reconciled i o.symbols).rows.map (·.2)).map (fun r => column r.toDeclaration) =
      o.symbols.map column := by
    rw [List.map_map]
    exact map_eq_of_forall₂ (reconcile_shape _ _ _) fun _ _ _ hd => hcolumn _ _ hd
  rw [← hrows]
  exact (h.symbolsIn_perm hs ht).map _

/-- The row with a content that is there once stands at its rank. -/
theorem rowsOfFile_rank {c : String × SymbolKind × String} {x : SymbolRow}
    (hcount : ((s.symbolsIn i).map (·.content)).count c = 1) (hx : x ∈ s.symbolsIn i)
    (hc : x.content = c) :
    ((s.rowsOfFile i).filter (·.handle == (c.1, c.2.1)))[rank c
      ((s.rowsOfFile i).map (·.toDeclaration))]? = some x := by
  have hrow : x ∈ s.rowsOfFile i := mem_rowsOfFile.mpr (mem_symbolsIn.mp hx)
  obtain ⟨e, he, hec⟩ := exists_getElem?_rank (List.mem_map_of_mem hrow) hc
  rw [List.filter_map, List.getElem?_map] at he
  obtain ⟨z, hz, rfl⟩ := Option.map_eq_some_iff.mp he
  have hzs := mem_rowsOfFile.mp (List.mem_filter.mp (List.mem_of_getElem? hz)).1
  rw [eq_of_count_map hcount hx (mem_symbolsIn.mpr hzs) hc hec]
  exact hz

/-- **What people keep on a symbol follows the rank of its content.** Let a file be stored again, and
let a content (name, kind and hash) be there once among its rows and once among its declarations.
Then one row has this content afterwards. It is the row that had it before if and only if the content
has the same rank in both lists: among the rows of its name and kind by line and id, and among the
declarations of its name and kind as they come. If so, it keeps all that people keep on it. -/
theorem Reachable.workflow_follows_rank (h : s.Reachable) {g : FileRow} (hg : g ∈ s.files)
    (hf : g.relativePath = f.relativePath) {stats : WriteStats}
    (ht : s.persist now g.projectId f o = .ok (stats, t)) {c : String × SymbolKind × String}
    (hstored : ((s.symbolsIn g.id).map (·.content)).count c = 1)
    (hparsed : (o.symbols.map (·.content)).count c = 1) :
    ∃ x ∈ s.symbolsIn g.id, ∃ y ∈ t.symbolsIn g.id, x.content = c ∧ y.content = c ∧
      ((t.symbolsIn g.id).map (·.content)).count c = 1 ∧
      (y.id = x.id ↔ rank c ((s.rowsOfFile g.id).map (·.toDeclaration)) = rank c o.symbols) ∧
      (y.id = x.id → y.workflow = x.workflow) := by
  have hs := h.sound
  obtain ⟨i, hp, -, hts⟩ := persist_spec hs ht
  obtain rfl := hp.id_eq hs.keyed hg rfl hf
  obtain ⟨x, hx, hxc⟩ := List.mem_map.mp (List.count_pos_iff.mp (by rw [hstored]; exact Nat.one_pos))
  obtain ⟨d, hd, hdc⟩ := List.mem_map.mp (List.count_pos_iff.mp (by rw [hparsed]; exact Nat.one_pos))
  set group := (s.rowsOfFile g.id).filter (·.handle == (c.1, c.2.1)) with hgroup
  -- the row of the content stands at its rank in the group of its name and kind
  have hxr : group[rank c ((s.rowsOfFile g.id).map (·.toDeclaration))]? = some x :=
    rowsOfFile_rank hstored hx hxc
  obtain ⟨e, he, hec⟩ := exists_getElem?_rank hd hdc
  have hflaws : ∀ r ∈ s.rowsOfFile g.id, r.flaws = [] := fun r hr =>
    hs.flawless.symbols r (mem_rowsOfFile.mp hr).1
  obtain ⟨y, hy, hbecomes⟩ := exists_becomes_of_rank s.last.symbols hflaws he
  have hyt : y.2 ∈ t.symbolsIn g.id :=
    (hp.symbolsIn_perm hs.keyed hts.keyed).mem_iff.mpr (List.mem_map_of_mem hy)
  have hyc : y.2.content = c := (Declaration.content_eq_of_shape hbecomes.shape).trans hec
  have hbound : x.id ≤ s.last.symbols :=
    hs.keyed.symbols.bound _ (List.mem_map_of_mem (mem_symbolsIn.mp hx).1)
  have hid := hbecomes.id_eq_iff hbound fun r hr => by
    have hrs := mem_rowsOfFile.mp (List.mem_filter.mp (List.mem_of_getElem? hr)).1
    exact hs.keyed.symbol_eq hrs.1 (mem_symbolsIn.mp hx).1
  refine ⟨x, hx, y.2, hyt, hxc, hyc, ?_, hid.trans ?_, fun h => ?_⟩
  · rw [← hparsed]
    exact (hp.column_perm hs.keyed hts.keyed _ fun _ _ => Declaration.content_eq_of_shape).count_eq c
  · have hnd : group.Nodup := (rowsOfFile_nodup hs.keyed g.id).of_map.sublist List.filter_sublist
    rw [← hxr, eq_comm]
    exact List.getElem?_inj (List.getElem?_eq_some_iff.mp hxr).1 hnd
  · rw [hid.mp h] at hbecomes
    rw [hbecomes.2, SymbolRow.update_workflow]

/-- A file with two functions of one name, the second of which people take up. -/
def namesakes : List Write :=
  [.upsertProject 0 "/p" "p",
    .persist 0 1 { relativePath := "a.go" }
      { symbols := [{ name := "f", range := { startLine := 1 }, contentHash := "1" },
          { name := "f", range := { startLine := 5 }, contentHash := "2" }] },
    .setWorkflow 2 { status := some "todo" }]

/-- The first function changes, and a third one comes after the second. -/
def namesakesGrown : Outline :=
  { symbols := [{ name := "f", range := { startLine := 1 }, contentHash := "3" },
      { name := "f", range := { startLine := 7 }, contentHash := "2" },
      { name := "f", range := { startLine := 9 }, contentHash := "4" }] }

/-- The function that was taken up stays the second one, and keeps its row. -/
theorem workflow_follows_rank_namesakesGrown :
    ∃ stats t, (run namesakes).persist 0 1 { relativePath := "a.go" } namesakesGrown =
        .ok (stats, t) ∧
      ∃ y ∈ t.symbolsIn 1, y.content = ("f", .function, "2") ∧ y.id = 2 ∧
        y.workflow = { status := some "todo" } := by
  have hfiles : (run namesakes).files.map (fun g => (g.id, g.projectId, g.relativePath)) =
      [(1, 1, "a.go")] := by decide +kernel
  obtain ⟨g, hg, hge⟩ := List.mem_map.mp (hfiles ▸ List.mem_singleton_self _)
  obtain ⟨hid, hproject, hpath⟩ : g.id = 1 ∧ g.projectId = 1 ∧ g.relativePath = "a.go" := by
    simpa using hge
  obtain ⟨stats, t, ht⟩ := exists_persist (reachable_run namesakes).sound
    (by decide +kernel : ∃ r ∈ (run namesakes).projects, r.id = 1) 0 { relativePath := "a.go" }
    namesakesGrown
  obtain ⟨x, hx, y, hy, hxc, hyc, -, hsame, hkept⟩ :=
    (reachable_run namesakes).workflow_follows_rank (c := ("f", .function, "2")) hg hpath
      (by rw [hproject]; exact ht) (by rw [hid]; decide +kernel) (by decide +kernel)
  rw [hid] at hx hy hsame
  have hrow : ∀ x ∈ (run namesakes).symbolsIn 1, x.content = ("f", .function, "2") →
      x.id = 2 ∧ x.workflow = { status := some "todo" } := by decide +kernel
  have hyx := hsame.mpr (by decide +kernel)
  exact ⟨stats, t, ht, y, hy, hyc, hyx.trans (hrow x hx hxc).1, (hkept hyx).trans (hrow x hx hxc).2⟩

/-- The first function is gone. -/
def namesakesShrunk : Outline :=
  { symbols := [{ name := "f", range := { startLine := 1 }, contentHash := "2" }] }

/-- The function that was taken up becomes the first one. It takes the row of the one that is gone,
and what people kept on it is lost. -/
theorem workflow_lost_with_rank :
    ((run namesakes).symbolsIn 1).map (fun r => (r.id, r.content, r.workflow.status)) =
      [(1, ("f", .function, "1"), none), (2, ("f", .function, "2"), some "todo")] ∧
    namesakesShrunk.symbols.map (·.content) = [("f", .function, "2")] ∧
    ((run namesakes).persist 0 1 { relativePath := "a.go" } namesakesShrunk).map (fun x =>
        (x.2.symbolsIn 1).map fun r => (r.id, r.content, r.workflow.status)) =
      .ok [(1, ("f", .function, "2"), none)] := by
  refine ⟨?_, ?_, ?_⟩ <;> decide +kernel

end Store

end CodeAtlas
