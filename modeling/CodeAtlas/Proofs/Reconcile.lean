import CodeAtlas.Proofs.Tables

/-!
# Rows of a file that is stored again

* `Declaration.shape`: the part of a declaration that its row always agrees with.
* `reconcile_shape`: the rows stand for the declarations, one by one and in order.
* `reconcile_stored`: the rows that are kept and the rows that are removed are the stored ones.
* `reconcile_issued`: the rows that are new take the next ids.
* **`reconcile_ids_nodup`**: no row stands for two declarations.
* **`reconcile_twins`**: what becomes of declarations does not depend on the ids that are given out.
-/

namespace CodeAtlas

/-- Name, kind, place and content of a declaration. Its row agrees with it in these, whether it was
written or left alone. -/
def Declaration.shape (d : Declaration) : String × SymbolKind × Range × String :=
  (d.name, d.kind, d.range, d.contentHash)

theorem Declaration.name_eq_of_shape {d e : Declaration} (h : d.shape = e.shape) :
    d.name = e.name := congrArg Prod.fst h

namespace SymbolRow

variable {r : SymbolRow} {d : Declaration}

theorem standsFor_iff :
    r.standsFor d = true ↔ r.name = d.name ∧ r.kind = d.kind ∧
      r.flaws.any (·.column == "kind") = false := by
  simp [standsFor, and_assoc]

@[simp] theorem update_id (r : SymbolRow) (d : Declaration) : (r.update d).2.id = r.id := by
  unfold update
  split_ifs <;> rfl

@[simp] theorem update_fileId (r : SymbolRow) (d : Declaration) :
    (r.update d).2.fileId = r.fileId := by
  unfold update
  split_ifs <;> rfl

@[simp] theorem update_name (r : SymbolRow) (d : Declaration) : (r.update d).2.name = r.name := by
  unfold update
  split_ifs <;> rfl

theorem update_flaws (hr : r.flaws = []) : (r.update d).2.flaws = [] := by
  unfold update
  split_ifs <;> simp [move, rewrite, mend, hr]

theorem update_fate_ne_inserted (r : SymbolRow) (d : Declaration) :
    (r.update d).1 ≠ .inserted := by
  unfold update
  split_ifs <;> simp

theorem update_shape (h : r.standsFor d = true) :
    (r.update d).2.toDeclaration.shape = d.shape := by
  obtain ⟨hn, hk, -⟩ := standsFor_iff.mp h
  unfold update
  split_ifs with hh hr
  · simp only [beq_iff_eq] at hh hr
    simp [Declaration.shape, hn, hk, hh, hr]
  · simp only [beq_iff_eq] at hh
    simp [Declaration.shape, move, hn, hk, hh]
  · simp [Declaration.shape, rewrite, hn, hk]

end SymbolRow

namespace Reconciled

/-- The rows that are kept, as they are now. -/
def kept (r : Reconciled) : List SymbolRow := (r.rows.filter (·.1 != .inserted)).map (·.2)

/-- The rows that are new. -/
def fresh (r : Reconciled) : List SymbolRow := (r.rows.filter (·.1 == .inserted)).map (·.2)

theorem rows_perm (r : Reconciled) : (r.rows.map (·.2)).Perm (r.kept ++ r.fresh) := by
  have h := (List.filter_append_perm (fun x : Fate × SymbolRow => x.1 != .inserted) r.rows).symm
  have h' := h.map (·.2)
  rw [List.map_append] at h'
  have hf : r.rows.filter (fun x => !(x.1 != Fate.inserted)) = r.rows.filter (·.1 == .inserted) := by
    refine List.filter_congr fun x _ => ?_
    simp [bne]
  rw [hf] at h'
  exact h'

theorem mem_rows_iff {r : Reconciled} {row : SymbolRow} :
    row ∈ r.rows.map (·.2) ↔ row ∈ r.kept ∨ row ∈ r.fresh := by
  rw [r.rows_perm.mem_iff, List.mem_append]

end Reconciled

/-! ## One declaration after the other -/

section Step

variable {fileId last : Int} {stored rest : List SymbolRow} {d : Declaration} {row : SymbolRow}
  (ds : List Declaration)

theorem reconcile_cons_matched (h : takeFirst (·.standsFor d) stored = some (row, rest)) :
    reconcile fileId last stored (d :: ds) =
      { reconcile fileId last rest ds with
        rows := row.update d :: (reconcile fileId last rest ds).rows } := by
  rw [reconcile, h]

theorem reconcile_cons_new (h : takeFirst (·.standsFor d) stored = none) :
    reconcile fileId last stored (d :: ds) =
      { reconcile fileId (last + 1) stored ds with
        rows := (.inserted, { toDeclaration := d, id := last + 1, fileId }) ::
          (reconcile fileId (last + 1) stored ds).rows } := by
  rw [reconcile, h]

end Step

/-! ## All declarations -/

section Run

variable {fileId : Int}

/-- **The rows stand for the declarations, one by one and in order.** -/
theorem reconcile_shape (last : Int) (stored : List SymbolRow) (ds : List Declaration) :
    List.Forall₂ (fun d (x : Fate × SymbolRow) => x.2.toDeclaration.shape = d.shape) ds
      (reconcile fileId last stored ds).rows := by
  induction ds generalizing last stored with
  | nil => exact List.Forall₂.nil
  | cons d ds ih =>
    cases h : takeFirst (·.standsFor d) stored with
    | some x =>
      obtain ⟨row, rest⟩ := x
      rw [reconcile_cons_matched ds h]
      exact List.Forall₂.cons (SymbolRow.update_shape (takeFirst_eq_some h).1) (ih last rest)
    | none =>
      rw [reconcile_cons_new ds h]
      exact List.Forall₂.cons rfl (ih (last + 1) stored)

/-- **The rows that are kept and those that are removed are the stored ones.** -/
theorem reconcile_stored (last : Int) (stored : List SymbolRow) (ds : List Declaration) :
    ((reconcile fileId last stored ds).kept.map (·.id) ++
      (reconcile fileId last stored ds).removed.map (·.id)).Perm (stored.map (·.id)) := by
  induction ds generalizing last stored with
  | nil => exact List.Perm.refl _
  | cons d ds ih =>
    cases h : takeFirst (·.standsFor d) stored with
    | some x =>
      obtain ⟨row, rest⟩ := x
      rw [reconcile_cons_matched ds h]
      have hf : ((row.update d).1 != Fate.inserted) = true := by
        simpa using SymbolRow.update_fate_ne_inserted row d
      simp only [Reconciled.kept, List.filter_cons, hf, if_true, List.map_cons,
        SymbolRow.update_id, List.cons_append]
      exact ((ih last rest).cons row.id).trans ((takeFirst_eq_some h).2.map SymbolRow.id).symm
    | none =>
      rw [reconcile_cons_new ds h]
      exact ih (last + 1) stored

/-- A row that is kept comes from a stored row with the same id. -/
theorem reconcile_kept (last : Int) (stored : List SymbolRow) (ds : List Declaration) :
    ∀ row ∈ (reconcile fileId last stored ds).kept, ∃ old ∈ stored, ∃ d, row = (old.update d).2 := by
  induction ds generalizing last stored with
  | nil => intro row hrow; simp [reconcile, Reconciled.kept] at hrow
  | cons d ds ih =>
    intro row hrow
    cases h : takeFirst (·.standsFor d) stored with
    | some x =>
      obtain ⟨row', rest⟩ := x
      rw [reconcile_cons_matched ds h] at hrow
      have hf : ((row'.update d).1 != Fate.inserted) = true := by
        simpa using SymbolRow.update_fate_ne_inserted row' d
      simp only [Reconciled.kept, List.filter_cons, hf, if_true, List.map_cons,
        List.mem_cons] at hrow
      rcases hrow with rfl | hrow
      · exact ⟨row', (takeFirst_eq_some h).2.mem_iff.mpr List.mem_cons_self, d, rfl⟩
      · obtain ⟨old, hold, e⟩ := ih last rest row hrow
        exact ⟨old, (takeFirst_eq_some h).2.mem_iff.mpr (List.mem_cons_of_mem _ hold), e⟩
    | none =>
      rw [reconcile_cons_new ds h] at hrow
      exact ih (last + 1) stored row hrow

/-- A row that is new holds its declaration as it is. -/
theorem reconcile_fresh (last : Int) (stored : List SymbolRow) (ds : List Declaration) :
    ∀ row ∈ (reconcile fileId last stored ds).fresh, row.fileId = fileId ∧ row.flaws = [] := by
  induction ds generalizing last stored with
  | nil => intro row hrow; simp [reconcile, Reconciled.fresh] at hrow
  | cons d ds ih =>
    intro row hrow
    cases h : takeFirst (·.standsFor d) stored with
    | some x =>
      obtain ⟨row', rest⟩ := x
      rw [reconcile_cons_matched ds h] at hrow
      have hf : ((row'.update d).1 == Fate.inserted) = false := by
        simpa using SymbolRow.update_fate_ne_inserted row' d
      simp only [Reconciled.fresh, List.filter_cons, hf, Bool.false_eq_true, if_false] at hrow
      exact ih last rest row hrow
    | none =>
      rw [reconcile_cons_new ds h] at hrow
      simp only [Reconciled.fresh, List.filter_cons, beq_self_eq_true, if_true, List.map_cons,
        List.mem_cons] at hrow
      rcases hrow with rfl | hrow
      · exact ⟨rfl, rfl⟩
      · exact ih (last + 1) stored row hrow

/-- The rows belong to the file. -/
theorem reconcile_fileId {last : Int} {stored : List SymbolRow} {ds : List Declaration}
    (h : ∀ row ∈ stored, row.fileId = fileId) {row : SymbolRow}
    (hrow : row ∈ (reconcile fileId last stored ds).rows.map (·.2)) : row.fileId = fileId := by
  rcases Reconciled.mem_rows_iff.mp hrow with hk | hf
  · obtain ⟨old, hold, d, rfl⟩ := reconcile_kept _ _ _ row hk
    exact (SymbolRow.update_fileId _ _).trans (h old hold)
  · exact (reconcile_fresh _ _ _ row hf).1

/-- **The rows that are new take the next ids.** -/
theorem reconcile_issued (last : Int) (stored : List SymbolRow) (ds : List Declaration) :
    last ≤ (reconcile fileId last stored ds).last ∧
      Issued (reconcile fileId last stored ds).last
        ((reconcile fileId last stored ds).fresh.map (·.id)) ∧
      ∀ i ∈ (reconcile fileId last stored ds).fresh.map (·.id), last < i := by
  induction ds generalizing last stored with
  | nil => exact ⟨Int.le_refl _, Issued.nil _, by simp [reconcile, Reconciled.fresh]⟩
  | cons d ds ih =>
    cases h : takeFirst (·.standsFor d) stored with
    | some x =>
      obtain ⟨row, rest⟩ := x
      rw [reconcile_cons_matched ds h]
      have hf : ((row.update d).1 == Fate.inserted) = false := by
        simpa using SymbolRow.update_fate_ne_inserted row d
      simp only [Reconciled.fresh, List.filter_cons, hf, Bool.false_eq_true, if_false]
      exact ih last rest
    | none =>
      rw [reconcile_cons_new ds h]
      simp only [Reconciled.fresh, List.filter_cons, beq_self_eq_true, if_true, List.map_cons]
      obtain ⟨hl, hi, hn⟩ := ih (last + 1) stored
      refine ⟨by omega, ⟨List.pairwise_cons.mpr ⟨fun i hmem => ?_, hi.grows⟩, fun i hmem => ?_⟩,
        fun i hmem => ?_⟩
      · exact hn i hmem
      · rcases List.mem_cons.mp hmem with rfl | hmem
        · exact hl
        · exact hi.bound i hmem
      · rcases List.mem_cons.mp hmem with rfl | hmem
        · omega
        · have := hn i hmem
          omega

/-- **No row stands for two declarations.** -/
theorem reconcile_ids_nodup {last : Int} {stored : List SymbolRow} (hs : (stored.map (·.id)).Nodup)
    (hb : ∀ row ∈ stored, row.id ≤ last) (ds : List Declaration) :
    (((reconcile fileId last stored ds).rows.map (·.2)).map (·.id)).Nodup := by
  set r := reconcile fileId last stored ds
  obtain ⟨-, hi, hn⟩ := @reconcile_issued fileId last stored ds
  have hk : (r.kept.map (·.id)).Nodup :=
    List.Nodup.of_append_left ((reconcile_stored last stored ds).nodup_iff.mpr hs)
  rw [(r.rows_perm.map (·.id)).nodup_iff, List.map_append]
  refine hk.append hi.nodup ?_
  intro i hik hif
  obtain ⟨row, hrow, rfl⟩ := List.mem_map.mp hik
  obtain ⟨old, hold, d, rfl⟩ := reconcile_kept last stored ds row hrow
  have h1 := hb old hold
  have h2 := hn _ hif
  rw [SymbolRow.update_id] at h2
  omega

/-- The last id is that of the last row that is new. -/
theorem reconcile_last (last : Int) (stored : List SymbolRow) (ds : List Declaration) :
    (reconcile fileId last stored ds).last =
      last + (reconcile fileId last stored ds).count .inserted := by
  induction ds generalizing last stored with
  | nil => simp [reconcile, Reconciled.count]
  | cons d ds ih =>
    cases h : takeFirst (·.standsFor d) stored with
    | some x =>
      obtain ⟨row, rest⟩ := x
      rw [reconcile_cons_matched ds h]
      have hf : ((row.update d).1 == Fate.inserted) = false := by
        simpa using SymbolRow.update_fate_ne_inserted row d
      simp only [Reconciled.count, List.filter_cons, hf, Bool.false_eq_true, if_false]
      exact ih last rest
    | none =>
      rw [reconcile_cons_new ds h]
      simp only [Reconciled.count, List.filter_cons, beq_self_eq_true, if_true, List.length_cons]
      have h' := ih (last + 1) stored
      simp only [Reconciled.count] at h'
      omega

end Run

/-! ## The same rows with other ids -/

/-- Two ids that are equal, or that both were given out later. -/
def Paired (last i j : Int) : Prop := i = j ∨ last < i ∧ last < j

theorem Paired.eq_of_le {last i j : Int} (h : Paired last i j) (hi : i ≤ last) : i = j := by
  rcases h with h | ⟨h, -⟩
  · exact h
  · omega

/-- Two rows that differ at most in their files and in ids that were given out later. -/
structure SymbolRow.Twin (last : Int) (r r' : SymbolRow) : Prop where
  declaration : r'.toDeclaration = r.toDeclaration
  flaws : r'.flaws = r.flaws
  id : Paired last r.id r'.id

/-- **What becomes of declarations does not depend on the ids that are given out.** -/
theorem reconcile_twins {c i i' last last' : Int} (hc : c ≤ last) (hc' : c ≤ last')
    (stored : List SymbolRow) (ds : List Declaration) :
    List.Forall₂ (fun x y : Fate × SymbolRow => x.1 = y.1 ∧ x.2.Twin c y.2)
      (reconcile i last stored ds).rows (reconcile i' last' stored ds).rows ∧
    (reconcile i last stored ds).removed = (reconcile i' last' stored ds).removed := by
  induction ds generalizing last last' stored with
  | nil => exact ⟨List.Forall₂.nil, rfl⟩
  | cons d ds ih =>
    cases h : takeFirst (·.standsFor d) stored with
    | some x =>
      obtain ⟨row, rest⟩ := x
      rw [reconcile_cons_matched ds h, reconcile_cons_matched ds h]
      obtain ⟨hrows, hremoved⟩ := ih hc hc' rest
      exact ⟨.cons ⟨rfl, rfl, rfl, Or.inl rfl⟩ hrows, hremoved⟩
    | none =>
      rw [reconcile_cons_new ds h, reconcile_cons_new ds h]
      have hlt : c < last + 1 := by omega
      have hlt' : c < last' + 1 := by omega
      obtain ⟨hrows, hremoved⟩ := ih (Int.le_of_lt hlt) (Int.le_of_lt hlt') stored
      exact ⟨.cons ⟨rfl, rfl, rfl, Or.inr ⟨hlt, hlt'⟩⟩ hrows, hremoved⟩

theorem reconcile_count (i i' last last' : Int) (stored : List SymbolRow) (ds : List Declaration)
    (fate : Fate) :
    (reconcile i last stored ds).count fate = (reconcile i' last' stored ds).count fate := by
  obtain ⟨hrows, -⟩ := @reconcile_twins (min last last') i i' last last' (Int.min_le_left ..)
    (Int.min_le_right ..) stored ds
  unfold Reconciled.count
  generalize (reconcile i last stored ds).rows = xs at hrows ⊢
  generalize (reconcile i' last' stored ds).rows = ys at hrows ⊢
  induction hrows with
  | nil => rfl
  | @cons x y xs ys hxy _ ih =>
    rw [List.filter_cons, List.filter_cons, hxy.1]
    split
    · rw [List.length_cons, List.length_cons, ih]
    · exact ih

end CodeAtlas
