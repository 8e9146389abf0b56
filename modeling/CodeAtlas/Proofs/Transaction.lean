import CodeAtlas.Proofs.Persist
import CodeAtlas.Store.Transaction

/-!
# Statements of a transaction

* `Tx.Does`: work that answers something and turns some tables into others, unless a statement fails.
  `Does.bind`, `Does.statement`: so does work made of such.
* `Does.transaction`: a transaction does its work, or leaves the tables as they were.
* `dropSymbols_dropSymbols`: symbols that go one after the other go at once.
* `Tx.does_matchAll`: symbols that are matched one by one are reconciled.
* `dropSymbols_settled`: rows may be deleted after the others were written.
* **`Tx.does_matchSymbols`**: statement by statement, the symbols of a file are replaced.
-/

namespace CodeAtlas

variable {s t u : Store}

/-! ## Work in a transaction -/

namespace Tx

variable {α β : Type}

/-- **Work that answers something and turns some tables into others**, unless a statement fails. -/
def Does (tx : Tx α) (s : Store) (a : α) (t : Store) : Prop :=
  ∀ faults n, (∃ e p, tx faults ⟨n, s⟩ = (.error e, p) ∧ ∃ k, faults k = some e) ∨
    ∃ m, tx faults ⟨n, s⟩ = (.ok a, ⟨m, t⟩)

variable {a : α} {b : β}

theorem bind_of_ok {x : Tx α} {faults : Faults} {p q : Progress} (h : x faults p = (.ok a, q))
    (f : α → Tx β) : (x >>= f) faults p = f a faults q := by
  simp only [Bind.bind, h]

theorem bind_of_error {x : Tx α} {faults : Faults} {p q : Progress} {e : StoreError}
    (h : x faults p = (.error e, q)) (f : α → Tx β) : (x >>= f) faults p = (.error e, q) := by
  simp only [Bind.bind, h]

namespace Does

theorem pure (a : α) (s : Store) : Does (pure a) s a s := fun _ n => Or.inr ⟨n, rfl⟩

theorem bind {x : Tx α} {f : α → Tx β} (hx : Does x s a t) (hf : Does (f a) t b u) :
    Does (x >>= f) s b u := by
  intro faults n
  rcases hx faults n with ⟨e, p, he, hk⟩ | ⟨m, hm⟩
  · exact Or.inl ⟨e, p, bind_of_error he f, hk⟩
  · rw [bind_of_ok hm f]
    exact hf faults m

theorem statement {run : Store → StoreM (α × Store)} (h : run s = .ok (a, t)) :
    Does (statement run) s a t := by
  intro faults n
  unfold Tx.statement
  cases hk : faults n with
  | some e => exact Or.inl ⟨e, ⟨n + 1, s⟩, rfl, n, hk⟩
  | none =>
    refine Or.inr ⟨n + 1, ?_⟩
    simp only [h]

theorem query {read : Store → StoreM α} (h : read s = .ok a) : Does (query read) s a s := by
  refine statement ?_
  rw [h]
  rfl

theorem change (f : Store → Store) (s : Store) : Does (change f) s () (f s) := statement rfl

/-- **A transaction does its work, or leaves the tables as they were.** -/
theorem transaction {tx : Tx α} (h : Does tx s a t) (faults : Faults) :
    (∃ e k, faults k = some e ∧ s.transaction faults tx = (.error e, s)) ∨
      s.transaction faults tx = (.ok a, t) := by
  unfold Store.transaction
  rcases h faults 0 with ⟨e, p, he, k, hk⟩ | ⟨m, hm⟩
  · rw [he]
    exact Or.inl ⟨e, k, hk, rfl⟩
  · rw [hm]
    cases hk : faults m with
    | some e => exact Or.inl ⟨e, m, hk, by simp only [hk]⟩
    | none => exact Or.inr (by simp only [hk])

end Does

end Tx

/-! ## Symbols that go one by one -/

namespace Store

theorem dropSymbols_congr {gone gone' : SymbolRow → Bool}
    (h : ∀ x ∈ s.symbols, gone x = gone' x) : s.dropSymbols gone = s.dropSymbols gone' := by
  have hkeep : s.symbols.filter (fun x => !gone x) = s.symbols.filter fun x => !gone' x :=
    List.filter_congr fun x hx => by rw [h x hx]
  unfold dropSymbols
  rw [List.filter_congr h, hkeep]

/-- Where no symbol goes, all stays as it is. -/
theorem dropSymbols_none (s : Store) : s.dropSymbols (fun _ => false) = s := by
  have hlink : ∀ link : Option Int, link.filter (fun _ => true) = link := fun link => by
    cases link <;> rfl
  simp [dropSymbols, hlink]

/-- Symbols that go one after the other go at once. -/
theorem dropSymbols_dropSymbols (s : Store) (gone gone' : SymbolRow → Bool) :
    (s.dropSymbols gone).dropSymbols gone' = s.dropSymbols fun x => gone x || gone' x := by
  have hsymbols : (s.symbols.filter fun x => !gone x).filter (fun x => !gone' x) =
      s.symbols.filter fun x => !(gone x || gone' x) := by
    rw [List.filter_filter]
    exact List.filter_congr fun x _ => by rw [Bool.not_or, Bool.and_comm]
  have hids : ∀ i, i ∈ (s.symbols.filter fun x => gone x || gone' x).map (·.id) ↔
      i ∈ (s.symbols.filter gone).map (·.id) ∨
        i ∈ ((s.dropSymbols gone).symbols.filter gone').map (·.id) := by
    intro i
    simp only [List.mem_map, List.mem_filter, mem_dropSymbols, Bool.or_eq_true]
    constructor
    · rintro ⟨x, ⟨hx, hg⟩, hi⟩
      by_cases hgone : gone x = true
      · exact Or.inl ⟨x, ⟨hx, hgone⟩, hi⟩
      · exact Or.inr ⟨x, ⟨⟨hx, by simpa using hgone⟩, hg.resolve_left hgone⟩, hi⟩
    · rintro (⟨x, ⟨hx, hg⟩, hi⟩ | ⟨x, ⟨⟨hx, -⟩, hg⟩, hi⟩)
      · exact ⟨x, ⟨hx, Or.inl hg⟩, hi⟩
      · exact ⟨x, ⟨hx, Or.inr hg⟩, hi⟩
  have hcleared : ∀ link, (s.dropSymbols gone).cleared gone' (s.cleared gone link) =
      s.cleared (fun x => gone x || gone' x) link := by
    intro link
    refine Option.ext fun i => ?_
    rw [cleared_eq_some, cleared_eq_some, cleared_eq_some, hids, not_or, and_assoc]
  have hedge : ∀ r, (s.dropSymbols gone).clearEdge gone' (s.clearEdge gone r) =
      s.clearEdge (fun x => gone x || gone' x) r := by
    intro r
    rw [clearEdge, clearEdge, clearEdge, ← hcleared, ← hcleared]
  have huse : ∀ r, (s.dropSymbols gone).clearUse gone' (s.clearUse gone r) =
      s.clearUse (fun x => gone x || gone' x) r := by
    intro r
    rw [clearUse, clearUse, clearUse, ← hcleared, ← hcleared]
  rw [dropSymbols_eq, dropSymbols_eq (s := s) (fun x => gone x || gone' x)]
  congr 1
  · exact (List.map_map ..).trans (List.map_congr_left fun r _ => hedge r)
  · exact (List.map_map ..).trans (List.map_congr_left fun r _ => huse r)

end Store

/-! ## Symbols that are matched one by one -/

namespace Reconciled

variable {r : Reconciled} {x : SymbolRow}

/-- What becomes of a stored row: the row of its declaration, or itself. -/
def put (r : Reconciled) (x : SymbolRow) : SymbolRow :=
  ((r.rows.find? (·.2.id == x.id)).map (·.2)).getD x

@[simp] theorem put_id (r : Reconciled) (x : SymbolRow) : (r.put x).id = x.id := by
  unfold put
  cases h : r.rows.find? (·.2.id == x.id) with
  | none => rfl
  | some y => simpa using List.find?_some h

theorem put_of_not_mem (h : ∀ y ∈ r.rows, y.2.id ≠ x.id) : r.put x = x := by
  have hnone : r.rows.find? (·.2.id == x.id) = none :=
    List.find?_eq_none.mpr fun y hy => by simpa using h y hy
  rw [put, hnone]
  rfl

theorem put_cons (r : Reconciled) (y : Fate × SymbolRow) (x : SymbolRow) :
    put { r with rows := y :: r.rows } x = if y.2.id == x.id then y.2 else r.put x := by
  unfold put
  rw [List.find?_cons]
  cases y.2.id == x.id <;> rfl

end Reconciled

/-- A row of a declaration is a stored one, or it is new. -/
theorem reconcile_id_mem {fileId last : Int} {stored : List SymbolRow} {ds : List Declaration}
    {y : Fate × SymbolRow} (hy : y ∈ (reconcile fileId last stored ds).rows) :
    y.2.id ∈ stored.map (·.id) ∨ last < y.2.id := by
  rcases Reconciled.mem_rows_iff.mp (List.mem_map_of_mem hy) with hk | hf
  · exact Or.inl ((reconcile_stored last stored ds).mem_iff.mp
      (List.mem_append_left _ (List.mem_map_of_mem hk)))
  · exact Or.inr ((reconcile_issued last stored ds).2.2 _ (List.mem_map_of_mem hf))

/-- The tables with the declared symbols of a file in place, before those that are left over go. -/
def Store.settled (s : Store) (r : Reconciled) : Store :=
  { s with symbols := s.symbols.map r.put ++ r.fresh, last := { s.last with symbols := r.last } }

theorem settled_nil (s : Store) (left : List SymbolRow) :
    s.settled ⟨[], left, s.last.symbols⟩ = s := by
  have hput : s.symbols.map (Reconciled.put ⟨[], left, s.last.symbols⟩) = s.symbols :=
    List.map_id _
  rw [Store.settled, hput, Reconciled.fresh, List.filter_nil, List.map_nil, List.append_nil]

/-- A row that was rewritten before the others. -/
theorem settled_updateSymbol (s : Store) {r : Reconciled} {row : SymbolRow} (d : Declaration)
    (h : ∀ y ∈ r.rows, y.2.id ≠ row.id) :
    (s.updateSymbol row.id fun _ => (row.update d).2).settled r =
      s.settled { r with rows := row.update d :: r.rows } := by
  have hfate : ((row.update d).1 == Fate.inserted) = false := by
    simpa using SymbolRow.update_fate_ne_inserted row d
  have hfresh : Reconciled.fresh { r with rows := row.update d :: r.rows } = r.fresh := by
    simp only [Reconciled.fresh, List.filter_cons, hfate, Bool.false_eq_true, if_false]
  have hput : (s.updateSymbol row.id fun _ => (row.update d).2).symbols.map r.put =
      s.symbols.map (Reconciled.put { r with rows := row.update d :: r.rows }) := by
    rw [Store.updateSymbol, List.map_map]
    refine List.map_congr_left fun x _ => ?_
    rw [Reconciled.put_cons, SymbolRow.update_id, Function.comp]
    by_cases he : x.id = row.id
    · rw [if_pos (by simpa using he), if_pos (by simpa using he.symm),
        Reconciled.put_of_not_mem fun y hy => by rw [SymbolRow.update_id]; exact h y hy]
    · rw [if_neg (by simpa using he), if_neg (by simpa using Ne.symm he)]
  rw [Store.settled, hput, Store.settled, hfresh]
  rfl

/-- A row that was inserted before the others. -/
theorem settled_insertSymbol {i : Int} {d : Declaration} {r : Reconciled}
    (hbound : ∀ j ∈ s.symbols.map (·.id), j ≤ s.last.symbols)
    (h : ∀ y ∈ r.rows, y.2.id ≠ s.last.symbols + 1) :
    (s.insertSymbol i d).2.settled r = s.settled { r with
      rows := (.inserted, { toDeclaration := d, id := s.last.symbols + 1, fileId := i }) ::
        r.rows } := by
  set new : SymbolRow := { toDeclaration := d, id := s.last.symbols + 1, fileId := i } with hnew
  have hput : s.symbols.map (Reconciled.put { r with rows := (.inserted, new) :: r.rows }) =
      s.symbols.map r.put := by
    refine List.map_congr_left fun x hx => ?_
    have hx := hbound _ (List.mem_map_of_mem hx)
    have hne : s.last.symbols + 1 ≠ x.id := by omega
    rw [Reconciled.put_cons, if_neg (by simpa [hnew] using hne)]
  have hsymbols : (s.insertSymbol i d).2.symbols = s.symbols ++ [new] := rfl
  have hfresh : Reconciled.fresh { r with rows := (.inserted, new) :: r.rows } =
      new :: r.fresh := rfl
  rw [Store.settled, Store.settled, hput, hsymbols, List.map_append, List.map_singleton,
    Reconciled.put_of_not_mem h, hfresh, List.append_assoc, List.singleton_append]
  rfl

theorem Store.updateSymbol_eq {x : SymbolRow} (h : (s.symbols.map (·.id)).Nodup) (hx : x ∈ s.symbols)
    (f : SymbolRow → SymbolRow) :
    s.updateSymbol x.id f = s.updateSymbol x.id fun _ => f x := by
  have hmap : (s.symbols.map fun y => if y.id == x.id then f y else y) =
      s.symbols.map fun y => if y.id == x.id then f x else y := by
    refine List.map_congr_left fun y hy => ?_
    by_cases he : y.id = x.id
    · rw [List.inj_on_of_nodup_map h hy hx he]
    · rw [if_neg (by simpa using he), if_neg (by simpa using he)]
  rw [updateSymbol, hmap, updateSymbol]

theorem Store.updateSymbol_self {x : SymbolRow} (h : (s.symbols.map (·.id)).Nodup)
    (hx : x ∈ s.symbols) : s.updateSymbol x.id (fun _ => x) = s := by
  rw [show (fun _ : SymbolRow => x) = fun _ => id x from rfl, ← updateSymbol_eq h hx id]
  have hmap : (s.symbols.map fun y => if y.id == x.id then id y else y) = s.symbols :=
    (List.map_congr_left fun y _ => ite_self y).trans (List.map_id _)
  rw [updateSymbol, hmap]

namespace Tx

/-- Stored rows that are still to be matched are rows of the table. -/
structure Matchable (s : Store) (left : List SymbolRow) : Prop where
  issued : Issued s.last.symbols (s.symbols.map (·.id))
  stored : ∀ x ∈ left, x ∈ s.symbols
  nodup : (left.map (·.id)).Nodup

namespace Matching

/-- Notes what became of all declarations, and which rows are left over. -/
def noteAll (m : Matching) (r : Reconciled) : Matching :=
  r.rows.foldl (fun m x => m.note x.1 x.2.name x.2.id) { m with left := r.removed }

end Matching

section Match

variable {i : Int} {m : Matching} {d : Declaration} {row : SymbolRow} {rest : List SymbolRow}

theorem Matchable.bound {left : List SymbolRow} (h : Matchable s left) {x : SymbolRow}
    (hx : x ∈ left) : x.id ≤ s.last.symbols :=
  h.issued.bound _ (List.mem_map_of_mem (h.stored x hx))

/-- A declaration that a row stands for rewrites the row. -/
theorem does_matchSymbol_matched (h : Matchable s m.left)
    (ht : takeFirst (·.standsFor d) m.left = some (row, rest)) :
    Does (matchSymbol i m d) s
      (Matching.note { m with left := rest } (row.update d).1 (row.update d).2.name row.id)
      (s.updateSymbol row.id fun _ => (row.update d).2) := by
  obtain ⟨hstands, hperm⟩ := takeFirst_eq_some ht
  have hrow : row ∈ s.symbols := h.stored row (hperm.mem_iff.mpr List.mem_cons_self)
  rw [SymbolRow.update_name, (SymbolRow.standsFor_iff.mp hstands).1]
  unfold matchSymbol SymbolRow.update
  simp only [ht]
  split_ifs
  · rw [Store.updateSymbol_self h.issued.nodup hrow]
    exact .pure _ _
  · rw [← Store.updateSymbol_eq h.issued.nodup hrow (·.move d.range)]
    exact (Does.change _ _).bind (.pure _ _)
  · rw [← Store.updateSymbol_eq h.issued.nodup hrow (·.rewrite d)]
    exact (Does.change _ _).bind (.pure _ _)

/-- A declaration that no row stands for gets a new one. -/
theorem does_matchSymbol_new (s : Store) (ht : takeFirst (·.standsFor d) m.left = none) :
    Does (matchSymbol i m d) s (m.note .inserted d.name (s.last.symbols + 1))
      (s.insertSymbol i d).2 := by
  unfold matchSymbol
  simp only [ht]
  exact (Does.statement rfl).bind (.pure _ _)

theorem Matchable.matched (h : Matchable s m.left)
    (ht : takeFirst (·.standsFor d) m.left = some (row, rest)) :
    Matchable (s.updateSymbol row.id fun _ => (row.update d).2) rest := by
  obtain ⟨-, hperm⟩ := takeFirst_eq_some ht
  have hnd := (hperm.map SymbolRow.id).nodup_iff.mp h.nodup
  rw [List.map_cons, List.nodup_cons] at hnd
  refine ⟨?_, fun x hx => ?_, hnd.2⟩
  · have hids : (s.updateSymbol row.id fun _ => (row.update d).2).symbols.map (·.id) =
        s.symbols.map (·.id) := by
      rw [Store.updateSymbol, List.map_map]
      refine List.map_congr_left fun y _ => ?_
      simp only [Function.comp]
      split
      · next he => rw [SymbolRow.update_id]; exact (beq_iff_eq.mp he).symm
      · rfl
    rw [hids]
    exact h.issued
  · have hne : x.id ≠ row.id := fun he => hnd.1 (he ▸ List.mem_map_of_mem hx)
    exact List.mem_map.mpr ⟨x, h.stored x (hperm.mem_iff.mpr (List.mem_cons_of_mem _ hx)),
      if_neg (by simpa using hne)⟩

theorem Matchable.inserted {left : List SymbolRow} (h : Matchable s left) (i : Int)
    (d : Declaration) : Matchable (s.insertSymbol i d).2 left := by
  refine ⟨?_, fun x hx => List.mem_append_left _ (h.stored x hx), h.nodup⟩
  rw [Store.insertSymbol, List.map_append]
  exact h.issued.snoc

theorem noteAll_cons (m : Matching) (r : Reconciled) (x : Fate × SymbolRow)
    (left : List SymbolRow) :
    m.noteAll { r with rows := x :: r.rows } =
      Matching.noteAll (Matching.note { m with left } x.1 x.2.name x.2.id) r := rfl

/-- **Symbols that are matched one by one are reconciled.** -/
theorem does_matchAll (h : Matchable s m.left) (ds : List Declaration) :
    Does (ds.foldlM (matchSymbol i) m) s
      (m.noteAll (reconcile i s.last.symbols m.left ds))
      (s.settled (reconcile i s.last.symbols m.left ds)) := by
  induction ds generalizing s m with
  | nil =>
    rw [reconcile, settled_nil]
    exact .pure _ _
  | cons d ds ih =>
    rw [List.foldlM_cons]
    cases ht : takeFirst (·.standsFor d) m.left with
    | some x =>
      obtain ⟨row, rest⟩ := x
      obtain ⟨-, hperm⟩ := takeFirst_eq_some ht
      have hnd := (hperm.map SymbolRow.id).nodup_iff.mp h.nodup
      rw [List.map_cons, List.nodup_cons] at hnd
      set r := reconcile i s.last.symbols rest ds with hr
      -- no later declaration has the row of this one
      have hother : ∀ y ∈ r.rows, y.2.id ≠ row.id := by
        intro y hy he
        rcases reconcile_id_mem hy with hmem | hlt
        · exact hnd.1 (he ▸ hmem)
        · have := h.bound (hperm.mem_iff.mpr List.mem_cons_self)
          omega
      rw [reconcile_cons_matched ds ht, ← hr, noteAll_cons, SymbolRow.update_id,
        ← settled_updateSymbol s d hother]
      exact (does_matchSymbol_matched h ht).bind
        (ih (m := Matching.note { m with left := rest } (row.update d).1 (row.update d).2.name row.id)
          (h.matched ht))
    | none =>
      set r := reconcile i (s.last.symbols + 1) m.left ds with hr
      have hother : ∀ y ∈ r.rows, y.2.id ≠ s.last.symbols + 1 := by
        intro y hy he
        rcases reconcile_id_mem hy with hmem | hlt
        · obtain ⟨x, hx, hxy⟩ := List.mem_map.mp hmem
          have := h.bound hx
          omega
        · omega
      rw [reconcile_cons_new ds ht, ← hr, noteAll_cons, ← settled_insertSymbol h.issued.bound hother]
      exact (does_matchSymbol_new s ht).bind
        (ih (m := m.note .inserted d.name (s.last.symbols + 1)) (h.inserted i d))

end Match

/-! ## What was noted -/

section Notes

/-- Of several declarations of a name the first one counts. -/
theorem lookup_note (m : Matching) (fate : Fate) (name : String) (id : Int) (n : String) :
    (m.note fate name id).locals.lookup n =
      (m.locals.lookup n).or (if n == name then some id else none) := by
  unfold Matching.note
  by_cases hany : m.locals.any (·.1 == name) = true
  · simp only [hany, if_true]
    by_cases hn : n = name
    · obtain ⟨x, hx, hk⟩ := List.any_eq_true.mp hany
      have hsome : (m.locals.lookup n).isSome = true :=
        List.lookup_isSome_iff.mpr ⟨x, hx, by simpa [hn] using (beq_iff_eq.mp hk).symm⟩
      obtain ⟨j, hj⟩ := Option.isSome_iff_exists.mp hsome
      rw [hj, Option.some_or]
    · rw [if_neg (by simpa using hn), Option.or_none]
  · simp only [if_neg hany, List.lookup_append, List.lookup_cons, List.lookup_nil]
    cases n == name <;> rfl

theorem lookup_noteAll (m : Matching) (r : Reconciled) (n : String) :
    (m.noteAll r).locals.lookup n = (m.locals.lookup n).or (r.localId? n) := by
  obtain ⟨rows, removed, last⟩ := r
  induction rows generalizing m with
  | nil => exact Option.or_none.symm
  | cons x rows ih =>
    have hlocal : Reconciled.localId? ⟨x :: rows, removed, last⟩ n =
        (if n == x.2.name then some x.2.id else none).or
          (Reconciled.localId? ⟨rows, removed, last⟩ n) := by
      rw [Reconciled.localId?, List.find?_cons, Bool.beq_comm]
      cases n == x.2.name <;> rfl
    rw [noteAll_cons m ⟨rows, removed, last⟩ x m.left, ih, lookup_note, hlocal, Option.or_assoc]

theorem left_noteAll (m : Matching) (r : Reconciled) : (m.noteAll r).left = r.removed := by
  obtain ⟨rows, removed, last⟩ := r
  induction rows generalizing m with
  | nil => rfl
  | cons x rows ih =>
    rw [noteAll_cons m ⟨rows, removed, last⟩ x m.left]
    exact ih _

/-- Every declaration is counted under its fate. -/
theorem stats_noteAll (m : Matching) (r : Reconciled) :
    (m.noteAll r).stats = { m.stats with
      symbolsInserted := m.stats.symbolsInserted + r.count .inserted
      symbolsUpdated := m.stats.symbolsUpdated + r.count .updated
      symbolsUnchanged := m.stats.symbolsUnchanged + r.count .kept
      symbolsMoved := m.stats.symbolsMoved + r.count .moved } := by
  obtain ⟨rows, removed, last⟩ := r
  induction rows generalizing m with
  | nil => rfl
  | cons x rows ih =>
    obtain ⟨fate, row⟩ := x
    rw [noteAll_cons m ⟨rows, removed, last⟩ (fate, row) m.left, ih]
    cases fate <;>
      simp [Matching.note, counted, Reconciled.count, Nat.add_assoc, Nat.add_comm 1]

end Notes

end Tx

/-! ## Rows that are left over -/

/-- Whether a row is left over. -/
def Reconciled.removes (r : Reconciled) (x : SymbolRow) : Bool :=
  (r.removed.map (·.id)).contains x.id

namespace Store

section Settled

variable {i : Int} {ds : List Declaration} {x : SymbolRow}

theorem reconciled_removes_iff :
    (s.reconciled i ds).removes x = true ↔ x.id ∈ (s.reconciled i ds).removed.map (·.id) :=
  List.contains_iff_mem

/-- What is left over was stored. -/
theorem exists_of_removes (h : (s.reconciled i ds).removes x = true) :
    ∃ y ∈ s.symbols, y.fileId = i ∧ y.id = x.id := by
  have hmem := (reconcile_stored s.last.symbols (s.rowsOfFile i) ds).mem_iff.mp
    (List.mem_append_right _ (reconciled_removes_iff.mp h))
  obtain ⟨y, hy, he⟩ := List.mem_map.mp hmem
  obtain ⟨hy, hi⟩ := mem_rowsOfFile.mp hy
  exact ⟨y, hy, hi, he⟩

theorem removes_eq_leaves (h : s.Keyed) (hx : x ∈ s.symbols) :
    (s.reconciled i ds).removes x = s.leaves i ds x := by
  cases hr : (s.reconciled i ds).removes x with
  | false =>
    rw [Reconciled.removes] at hr
    rw [leaves, hr, Bool.and_false]
  | true =>
    obtain ⟨y, hy, hi, he⟩ := exists_of_removes hr
    rw [Reconciled.removes] at hr
    rw [leaves, hr, h.symbol_eq hx hy he.symm, hi, beq_self_eq_true, Bool.and_true]

/-- What is new is not left over. -/
theorem removes_of_fresh (h : s.Keyed) (hx : x ∈ (s.reconciled i ds).fresh) :
    (s.reconciled i ds).removes x = false := by
  by_contra hc
  obtain ⟨y, hy, -, he⟩ := exists_of_removes (by simpa using hc)
  have hold := h.symbols.bound _ (List.mem_map_of_mem hy)
  have hnew := (reconcile_issued s.last.symbols (s.rowsOfFile i) ds).2.2 _ (List.mem_map_of_mem hx)
  omega

theorem put_eq_placed (h : s.Keyed) (hx : x ∈ s.symbols) :
    (s.reconciled i ds).put x = s.placed i ds x := by
  rw [placed]
  split
  · rfl
  · next hi =>
    refine Reconciled.put_of_not_mem fun y hy he => hi ?_
    rcases reconcile_id_mem hy with hmem | hlt
    · obtain ⟨z, hz, hzy⟩ := List.mem_map.mp hmem
      obtain ⟨hz, hzi⟩ := mem_rowsOfFile.mp hz
      rw [h.symbol_eq hx hz (he.symm.trans hzy.symm), hzi, beq_self_eq_true]
    · have := h.symbols.bound _ (List.mem_map_of_mem hx)
      omega

/-- **Rows may be deleted after the others were written.** -/
theorem dropSymbols_settled (h : s.Keyed) (i : Int) (ds : List Declaration) :
    (s.settled (s.reconciled i ds)).dropSymbols (s.reconciled i ds).removes =
      s.replaceSymbols i (s.reconciled i ds) := by
  set r := s.reconciled i ds with hr
  have hcomp : ∀ x ∈ s.symbols, r.removes (r.put x) = s.leaves i ds x := fun x hx => by
    rw [← removes_eq_leaves h hx, Reconciled.removes, Reconciled.put_id, Reconciled.removes]
  have hstay : (s.settled r).symbols.filter (fun x => !r.removes x) =
      (s.dropSymbols (s.leaves i ds)).symbols.map (s.placed i ds) ++ r.fresh := by
    have hfresh : r.fresh.filter (fun x => !r.removes x) = r.fresh :=
      List.filter_eq_self.mpr fun x hx => by rw [removes_of_fresh h hx]; rfl
    have hold : s.symbols.filter ((fun x => !r.removes x) ∘ r.put) =
        (s.dropSymbols (s.leaves i ds)).symbols :=
      List.filter_congr fun x hx => by rw [Function.comp, hcomp x hx]
    rw [settled, List.filter_append, List.filter_map, hfresh, hold]
    congr 1
    exact List.map_congr_left fun x hx => put_eq_placed h ((mem_dropSymbols _).mp hx).1
  have hgo : ((s.settled r).symbols.filter r.removes).map (·.id) =
      (s.symbols.filter (s.leaves i ds)).map (·.id) := by
    have hfresh : r.fresh.filter r.removes = [] :=
      List.filter_eq_nil_iff.mpr fun x hx => by rw [removes_of_fresh h hx]; exact Bool.false_ne_true
    have hold : s.symbols.filter (r.removes ∘ r.put) = s.symbols.filter (s.leaves i ds) :=
      List.filter_congr fun x hx => hcomp x hx
    rw [settled, List.filter_append, List.filter_map, hfresh, hold, List.append_nil, List.map_map]
    exact List.map_congr_left fun x _ => r.put_id x
  have hcleared : (s.settled r).cleared r.removes = s.cleared (s.leaves i ds) := by
    funext link
    rw [cleared, cleared, hgo]
  have hedge : (s.settled r).clearEdge r.removes = s.clearEdge (s.leaves i ds) := by
    funext e
    rw [clearEdge, clearEdge, hcleared]
  have huse : (s.settled r).clearUse r.removes = s.clearUse (s.leaves i ds) := by
    funext e
    rw [clearUse, clearUse, hcleared]
  rw [dropSymbols_eq, hstay, hedge, huse, hr, replaceSymbols_eq]
  rfl

end Settled

end Store

namespace Tx

theorem does_deleteLeft (m : Matching) (s : Store) (r : SymbolRow) :
    Does (deleteLeft m r) s
      { m with stats := { m.stats with symbolsRemoved := m.stats.symbolsRemoved + 1 } }
      (s.deleteSymbol r.id) := (Does.change _ _).bind (.pure _ _)

/-- Rows that are deleted one by one are deleted at once. -/
theorem does_deleteAll (m : Matching) (s : Store) (rows : List SymbolRow) :
    Does (rows.foldlM deleteLeft m) s
      { m with stats := { m.stats with
        symbolsRemoved := m.stats.symbolsRemoved + rows.length } }
      (s.dropSymbols fun x => (rows.map (·.id)).contains x.id) := by
  induction rows generalizing m s with
  | nil =>
    have hnone : s.dropSymbols (fun x => (([] : List SymbolRow).map (·.id)).contains x.id) = s :=
      s.dropSymbols_none
    rw [hnone]
    exact .pure _ _
  | cons r rows ih =>
    have hdrop : s.dropSymbols (fun x => ((r :: rows).map (·.id)).contains x.id) =
        (s.deleteSymbol r.id).dropSymbols fun x => (rows.map (·.id)).contains x.id := by
      rw [Store.deleteSymbol, Store.dropSymbols_dropSymbols]
      exact Store.dropSymbols_congr fun x _ => by rw [List.map_cons, List.contains_cons]
    rw [List.foldlM_cons, hdrop, List.length_cons, Nat.add_comm rows.length, ← Nat.add_assoc]
    exact (does_deleteLeft m s r).bind (ih _ _)

/-- **The symbols of a file are replaced.** Its names have the ids of their first declarations, and
everything is counted. -/
theorem does_matchSymbols (h : s.Sound) (shuffle : Shuffle) (i : Int) (stats : WriteStats)
    (ds : List Declaration) :
    ∃ m, Does (matchSymbols shuffle i stats ds) s m (s.replaceSymbols i (s.reconciled i ds)) ∧
      (∀ n, m.locals.lookup n = (s.reconciled i ds).localId? n) ∧
      m.stats = { stats with
        symbolsInserted := stats.symbolsInserted + (s.reconciled i ds).count .inserted
        symbolsUpdated := stats.symbolsUpdated + (s.reconciled i ds).count .updated
        symbolsUnchanged := stats.symbolsUnchanged + (s.reconciled i ds).count .kept
        symbolsMoved := stats.symbolsMoved + (s.reconciled i ds).count .moved
        symbolsRemoved := stats.symbolsRemoved + (s.reconciled i ds).removed.length } := by
  set r := s.reconciled i ds with hr
  have hquery : (do
      let rows := s.rowsOfFile i
      rows.forM fun r => checkFlaws (rangeColumns 4) r.flaws
      pure rows : StoreM (List SymbolRow)) = .ok (s.rowsOfFile i) := by
    simp only [Store.forM_checkFlaws (fun x hx =>
      h.flawless.symbols x (Store.mem_rowsOfFile.mp hx).1) (rangeColumns 4)]
    rfl
  have hmatchable : Matchable s (s.rowsOfFile i) :=
    ⟨h.keyed.symbols, fun x hx => (Store.mem_rowsOfFile.mp hx).1, Store.rowsOfFile_nodup h.keyed i⟩
  set m : Matching := Matching.noteAll { left := s.rowsOfFile i, stats } r with hm
  have hleft : m.left = r.removed := left_noteAll _ _
  have hperm := shuffle.perm m.left
  have hdrop : (s.settled r).dropSymbols (fun x =>
      ((shuffle.order m.left).map (·.id)).contains x.id) = s.replaceSymbols i r := by
    rw [← Store.dropSymbols_settled h.keyed i ds, ← hr]
    refine Store.dropSymbols_congr fun x _ => ?_
    rw [Reconciled.removes, Bool.eq_iff_iff, List.contains_iff_mem, List.contains_iff_mem,
      (hperm.map SymbolRow.id).mem_iff, hleft]
  refine ⟨_, (Does.query hquery).bind ((does_matchAll (m := { left := s.rowsOfFile i, stats })
    hmatchable ds).bind (hdrop ▸ does_deleteAll m (s.settled r) (shuffle.order m.left))), ?_, ?_⟩
  · intro n
    rw [hm, lookup_noteAll]
    rfl
  · rw [hperm.length_eq, hleft, hm, stats_noteAll]

end Tx

end CodeAtlas
