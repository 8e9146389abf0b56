import CodeAtlas.Proofs.Persist

/-!
# Symbols and their ids

An id stands for one symbol as long as the store lives, and only people change what they keep on it.

* `Write.sets?`, `lastSet?`: what a write, or the last of some writes, sets on a symbol.
* `SymbolRow.Carries`: a row goes on as another one.
* `Store.Continues`: the rows of a later state go on from those of an earlier one, or have new ids.
* **`continues_apply`**, **`continues_foldl`**: so do the rows after one write, and after any writes.
* **`identity_of_id`**: two rows with one id in two states of a run are one symbol, which was there all
  the time and holds what was set last.
-/

namespace CodeAtlas

/-- What a write sets on a symbol. -/
def Write.sets? (id : Int) : Write → Option Workflow
  | .setWorkflow i w => if i = id then some w else none
  | _ => none

/-- What the last of some writes that sets anything on a symbol sets on it. -/
def lastSet? (id : Int) (ws : List Write) : Option Workflow := (ws.filterMap (·.sets? id)).getLast?

theorem lastSet?_cons (id : Int) (w : Write) (ws : List Write) :
    lastSet? id (w :: ws) = (lastSet? id ws).or (w.sets? id) := by
  cases hw : w.sets? id with
  | none => rw [lastSet?, List.filterMap_cons_none hw, Option.or_none, lastSet?]
  | some a => rw [lastSet?, List.filterMap_cons_some hw, List.getLast?_cons, Option.or_some, lastSet?]

namespace SymbolRow

variable {x y z : SymbolRow} {a b : Option Workflow}

@[simp] theorem update_kind (r : SymbolRow) (d : Declaration) : (r.update d).2.kind = r.kind := by
  unfold update
  split_ifs <;> rfl

@[simp] theorem update_workflow (r : SymbolRow) (d : Declaration) :
    (r.update d).2.workflow = r.workflow := by
  unfold update
  split_ifs <;> rfl

/-- A row goes on as another one: id, file, name and kind stay, and so does what people keep on it
unless something is set. -/
structure Carries (set : Option Workflow) (x y : SymbolRow) : Prop where
  id : y.id = x.id
  fileId : y.fileId = x.fileId
  name : y.name = x.name
  kind : y.kind = x.kind
  workflow : y.workflow = set.getD x.workflow

theorem Carries.refl (x : SymbolRow) : Carries none x x := ⟨rfl, rfl, rfl, rfl, rfl⟩

theorem Carries.trans (h : Carries a x y) (h' : Carries b y z) : Carries (b.or a) x z where
  id := h'.id.trans h.id
  fileId := h'.fileId.trans h.fileId
  name := h'.name.trans h.name
  kind := h'.kind.trans h.kind
  workflow := by
    rw [h'.workflow, h.workflow]
    cases b <;> rfl

theorem carries_update (r : SymbolRow) (d : Declaration) : Carries none r (r.update d).2 :=
  ⟨update_id r d, update_fileId r d, update_name r d, update_kind r d, update_workflow r d⟩

theorem carries_worked (i : Int) (w : Workflow) (r : SymbolRow) :
    Carries ((Write.setWorkflow i w).sets? r.id) r (Store.worked i w r) := by
  by_cases hi : i = r.id
  · subst hi
    simp only [Store.worked, Write.sets?, beq_self_eq_true, if_true]
    exact ⟨rfl, rfl, rfl, rfl, rfl⟩
  · have hr : (r.id == i) = false := by simpa using Ne.symm hi
    simp only [Store.worked, Write.sets?, hr, hi, if_false]
    exact .refl r

end SymbolRow

namespace Store

variable {s t u : Store} {f g : Int → Option Workflow}

/-- **The rows of a later state go on from those of an earlier one**, as far as their ids had been
given out by then. -/
structure Continues (sets : Int → Option Workflow) (s t : Store) : Prop where
  last : s.last.symbols ≤ t.last.symbols
  origin : ∀ y ∈ t.symbols, y.id ≤ s.last.symbols → ∃ x ∈ s.symbols, x.Carries (sets x.id) y

theorem Continues.of_subset (hlast : t.last.symbols = s.last.symbols)
    (hsub : ∀ y ∈ t.symbols, y ∈ s.symbols) : Continues (fun _ => none) s t :=
  ⟨Int.le_of_eq hlast.symm, fun y hy _ => ⟨y, hsub y hy, .refl y⟩⟩

theorem Continues.refl (s : Store) : Continues (fun _ => none) s s := .of_subset rfl fun _ hy => hy

theorem Continues.trans (h : Continues f s t) (h' : Continues g t u) :
    Continues (fun i => (g i).or (f i)) s u where
  last := Int.le_trans h.last h'.last
  origin := fun z hz hle => by
    obtain ⟨y, hy, hyz⟩ := h'.origin z hz (Int.le_trans hle h.last)
    obtain ⟨x, hx, hxy⟩ := h.origin y hy (by rw [← hyz.id]; exact hle)
    have hxz := hxy.trans hyz
    rw [hxy.id] at hxz
    exact ⟨x, hx, hxz⟩

theorem Continues.afterWrite {α : Type} {x : StoreM (α × Store)}
    (h : ∀ a t, x = .ok (a, t) → Continues (fun _ => none) s t) :
    Continues (fun _ => none) s (afterWrite s x) := by
  cases x with
  | error e => exact .refl s
  | ok y => exact h y.1 y.2 rfl

/-- The rows of a file that is stored are new, or go on from rows that it had. -/
theorem Persisted.continues {now p i : Int} {f : SourceFile} {o : Outline}
    (h : s.Persisted now p f o i t) : Continues (fun _ => none) s t := by
  obtain ⟨hlast, -, hnew⟩ := @reconcile_issued i s.last.symbols (s.rowsOfFile i) o.symbols
  refine ⟨by rw [h.last]; exact hlast, fun y hy hle => ?_⟩
  rcases (h.symbols y).mp hy with ⟨hy, -⟩ | hrow
  · exact ⟨y, hy, .refl y⟩
  · rcases Reconciled.mem_rows_iff.mp hrow with hkept | hfresh
    · obtain ⟨old, hold, d, rfl⟩ := reconcile_kept _ _ _ y hkept
      exact ⟨old, (mem_rowsOfFile.mp hold).1, SymbolRow.carries_update old d⟩
    · have := hnew _ (List.mem_map_of_mem hfresh)
      omega

theorem continues_dropFiles (s : Store) (gone : FileRow → Bool) :
    Continues (fun _ => none) s (s.dropFiles gone) :=
  .of_subset rfl fun _ hy => (mem_symbols_dropFiles.mp hy).1

theorem continues_setWorkflow (s : Store) (i : Int) (w : Workflow) :
    Continues (fun j => (Write.setWorkflow i w).sets? j) s (s.setWorkflow i w).2 := by
  rw [setWorkflow_eq]
  refine ⟨Int.le_refl _, List.forall_mem_map.mpr fun x hx _ => ?_⟩
  exact ⟨x, hx, SymbolRow.carries_worked i w x⟩

/-- **One write**: rows go on or are new, and only people change what they keep on a symbol. -/
theorem continues_apply (h : s.Sound) (w : Write) : Continues (fun i => w.sets? i) s (s.apply w) := by
  cases w with
  | upsertProject now path name =>
    refine .afterWrite fun _ _ ht => ?_
    rw [upsertProject_state ht]
    exact .of_subset rfl fun _ hy => hy
  | persist now p f o =>
    refine .afterWrite fun _ _ ht => ?_
    obtain ⟨i, hp, -⟩ := persist_spec h ht
    exact hp.continues
  | removeFile p path => exact continues_dropFiles s _
  | prune p keep => exact continues_dropFiles s _
  | resolveLinks p => exact .of_subset rfl fun _ hy => hy
  | refresh now p =>
    refine .afterWrite fun _ _ ht => ?_
    rw [refresh_state ht]
    exact .of_subset rfl fun _ hy => hy
  | setWorkflow i w => exact continues_setWorkflow s i w

/-- **Any writes**: rows go on or are new, and hold what was set last. -/
theorem continues_foldl (h : s.Sound) (ws : List Write) :
    Continues (fun i => lastSet? i ws) s (ws.foldl Store.apply s) := by
  induction ws generalizing s with
  | nil => exact .refl s
  | cons w ws ih =>
    have hstep := (continues_apply h w).trans (ih (h.apply w))
    simp only [← lastSet?_cons] at hstep
    exact hstep

theorem run_append (us vs : List Write) : run (us ++ vs) = vs.foldl Store.apply (run us) :=
  List.foldl_append

/-- **An id stands for one symbol, and indexing leaves alone what people keep on it.** Take two states
of a run and a row of each, with one id. Both have the same file, name and kind; in every state in
between there is a row with this id; and what people keep on the symbol is what was set on it last
in between, or else what it was. -/
theorem identity_of_id (us vs : List Write) {x y : SymbolRow} (hx : x ∈ (run us).symbols)
    (hy : y ∈ (run (us ++ vs)).symbols) (hid : y.id = x.id) :
    y.fileId = x.fileId ∧ y.name = x.name ∧ y.kind = x.kind ∧
      (∀ ws, ws <+: vs → ∃ z ∈ (run (us ++ ws)).symbols, z.id = x.id) ∧
      y.workflow = (lastSet? x.id vs).getD x.workflow := by
  have hsound : ∀ ws, (run ws).Sound := fun ws => (reachable_run ws).sound
  have hbound : x.id ≤ (run us).last.symbols :=
    (hsound us).keyed.symbols.bound _ (List.mem_map_of_mem hx)
  have hwhole := continues_foldl (hsound us) vs
  rw [← run_append] at hwhole
  obtain ⟨x', hx', hcarries⟩ := hwhole.origin y hy (by rw [hid]; exact hbound)
  obtain rfl : x' = x := (hsound us).keyed.symbol_eq hx' hx (hcarries.id.symm.trans hid)
  refine ⟨hcarries.fileId, hcarries.name, hcarries.kind, ?_, hcarries.workflow⟩
  -- the id was given out before the state in between, so its row there is the one that went on
  rintro ws ⟨rest, rfl⟩
  have hfirst := continues_foldl (hsound us) ws
  have hrest := continues_foldl (hsound (us ++ ws)) rest
  rw [← run_append] at hfirst hrest
  rw [List.append_assoc] at hrest
  obtain ⟨z, hz, hzy⟩ := hrest.origin y hy (by rw [hid]; exact Int.le_trans hbound hfirst.last)
  exact ⟨z, hz, hzy.id.symm.trans hid⟩

/-- A file with one function, which people take up. -/
def takenUp : List Write :=
  [.upsertProject 0 "/p" "p",
    .persist 0 1 { relativePath := "a.go" } { symbols := [{ name := "f", contentHash := "1" }] },
    .setWorkflow 1 { status := some "todo" }]

/-- The function changes, its name is declared in another file, and people are done with it. -/
def carriedOn : List Write :=
  [.persist 0 1 { relativePath := "a.go" } { symbols := [{ name := "f", contentHash := "2" }] },
    .persist 0 1 { relativePath := "b.go" } { symbols := [{ name := "f" }] },
    .setWorkflow 1 { status := some "done" }, .prune 1 ["a.go"]]

/-- The row that was taken up is the one that is done in the end. -/
theorem identity_of_id_carriedOn :
    (run takenUp).symbols.map (fun r => (r.id, r.workflow)) = [(1, { status := some "todo" })] ∧
    ∃ y ∈ (run (takenUp ++ carriedOn)).symbols, y.id = 1 ∧ y.name = "f" ∧
      y.workflow = { status := some "done" } := by
  have hfirst : (run takenUp).symbols.map (fun r => (r.id, r.name, r.workflow)) =
      [(1, "f", { status := some "todo" })] := by decide +kernel
  have hlast : (run (takenUp ++ carriedOn)).symbols.map (·.id) = [1] := by decide +kernel
  obtain ⟨x, hx, hxe⟩ := List.mem_map.mp (hfirst ▸ List.mem_singleton_self _)
  obtain ⟨y, hy, hye⟩ := List.mem_map.mp (hlast ▸ List.mem_singleton_self (1 : Int))
  obtain ⟨hxid, hxname, -⟩ : x.id = 1 ∧ x.name = "f" ∧ x.workflow = { status := some "todo" } := by
    simpa using hxe
  obtain ⟨-, hname, -, -, hworkflow⟩ := identity_of_id takenUp carriedOn hx hy (hye.trans hxid.symm)
  refine ⟨by decide +kernel, y, hy, hye, hname.trans hxname, ?_⟩
  rw [hworkflow, hxid]
  rfl

end Store

end CodeAtlas
