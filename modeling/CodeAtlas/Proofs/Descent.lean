import Mathlib.Algebra.GroupWithZero.Nat
import Mathlib.Algebra.Order.BigOperators.Group.List
import Mathlib.Algebra.Order.Group.Nat
import Mathlib.Data.List.Chain
import CodeAtlas.Audit.Cycle
import CodeAtlas.Proofs.Tables

/-!
# The search for cycles step by step

The search goes down from a file to what it imports, and retires a file when all that it imports was
looked at.

* `FileGraph.Imports`: a file imports another one.
* `CycleSearch.Move`: what a step does. It retires a file, closes a cycle, passes over a file that is
  done, or goes down to a new one.
* **`CycleSearch.Ordered`**: the frames are those of the path, which is a chain of imports through
  files that are not done; `Ordered.move`.
* `CycleSearch.left`: the steps that are left. `Ordered.left_move`: each step takes one of them, so the
  bound is enough (`Ordered.run_ends`).
* **`FileGraph.search_rests`**, `FileGraph.search_induction`: after the search all files that import
  something are done, and what every step keeps holds.
-/

namespace CodeAtlas

namespace FileGraph

/-- A file imports another one. -/
def Imports (g : FileGraph) (a b : String) : Prop := b ∈ g.successors a

instance (g : FileGraph) (a b : String) : Decidable (g.Imports a b) :=
  inferInstanceAs (Decidable (b ∈ g.successors a))

variable {g : FileGraph} {a b : String}

/-- A file that imports something stands in the graph with all that it imports. -/
theorem Imports.exists_entry (h : g.Imports a b) : ∃ x ∈ g, x.1 = a ∧ b ∈ x.2 := by
  unfold Imports successors at h
  cases hfind : g.find? (·.1 == a) with
  | none => simp [hfind] at h
  | some x =>
    rw [hfind] at h
    exact ⟨x, List.mem_of_find?_eq_some hfind, by simpa using List.find?_some hfind, h⟩

theorem mem_files {f : String} : f ∈ g.files ↔ ∃ x ∈ g, x.1 = f ∨ f ∈ x.2 := by
  rw [files, (distinct_spec _).2, List.mem_append, List.mem_map, List.mem_flatMap]
  simp only [and_or_left, exists_or]

theorem Imports.mem_files (h : g.Imports a b) : b ∈ g.files := by
  obtain ⟨x, hx, -, hb⟩ := h.exists_entry
  exact FileGraph.mem_files.mpr ⟨x, hx, Or.inr hb⟩

theorem files_nodup (g : FileGraph) : g.files.Nodup := (distinct_spec _).1

/-- The steps that a file takes: one for each import, and one to retire it. -/
def weight (g : FileGraph) (f : String) : Nat := (g.successors f).length + 1

theorem searchBound_eq (g : FileGraph) : g.searchBound = (g.files.map g.weight).sum :=
  List.sum_eq_foldl_nat.symm

end FileGraph

namespace CycleSearch

variable {g : FileGraph} {s t : CycleSearch} {f : String}

/-! ## Steps -/

/-- **What a step does.** -/
inductive Move (g : FileGraph) (s : CycleSearch) : CycleSearch → Prop where
  /-- Nothing is pending, so the innermost file is done. -/
  | retire {file : String} {outer : List CycleFrame} (hs : s.stack = ⟨file, []⟩ :: outer) :
      Move g s { s with stack := outer, path := s.path.dropLast, done := file :: s.done }
  /-- The next file is on the path, so the path from there on is a cycle. -/
  | back {file next : String} {pending : List String} {outer : List CycleFrame}
      (hs : s.stack = ⟨file, next :: pending⟩ :: outer) (hpath : next ∈ s.path) :
      Move g s (CycleSearch.close { s with stack := ⟨file, pending⟩ :: outer }
        (canonicalCycle (s.path.drop (s.path.idxOf next))))
  /-- The next file is done. -/
  | pass {file next : String} {pending : List String} {outer : List CycleFrame}
      (hs : s.stack = ⟨file, next :: pending⟩ :: outer) (hpath : next ∉ s.path)
      (hdone : next ∈ s.done) : Move g s { s with stack := ⟨file, pending⟩ :: outer }
  /-- The next file is new. -/
  | down {file next : String} {pending : List String} {outer : List CycleFrame}
      (hs : s.stack = ⟨file, next :: pending⟩ :: outer) (hpath : next ∉ s.path)
      (hdone : next ∉ s.done) :
      Move g s
        { s with
          stack := ⟨next, g.successors next⟩ :: ⟨file, pending⟩ :: outer
          path := s.path ++ [next] }

theorem move_of_step (h : s.step g = some t) : Move g s t := by
  unfold step at h
  split at h
  · cases h
  · next hs =>
    cases h
    exact .retire hs
  · next hs =>
    simp only [List.contains_iff_mem] at h
    split_ifs at h with hpath hdone
    · cases h
      exact .back hs hpath
    · cases h
      exact .pass hs hpath hdone
    · cases h
      exact .down hs hpath hdone

theorem step_eq_none_iff : s.step g = none ↔ s.stack = [] := by
  unfold step
  split
  · next hs => simp [hs]
  · next hs => simp [hs]
  · next hs =>
    simp only [hs, reduceCtorEq, iff_false]
    split_ifs <;> simp

section Close

variable {c : List String}

@[simp] theorem close_stack : (s.close c).stack = s.stack := by
  unfold close
  split <;> rfl

@[simp] theorem close_path : (s.close c).path = s.path := by
  unfold close
  split <;> rfl

@[simp] theorem close_done : (s.close c).done = s.done := by
  unfold close
  split <;> rfl

theorem mem_cycles_close {c' : List String} :
    c' ∈ (s.close c).cycles ↔ c' ∈ s.cycles ∨ c' = c := by
  unfold close
  split
  · next hc =>
    refine ⟨Or.inl, ?_⟩
    rintro (h | rfl)
    · exact h
    · exact List.contains_iff_mem.mp hc
  · rw [List.mem_append, List.mem_singleton]

end Close

/-- What every step keeps holds after a run. -/
theorem run_induction {P : CycleSearch → Prop} (hmove : ∀ s t, P s → Move g s t → P t) (hs : P s)
    (n : Nat) : P (s.run g n) := by
  induction n generalizing s with
  | zero => exact hs
  | succ n ih =>
    unfold run
    split
    · exact hs
    · next hstep => exact ih (hmove _ _ hs (move_of_step hstep))

/-! ## The path -/

/-- **Frames, path and files that are done agree**: the frames are those of the path, which is a chain
of imports without repetition, no file on it is done, and what is pending are imports. -/
structure Ordered (g : FileGraph) (s : CycleSearch) : Prop where
  frames : s.path = (s.stack.map (·.file)).reverse
  nodup : s.path.Nodup
  apart : ∀ f ∈ s.path, f ∉ s.done
  chain : s.path.IsChain g.Imports
  pending : ∀ x ∈ s.stack, ∀ f ∈ x.pending, g.Imports x.file f

namespace Ordered

theorem path_cons (h : s.Ordered g) {x : CycleFrame} {outer : List CycleFrame}
    (hs : s.stack = x :: outer) : s.path = (outer.map (·.file)).reverse ++ [x.file] := by
  rw [h.frames, hs, List.map_cons, List.reverse_cons]

theorem imports_next (h : s.Ordered g) {file next : String} {rest : List String}
    {outer : List CycleFrame} (hs : s.stack = ⟨file, next :: rest⟩ :: outer) :
    g.Imports file next :=
  h.pending _ (by rw [hs]; exact List.mem_cons_self) next List.mem_cons_self

/-- Looking at the next file of the innermost frame leaves all else as it was. -/
theorem advance (h : s.Ordered g) {file next : String} {rest : List String}
    {outer : List CycleFrame} (hs : s.stack = ⟨file, next :: rest⟩ :: outer)
    (cycles : List (List String)) :
    Ordered g { s with stack := ⟨file, rest⟩ :: outer, cycles := cycles } where
  frames := by rw [h.frames, hs]; rfl
  nodup := h.nodup
  apart := h.apart
  chain := h.chain
  pending := by
    have hpending := h.pending
    rw [hs, List.forall_mem_cons] at hpending
    refine List.forall_mem_cons.mpr ⟨fun f hf => ?_, hpending.2⟩
    exact hpending.1 f (List.mem_cons_of_mem _ hf)

/-- **A step keeps frames, path and done files in order.** -/
theorem move (h : s.Ordered g) (hm : Move g s t) : t.Ordered g := by
  cases hm with
  | @retire file outer hs =>
    have hpath := h.path_cons hs
    have hlast : s.path.dropLast = (outer.map (·.file)).reverse := by
      rw [hpath, List.dropLast_concat]
    have hnodup := h.nodup
    rw [hpath] at hnodup
    refine ⟨hlast, h.nodup.sublist (List.dropLast_sublist _), fun f hf hdone => ?_,
      h.chain.prefix (List.dropLast_prefix _), fun x hx => ?_⟩
    · rcases List.mem_cons.mp hdone with rfl | hdone
      · rw [hlast] at hf
        exact (List.nodup_append.mp hnodup).2.2 f hf f (List.mem_singleton_self f) rfl
      · exact h.apart f (List.dropLast_subset _ hf) hdone
    · exact h.pending x (by rw [hs]; exact List.mem_cons_of_mem _ hx)
  | @back file next rest outer hs hpath =>
    unfold close
    split
    · exact h.advance hs s.cycles
    · exact h.advance hs _
  | pass hs hpath hdone => exact h.advance hs s.cycles
  | @down file next rest outer hs hpath hdone =>
    have h' := h.advance hs s.cycles
    refine ⟨?_, ?_, fun f hf => ?_, ?_, List.forall_mem_cons.mpr ⟨fun f hf => hf, h'.pending⟩⟩
    · rw [List.map_cons, List.reverse_cons, ← h'.frames]
    · refine h.nodup.append (List.nodup_singleton _) fun f hf hf' => ?_
      exact hpath (List.mem_singleton.mp hf' ▸ hf)
    · rcases List.mem_append.mp hf with hf | hf
      · exact h.apart f hf
      · rwa [List.mem_singleton.mp hf]
    · refine List.isChain_append.mpr ⟨h.chain, List.isChain_singleton _, fun a ha b hb => ?_⟩
      rw [h.path_cons hs, List.getLast?_concat] at ha
      cases ha
      cases hb
      exact h.imports_next hs

end Ordered

/-- No file that was reached is lost. -/
theorem Move.kept (hm : Move g s t) (h : s.Ordered g) (hf : f ∈ s.path ∨ f ∈ s.done) :
    f ∈ t.path ∨ f ∈ t.done := by
  cases hm with
  | @retire file outer hs =>
    rw [h.path_cons hs] at hf ⊢
    simp only [List.dropLast_concat, List.mem_append, List.mem_cons] at hf ⊢
    tauto
  | back hs hpath => simpa using hf
  | pass hs hpath hdone => exact hf
  | down hs hpath hdone => exact hf.imp_left (List.mem_append_left _)

/-! ## The steps that are left -/

/-- The files that were not reached. -/
def fresh (g : FileGraph) (s : CycleSearch) : List String :=
  g.files.filter fun f => !s.path.contains f && !s.done.contains f

/-- The steps that are left: those of the files that were not reached, and those of the frames. -/
def left (g : FileGraph) (s : CycleSearch) : Nat :=
  ((s.fresh g).map g.weight).sum + (s.stack.map fun x => x.pending.length + 1).sum

theorem fresh_congr (h : ∀ f, f ∈ s.path ∨ f ∈ s.done ↔ f ∈ t.path ∨ f ∈ t.done) :
    s.fresh g = t.fresh g := by
  refine List.filter_congr fun f _ => ?_
  rw [Bool.eq_iff_iff]
  simpa [not_or] using not_congr (h f)

/-- A file that is reached takes its steps with it. -/
theorem sum_fresh (hf : f ∈ g.files) (hs : ¬ (f ∈ s.path ∨ f ∈ s.done))
    (ht : ∀ f', f' ∈ t.path ∨ f' ∈ t.done ↔ f' = f ∨ f' ∈ s.path ∨ f' ∈ s.done) :
    ((s.fresh g).map g.weight).sum = g.weight f + ((t.fresh g).map g.weight).sum := by
  have hnodup : (s.fresh g).Nodup := g.files_nodup.filter _
  have hmem : f ∈ s.fresh g := List.mem_filter.mpr ⟨hf, by simpa [not_or] using hs⟩
  have herase : (s.fresh g).erase f = t.fresh g := by
    rw [hnodup.erase_eq_filter, fresh, List.filter_filter]
    refine List.filter_congr fun f' _ => ?_
    rw [Bool.eq_iff_iff]
    simpa [not_or, and_assoc] using (not_congr (ht f')).symm
  rw [← herase, ((List.perm_cons_erase hmem).map g.weight).sum_eq, List.map_cons, List.sum_cons]

/-- **Each step takes one of the steps that are left.** -/
theorem Ordered.left_move (h : s.Ordered g) (hm : Move g s t) : t.left g + 1 = s.left g := by
  have hadvance : ∀ {file next rest outer} {c : CycleSearch},
      s.stack = ⟨file, next :: rest⟩ :: outer → c.stack = ⟨file, rest⟩ :: outer →
      c.path = s.path → c.done = s.done → c.left g + 1 = s.left g := by
    intro file next rest outer c hs hc hpath hdone
    rw [left, left, hs, hc, fresh_congr (s := c) (t := s) (by simp [hpath, hdone])]
    simp only [List.map_cons, List.sum_cons, List.length_cons]
    omega
  cases hm with
  | @retire file outer hs =>
    have hfresh : fresh g { s with stack := outer, path := s.path.dropLast, done := file :: s.done } =
        s.fresh g := by
      refine fresh_congr fun f => ?_
      rw [h.path_cons hs]
      simp only [List.dropLast_concat, List.mem_append, List.mem_cons]
      tauto
    rw [left, left, hfresh, hs]
    simp only [List.map_cons, List.sum_cons, List.length_nil]
    omega
  | back hs hpath => exact hadvance hs (by simp) (by simp) (by simp)
  | pass hs hpath hdone => exact hadvance hs rfl rfl rfl
  | @down file next rest outer hs hpath hdone =>
    have hsum := sum_fresh (s := s)
      (t := { s with
        stack := ⟨next, g.successors next⟩ :: ⟨file, rest⟩ :: outer, path := s.path ++ [next] })
      (h.imports_next hs).mem_files (by simp [hpath, hdone])
      (by intro f; simp only [List.mem_append, List.mem_singleton]; tauto)
    rw [left, left, hsum, hs]
    simp only [List.map_cons, List.sum_cons, List.length_cons, FileGraph.weight]
    omega

/-- **A run with enough steps ends with an empty path.** -/
theorem Ordered.run_ends (h : s.Ordered g) {n : Nat} (hn : s.left g ≤ n) : (s.run g n).stack = [] := by
  induction n generalizing s with
  | zero =>
    cases hs : s.stack with
    | nil => exact hs
    | cons x outer =>
      rw [left, hs, List.map_cons, List.sum_cons] at hn
      omega
  | succ n ih =>
    unfold run
    split
    · next hstep => exact step_eq_none_iff.mp hstep
    · next t hstep =>
      have hm := move_of_step hstep
      have hleft := h.left_move hm
      exact ih (h.move hm) (by omega)

/-! ## From one start to the next -/

/-- A search between two starts. -/
structure Resting (g : FileGraph) (s : CycleSearch) : Prop where
  ordered : s.Ordered g
  stack : s.stack = []

theorem Resting.path (h : s.Resting g) : s.path = [] := by
  rw [h.ordered.frames, h.stack]
  rfl

theorem resting_start (g : FileGraph) : Resting g {} := by
  refine ⟨⟨rfl, List.nodup_nil, ?_, List.isChain_nil, ?_⟩, rfl⟩
  · exact fun f hf => absurd hf List.not_mem_nil
  · exact fun x hx => absurd hx List.not_mem_nil

/-- A file that is not done is a start. -/
theorem ordered_enter (hdone : f ∉ s.done) : (s.enter g f).Ordered g := by
  refine ⟨rfl, List.nodup_singleton f, fun f' hf' => ?_, List.isChain_singleton f, fun x hx => ?_⟩
  · rwa [List.mem_singleton.mp hf']
  · rw [List.mem_singleton.mp hx]
    exact fun f' hf' => hf'

/-- There are never more steps left than the bound. -/
theorem Resting.left_enter_le (h : s.Resting g) (hf : f ∈ g.files) (hdone : f ∉ s.done) :
    (s.enter g f).left g ≤ g.searchBound := by
  have hsum := sum_fresh (s := s) (t := s.enter g f) hf (by simp [h.path, hdone])
    (by simp [CycleSearch.enter, h.path])
  have hle : ((s.fresh g).map g.weight).sum ≤ (g.files.map g.weight).sum :=
    (List.filter_sublist.map g.weight).sum_le_sum (by simp)
  rw [FileGraph.searchBound_eq, left]
  simp only [CycleSearch.enter, List.map_cons, List.map_nil, List.sum_cons, List.sum_nil,
    FileGraph.weight] at hsum ⊢
  omega

/-- The search from a file that is not done. -/
def visit (g : FileGraph) (s : CycleSearch) (f : String) : CycleSearch :=
  if s.done.contains f then s else (s.enter g f).run g g.searchBound

/-- **After a start the path is empty again, and the start is done.** -/
theorem Resting.visit (h : s.Resting g) (hf : f ∈ g.files) :
    (s.visit g f).Resting g ∧ f ∈ (s.visit g f).done ∧ ∀ f' ∈ s.done, f' ∈ (s.visit g f).done := by
  unfold CycleSearch.visit
  split
  · next hdone => exact ⟨h, List.contains_iff_mem.mp hdone, fun _ hf' => hf'⟩
  · next hdone =>
    rw [List.contains_iff_mem] at hdone
    have hrun : Resting g ((s.enter g f).run g g.searchBound) :=
      ⟨run_induction (fun _ _ h hm => h.move hm) (ordered_enter hdone) _,
        (ordered_enter hdone).run_ends (h.left_enter_le hf hdone)⟩
    have hkept : ∀ f', f' ∈ (s.enter g f).path ∨ f' ∈ (s.enter g f).done →
        f' ∈ ((s.enter g f).run g g.searchBound).done := by
      intro f' hf'
      have hor := (run_induction (P := fun s => s.Ordered g ∧ (f' ∈ s.path ∨ f' ∈ s.done))
        (fun _ _ h hm => ⟨h.1.move hm, hm.kept h.1 h.2⟩) ⟨ordered_enter hdone, hf'⟩ g.searchBound).2
      rw [hrun.path] at hor
      exact hor.resolve_left List.not_mem_nil
    exact ⟨hrun, hkept f (Or.inl (List.mem_singleton_self f)), fun f' hf' => hkept f' (Or.inr hf')⟩

end CycleSearch

namespace FileGraph

open CycleSearch

variable {g : FileGraph}

/-- What the start of the search has, each new start keeps and each step keeps, the search ends with. -/
theorem search_induction {P : CycleSearch → Prop} (hstart : P {})
    (henter : ∀ s f, s.Resting g → f ∉ s.done → P s → P (s.enter g f))
    (hmove : ∀ s t, s.Ordered g → P s → Move g s t → P t) : P g.search := by
  suffices ∀ (l : FileGraph) (s : CycleSearch), (∀ x ∈ l, x.1 ∈ g.files) → s.Resting g → P s →
      P (l.foldl (fun s x => s.visit g x.1) s) from
    this g {} (fun x hx => mem_files.mpr ⟨x, hx, Or.inl rfl⟩) (resting_start g) hstart
  intro l
  induction l with
  | nil => exact fun s _ _ hs => hs
  | cons x l ih =>
    intro s hl hrest hs
    refine ih _ (fun y hy => hl y (List.mem_cons_of_mem _ hy))
      (hrest.visit (hl x List.mem_cons_self)).1 ?_
    change P (s.visit g x.1)
    unfold visit
    split
    · exact hs
    · next hdone =>
      rw [List.contains_iff_mem] at hdone
      exact (run_induction (P := fun s => s.Ordered g ∧ P s)
        (fun s t h hm => ⟨h.1.move hm, hmove s t h.1 h.2 hm⟩)
        ⟨ordered_enter hdone, henter s x.1 hrest hdone hs⟩ g.searchBound).2

/-- **The search ends with an empty path, and all files that import something are done.** -/
theorem search_rests (g : FileGraph) : g.search.Resting g ∧ ∀ x ∈ g, x.1 ∈ g.search.done := by
  suffices ∀ (l : FileGraph) (s : CycleSearch), (∀ x ∈ l, x.1 ∈ g.files) → s.Resting g →
      (l.foldl (fun s x => s.visit g x.1) s).Resting g ∧
        (∀ x ∈ l, x.1 ∈ (l.foldl (fun s x => s.visit g x.1) s).done) ∧
        ∀ f ∈ s.done, f ∈ (l.foldl (fun s x => s.visit g x.1) s).done by
    obtain ⟨hrest, hdone, -⟩ :=
      this g {} (fun x hx => mem_files.mpr ⟨x, hx, Or.inl rfl⟩) (resting_start g)
    exact ⟨hrest, hdone⟩
  intro l
  induction l with
  | nil => exact fun s _ hrest => ⟨hrest, fun x hx => absurd hx List.not_mem_nil, fun _ hf => hf⟩
  | cons x l ih =>
    intro s hl hrest
    obtain ⟨hrest', hx, hkept⟩ := hrest.visit (hl x List.mem_cons_self)
    obtain ⟨hend, hdone, hkept'⟩ := ih _ (fun y hy => hl y (List.mem_cons_of_mem _ hy)) hrest'
    exact ⟨hend, List.forall_mem_cons.mpr ⟨hkept' _ hx, hdone⟩, fun f hf => hkept' f (hkept f hf)⟩

end FileGraph

end CodeAtlas
