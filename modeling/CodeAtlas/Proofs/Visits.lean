import CodeAtlas.Proofs.Descent

/-!
# Each file is visited once

A search is two loops: the outer one goes from start to start, and the inner one goes on while there is
a path.

* `CycleSearch.pushed`, `CycleSearch.Visits`: the file that comes on top of the stack in a step, which
  was not met before. `Ordered.visits_move`: every step is such a visit, or meets no file.
* `CycleLoops.turn`, `CycleLoops.Turn`: one turn of the loop that is at work, and what it can do.
* `CycleLoops.Turns`: the turns from the start on, with the files that were pushed.
* **`CycleLoops.Turns.visited`**: the files that were pushed are those that were met, each once.
* **`CycleLoops.Turns.left_eq`**: every turn takes one of the turns that are left.
* **`FileGraph.search_visits_once`**: so the loops end, and no file is pushed twice.
-/

namespace CodeAtlas

namespace CycleSearch

variable {g : FileGraph} {s t : CycleSearch} {f : String}

/-! ## Visits -/

/-- A file that the search has come to. -/
def Met (s : CycleSearch) (f : String) : Prop := f ∈ s.path ∨ f ∈ s.done

/-- The file that is pushed on the stack between two states: the one on top of a stack that has
grown. -/
def pushed (s t : CycleSearch) : List String :=
  if s.stack.length < t.stack.length then (t.stack.take 1).map (·.file) else []

theorem pushed_nodup : (pushed s t).Nodup := by
  unfold pushed
  split
  · cases t.stack with
    | nil => exact List.nodup_nil
    | cons x outer => exact List.nodup_singleton x.file
  · exact List.nodup_nil

/-- What is pushed was not met before, and nothing else is met. -/
structure Visits (s t : CycleSearch) : Prop where
  fresh : ∀ f ∈ pushed s t, ¬ s.Met f
  met : ∀ f, t.Met f ↔ s.Met f ∨ f ∈ pushed s t

/-- Nothing is pushed on a stack that does not grow. -/
theorem visits_of_length_le (hle : t.stack.length ≤ s.stack.length) (hmet : ∀ f, t.Met f ↔ s.Met f) :
    Visits s t := by
  have hnone : pushed s t = [] := if_neg (by omega)
  constructor
  · intro f hf
    rw [hnone] at hf
    cases hf
  · intro f
    rw [hnone, hmet]
    simp

/-- One frame more is the visit of its file. -/
theorem visits_of_push (hpushed : pushed s t = [f]) (hfresh : ¬ s.Met f)
    (hpath : t.path = s.path ++ [f]) (hdone : t.done = s.done) : Visits s t := by
  constructor
  · intro f' hf'
    rw [hpushed, List.mem_singleton] at hf'
    rwa [hf']
  · intro f'
    rw [hpushed, Met, Met, hpath, hdone, List.mem_append]
    tauto

/-- **A step visits a file that was not met, or meets none.** -/
theorem Ordered.visits_move (h : s.Ordered g) (hm : Move g s t) : Visits s t := by
  cases hm with
  | @retire file outer hs =>
    refine visits_of_length_le (by simp [hs]) fun f => ?_
    -- the innermost file goes from the path to those that are done
    rw [Met, Met, h.path_cons hs]
    simp only [List.dropLast_concat, List.mem_append, List.mem_cons]
    tauto
  | back hs hpath => exact visits_of_length_le (by simp [hs]) fun f => by simp [Met]
  | pass hs hpath hdone => exact visits_of_length_le (by simp [hs]) fun f => Iff.rfl
  | down hs hpath hdone =>
    exact visits_of_push (by simp [pushed, hs]) (not_or.mpr ⟨hpath, hdone⟩) rfl rfl

/-- So does a new start. -/
theorem Resting.visits_enter (h : s.Resting g) (hdone : f ∉ s.done) : Visits s (s.enter g f) := by
  refine visits_of_push (f := f) (by simp [pushed, enter, h.stack]) ?_ (by simp [enter, h.path]) rfl
  rw [Met, h.path]
  simpa using hdone

/-- A new start takes its steps from those of the files that were not reached. -/
theorem Resting.left_enter (h : s.Resting g) (hf : f ∈ g.files) (hdone : f ∉ s.done) :
    (s.enter g f).left g = s.left g := by
  have hsum := sum_fresh (s := s) (t := s.enter g f) hf (by simp [h.path, hdone])
    (by simp [enter, h.path])
  rw [left, left, h.stack, hsum]
  simp only [enter, FileGraph.weight, List.map_cons, List.map_nil, List.sum_cons, List.sum_nil]
  omega

end CycleSearch

/-! ## Two loops -/

/-- The two loops of a search: the starts that are left, and the search from the last one. -/
structure CycleLoops where
  starts : List String
  search : CycleSearch
  deriving DecidableEq

namespace CycleLoops

open CycleSearch

variable {g : FileGraph} {l l' : CycleLoops} {n : Nat} {pushed : List String}

/-- Every file that imports something is a start, and nothing was searched. -/
def start (g : FileGraph) : CycleLoops := ⟨g.map (·.1), {}⟩

/-- One turn: of the inner loop while there is a path, and of the outer one else. -/
def turn (g : FileGraph) (l : CycleLoops) : Option CycleLoops :=
  match l.search.step g with
  | some s => some { l with search := s }
  | none =>
    match l.starts with
    | [] => none
    | f :: starts =>
      some ⟨starts, if l.search.done.contains f then l.search else l.search.enter g f⟩

/-- **What a turn does.** -/
inductive Turn (g : FileGraph) (l : CycleLoops) : CycleLoops → Prop where
  /-- The search goes on. -/
  | inner {t : CycleSearch} (hm : Move g l.search t) : Turn g l { l with search := t }
  /-- The path is empty, and the next start is done. -/
  | skip {f : String} {starts : List String} (hstack : l.search.stack = [])
      (hstarts : l.starts = f :: starts) (hdone : f ∈ l.search.done) : Turn g l ⟨starts, l.search⟩
  /-- The path is empty, and the next start is new. -/
  | enter {f : String} {starts : List String} (hstack : l.search.stack = [])
      (hstarts : l.starts = f :: starts) (hdone : f ∉ l.search.done) :
      Turn g l ⟨starts, l.search.enter g f⟩

theorem turn_of_eq_some (h : l.turn g = some l') : Turn g l l' := by
  unfold turn at h
  split at h
  · next s hstep =>
    cases h
    exact .inner (move_of_step hstep)
  · next hstep =>
    have hstack := step_eq_none_iff.mp hstep
    split at h
    · cases h
    · next f starts hstarts =>
      cases h
      split
      · next hdone => exact .skip hstack hstarts (List.contains_iff_mem.mp hdone)
      · next hdone =>
        rw [List.contains_iff_mem] at hdone
        exact .enter hstack hstarts hdone

/-- The turns that are left: one for each start, and one for each step of the search. -/
def left (g : FileGraph) (l : CycleLoops) : Nat := l.starts.length + l.search.left g

/-- The search is in order, and all starts are files of the graph. -/
structure Ordered (g : FileGraph) (l : CycleLoops) : Prop where
  search : l.search.Ordered g
  starts : ∀ f ∈ l.starts, f ∈ g.files

namespace Ordered

/-- A search without frames is between two starts. -/
theorem resting (h : l.Ordered g) (hstack : l.search.stack = []) : l.search.Resting g :=
  ⟨h.search, hstack⟩

theorem turn (h : l.Ordered g) (ht : Turn g l l') : l'.Ordered g := by
  have hstarts := h.starts
  cases ht with
  | inner hm => exact ⟨h.search.move hm, h.starts⟩
  | skip hstack hs hdone =>
    rw [hs] at hstarts
    exact ⟨h.search, fun f hf => hstarts f (List.mem_cons_of_mem _ hf)⟩
  | enter hstack hs hdone =>
    rw [hs] at hstarts
    exact ⟨ordered_enter hdone, fun f hf => hstarts f (List.mem_cons_of_mem _ hf)⟩

theorem visits_turn (h : l.Ordered g) (ht : Turn g l l') : Visits l.search l'.search := by
  cases ht with
  | inner hm => exact h.search.visits_move hm
  | skip hstack hs hdone => exact visits_of_length_le (Nat.le_refl _) fun f => Iff.rfl
  | enter hstack hs hdone => exact (h.resting hstack).visits_enter hdone

/-- **Each turn takes one of the turns that are left.** -/
theorem left_turn (h : l.Ordered g) (ht : Turn g l l') : l'.left g + 1 = l.left g := by
  cases ht with
  | inner hm =>
    have hleft := h.search.left_move hm
    simp only [left]
    omega
  | skip hstack hs hdone =>
    simp only [left, hs, List.length_cons]
    omega
  | @enter f starts hstack hs hdone =>
    have hf : f ∈ g.files := h.starts f (by rw [hs]; exact List.mem_cons_self)
    have hleft := (h.resting hstack).left_enter hf hdone
    simp only [left, hs, List.length_cons]
    omega

end Ordered

/-- What a number of turns from the start lead to, and the files that are pushed on the stack in
them, in their order. -/
inductive Turns (g : FileGraph) : Nat → List String → CycleLoops → Prop where
  | start : Turns g 0 [] (start g)
  | turn {n : Nat} {pushed : List String} {l l' : CycleLoops} (h : Turns g n pushed l)
      (ht : l.turn g = some l') :
      Turns g (n + 1) (pushed ++ CycleSearch.pushed l.search l'.search) l'

namespace Turns

theorem ordered (h : Turns g n pushed l) : l.Ordered g := by
  induction h with
  | start =>
    refine ⟨(resting_start g).ordered, fun f hf => ?_⟩
    obtain ⟨x, hx, rfl⟩ := List.mem_map.mp hf
    exact FileGraph.mem_files.mpr ⟨x, hx, Or.inl rfl⟩
  | turn h ht ih => exact ih.turn (turn_of_eq_some ht)

/-- **The files that were pushed are those that were met, each once.** -/
theorem visited (h : Turns g n pushed l) : pushed.Nodup ∧ ∀ f, f ∈ pushed ↔ l.search.Met f := by
  induction h with
  | start => exact ⟨List.nodup_nil, fun f => by simp [CycleLoops.start, Met]⟩
  | turn h ht ih =>
    obtain ⟨hnodup, hmet⟩ := ih
    have hvisits := h.ordered.visits_turn (turn_of_eq_some ht)
    constructor
    · refine hnodup.append pushed_nodup fun f hf hnew => ?_
      exact hvisits.fresh f hnew ((hmet f).mp hf)
    · intro f
      rw [List.mem_append, hmet, hvisits.met]

/-- **The turns that were made and those that are left are as many as at the start.** -/
theorem left_eq (h : Turns g n pushed l) : n + l.left g = g.length + g.searchBound := by
  induction h with
  | start =>
    have hfresh : ({} : CycleSearch).fresh g = g.files := List.filter_eq_self.mpr fun f _ => rfl
    rw [left, CycleSearch.left, FileGraph.searchBound_eq]
    simp only [CycleLoops.start, hfresh, List.length_map, List.map_nil, List.sum_nil]
    omega
  | turn h ht ih =>
    have hleft := h.ordered.left_turn (turn_of_eq_some ht)
    omega

end Turns

/-! ## The end of the loops -/

/-- A bounded run of the inner loop is some turns. -/
theorem exists_turns_run {starts : List String} (k : Nat) {s : CycleSearch}
    (h : ∃ n pushed, Turns g n pushed ⟨starts, s⟩) :
    ∃ n pushed, Turns g n pushed ⟨starts, s.run g k⟩ := by
  induction k generalizing s with
  | zero => exact h
  | succ k ih =>
    unfold run
    split
    · exact h
    · next t hstep =>
      obtain ⟨n, pushed, h⟩ := h
      have ht : CycleLoops.turn g ⟨starts, s⟩ = some ⟨starts, t⟩ := by
        unfold CycleLoops.turn
        rw [hstep]
      exact ih ⟨_, _, h.turn ht⟩

/-- The outer loop visits one start after the other. -/
theorem exists_turns_visits (starts : List String) {s : CycleSearch} (hrest : s.Resting g)
    (h : ∃ n pushed, Turns g n pushed ⟨starts, s⟩) :
    ∃ n pushed, Turns g n pushed ⟨[], starts.foldl (fun s f => s.visit g f) s⟩ := by
  induction starts generalizing s with
  | nil => exact h
  | cons f starts ih =>
    obtain ⟨n, pushed, h⟩ := h
    have hf : f ∈ g.files := h.ordered.starts f List.mem_cons_self
    refine ih (hrest.visit hf).1 ?_
    have ht : CycleLoops.turn g ⟨f :: starts, s⟩ =
        some ⟨starts, if s.done.contains f then s else s.enter g f⟩ := by
      unfold CycleLoops.turn
      rw [step_eq_none_iff.mpr hrest.stack]
    have hturns := h.turn ht
    change ∃ n pushed, Turns g n pushed ⟨starts, s.visit g f⟩
    unfold visit
    split
    · next hdone =>
      rw [if_pos hdone] at hturns
      exact ⟨_, _, hturns⟩
    · next hdone =>
      rw [if_neg hdone] at hturns
      exact exists_turns_run g.searchBound ⟨_, _, hturns⟩

end CycleLoops

namespace FileGraph

open CycleLoops

variable {g : FileGraph}

/-- **The search ends and visits each file once.** Turn by turn, the loops come to the search with no
start left, where no turn is possible, and there is a bound on the turns. In every state that they come
to, no file was pushed on the stack twice, the files that were pushed are those on the path and those
that are done, the path is that of the frames, no file is on it twice, and none on it is done. -/
theorem search_visits_once (g : FileGraph) :
    ((∃ n pushed, Turns g n pushed ⟨[], g.search⟩) ∧ CycleLoops.turn g ⟨[], g.search⟩ = none) ∧
    ∀ n pushed l, Turns g n pushed l → n ≤ g.length + g.searchBound ∧ pushed.Nodup ∧
      (∀ f, f ∈ pushed ↔ f ∈ l.search.path ∨ f ∈ l.search.done) ∧
      l.search.path = (l.search.stack.map (·.file)).reverse ∧ l.search.path.Nodup ∧
      ∀ f ∈ l.search.path, f ∉ l.search.done := by
  refine ⟨⟨?_, ?_⟩, fun n pushed l h => ?_⟩
  · have hsearch : g.search = (g.map (·.1)).foldl (fun s f => s.visit g f) {} := by
      rw [List.foldl_map]
      rfl
    rw [hsearch]
    exact exists_turns_visits _ (CycleSearch.resting_start g) ⟨0, [], .start⟩
  · unfold CycleLoops.turn
    rw [CycleSearch.step_eq_none_iff.mpr g.search_rests.1.stack]
  · obtain ⟨hnodup, hmet⟩ := h.visited
    have hbound := h.left_eq
    have hordered := h.ordered.search
    exact ⟨by omega, hnodup, hmet, hordered.frames, hordered.nodup, hordered.apart⟩

/-- A file that imports itself and one that imports nothing, and files that lead to each other. -/
def ragged : FileGraph := [("a", ["a", "b", "x"]), ("b", ["a", "c"]), ("c", ["b"])]

/-- All four files are pushed, the one without imports too, and each once. -/
theorem search_visits_once_ragged : ∃ n pushed, Turns ragged n pushed ⟨[], ragged.search⟩ ∧
    pushed.Nodup ∧ ∀ f ∈ ["a", "b", "c", "x"], f ∈ pushed := by
  obtain ⟨⟨⟨n, pushed, h⟩, -⟩, hall⟩ := ragged.search_visits_once
  obtain ⟨-, hnodup, hmet, -⟩ := hall n pushed _ h
  have hdone : ∀ f ∈ ["a", "b", "c", "x"], f ∈ ragged.search.done := by decide +kernel
  exact ⟨n, pushed, h, hnodup, fun f hf => (hmet f).mpr (Or.inr (hdone f hf))⟩

end FileGraph

end CodeAtlas
