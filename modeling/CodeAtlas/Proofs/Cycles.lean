import Mathlib.Data.Finset.Max
import Mathlib.Data.List.Cycle
import Mathlib.Data.String.Basic
import CodeAtlas.Proofs.Descent

/-!
# Cycles of files

* **`FileGraph.IsCycle`**: a cycle of imports from its smallest file on. `isCycle_canonicalCycle`: the
  part of a path that an import closes is one when it is turned; `IsCycle.eq_of_isRotated`: turning it
  further gives no other.
* `CycleSearch.Ordered.isCycle_back`: so the search records cycles only.
* `CycleSearch.Examined`: every import that was looked at leads to a file that was reached, or its file
  is on a cycle that was recorded; `CycleSearch.Settled`: where the file is done, what it imports was
  done before.
* **`FileGraph.cycles_genuine`**: the cycles that are found are cycles, and no two are the same.
* **`FileGraph.cycles_complete`**: where files import each other in a circle, one is found.
-/

namespace CodeAtlas

/-! ## Cycles and their turns -/

section Turns

variable {α : Type} {r : α → α → Prop} {l l' : List α}

/-- Each is followed by the next, and the last by the first. -/
theorem isChain_closed_iff (hl : l ≠ []) :
    (l ++ l.take 1).IsChain r ↔ Cycle.Chain r (l : Cycle α) := by
  obtain ⟨a, l, rfl⟩ := List.exists_cons_of_ne_nil hl
  rw [Cycle.chain_coe_cons]
  simp

/-- A list without repetition is no other turn of itself with the same first element. -/
theorem eq_of_isRotated_of_head? (hl : l.Nodup) (h : l ~r l') (hhead : l.head? = l'.head?) :
    l = l' := by
  obtain ⟨n, rfl⟩ := h
  rcases eq_or_ne l [] with rfl | hne
  · exact (List.rotate_nil n).symm
  have hpos : 0 < l.length := List.length_pos_iff.mpr hne
  have hmod := Nat.mod_lt n hpos
  rw [← List.rotate_mod] at hhead ⊢
  rw [List.head?_rotate hmod, List.head?_eq_getElem?, List.getElem?_eq_getElem hpos,
    List.getElem?_eq_getElem hmod, Option.some.injEq, hl.getElem_inj_iff] at hhead
  rw [← hhead, List.rotate_zero]

end Turns

theorem compare_ne_gt_iff {a b : String} : (compare a b != .gt) = true ↔ a ≤ b := by
  rw [bne_iff_ne, ne_eq, compare_gt_iff_gt, not_lt]

theorem canonicalCycle_eq_rotate (p : List String) :
    canonicalCycle p = p.rotate (smallestPosition p) :=
  (List.rotate_eq_drop_append_take List.findIdx_le_length).symm

theorem mem_canonicalCycle {p : List String} {f : String} : f ∈ canonicalCycle p ↔ f ∈ p := by
  rw [canonicalCycle_eq_rotate, List.mem_rotate]

/-- A cycle starts at its smallest file. -/
theorem head_canonicalCycle_le {p : List String} {f f' : String}
    (hf : f ∈ (canonicalCycle p).head?) (hf' : f' ∈ p) : f ≤ f' := by
  obtain ⟨m, hm, hleast⟩ := p.toFinset.exists_min_image id ⟨f', List.mem_toFinset.mpr hf'⟩
  have hlt : smallestPosition p < p.length := by
    refine List.findIdx_lt_length_of_exists ⟨m, List.mem_toFinset.mp hm, ?_⟩
    refine List.all_eq_true.mpr fun x hx => compare_ne_gt_iff.mpr ?_
    exact hleast x (List.mem_toFinset.mpr hx)
  rw [canonicalCycle_eq_rotate, List.head?_rotate hlt, List.getElem?_eq_getElem hlt] at hf
  have hsmall := List.all_eq_true.mp (List.findIdx_getElem (w := hlt)) f' hf'
  cases hf
  exact compare_ne_gt_iff.mp hsmall

namespace FileGraph

/-- **A cycle of files**: each imports the next, the last imports the first, no file is there twice,
and the first is the smallest. -/
structure IsCycle (g : FileGraph) (c : List String) : Prop where
  ne_nil : c ≠ []
  nodup : c.Nodup
  closed : (c ++ c.take 1).IsChain g.Imports
  smallest : ∀ f ∈ c.head?, ∀ f' ∈ c, f ≤ f'

variable {g : FileGraph} {c c' p : List String}

/-- **Files that import each other in a circle are a cycle from the smallest on.** -/
theorem isCycle_canonicalCycle (hne : p ≠ []) (hnd : p.Nodup)
    (hclosed : (p ++ p.take 1).IsChain g.Imports) : g.IsCycle (canonicalCycle p) := by
  have hne' : canonicalCycle p ≠ [] := by
    rwa [canonicalCycle_eq_rotate, ne_eq, List.rotate_eq_nil_iff]
  have hturn : (canonicalCycle p : Cycle String) = p := by
    rw [canonicalCycle_eq_rotate]
    exact Cycle.coe_eq_coe.mpr (List.IsRotated.forall p _)
  refine ⟨hne', ?_, ?_, fun f hf f' hf' => head_canonicalCycle_le hf (mem_canonicalCycle.mp hf')⟩
  · rwa [canonicalCycle_eq_rotate, List.nodup_rotate]
  · rw [isChain_closed_iff hne', hturn]
    exact (isChain_closed_iff hne).mp hclosed

namespace IsCycle

/-- A cycle is no other turn of a cycle, since both start at the smallest file. -/
theorem eq_of_isRotated (h : g.IsCycle c) (h' : g.IsCycle c') (hr : c ~r c') : c = c' := by
  obtain ⟨a, l, rfl⟩ := List.exists_cons_of_ne_nil h.ne_nil
  obtain ⟨b, l', rfl⟩ := List.exists_cons_of_ne_nil h'.ne_nil
  have hab : a ≤ b := h.smallest a rfl b (hr.mem_iff.mpr List.mem_cons_self)
  have hba : b ≤ a := h'.smallest b rfl a (hr.mem_iff.mp List.mem_cons_self)
  exact eq_of_isRotated_of_head? h.nodup hr (by rw [le_antisymm hab hba]; rfl)

/-- The files of a cycle reach each other. -/
theorem reach (h : g.IsCycle c) {a b : String} (ha : a ∈ c) (hb : b ∈ c) :
    Relation.TransGen g.Imports a b := by
  have hchain := ((isChain_closed_iff h.ne_nil).mp h.closed).imp
    fun _ _ hab => Relation.TransGen.single hab
  exact Cycle.chain_iff_pairwise.mp hchain a (Cycle.mem_coe_iff.mpr ha) b (Cycle.mem_coe_iff.mpr hb)

end IsCycle

end FileGraph

namespace CycleSearch

variable {g : FileGraph} {s t : CycleSearch}

/-! ## What is recorded -/

/-- **The path from a file on to one that imports it is a cycle.** -/
theorem Ordered.isCycle_back (h : s.Ordered g) {file next : String} {rest : List String}
    {outer : List CycleFrame} (hs : s.stack = ⟨file, next :: rest⟩ :: outer) (hnext : next ∈ s.path) :
    g.IsCycle (canonicalCycle (s.path.drop (s.path.idxOf next))) ∧
      file ∈ s.path.drop (s.path.idxOf next) := by
  have hlt := List.idxOf_lt_length_of_mem hnext
  have hpart : s.path.drop (s.path.idxOf next) = next :: s.path.drop (s.path.idxOf next + 1) := by
    rw [List.drop_eq_getElem_cons hlt, List.getElem_idxOf]
  have hlast : (s.path.drop (s.path.idxOf next)).getLast? = some file := by
    rw [List.getLast?_drop, if_neg (by omega), h.path_cons hs, List.getLast?_concat]
  refine ⟨FileGraph.isCycle_canonicalCycle ?_ (h.nodup.sublist (List.drop_sublist _ _)) ?_,
    List.mem_of_getLast? hlast⟩
  · rw [hpart]
    exact List.cons_ne_nil _ _
  · refine List.isChain_append.mpr ⟨h.chain.drop _, ?_, fun a ha b hb => ?_⟩
    · rw [hpart]
      exact List.isChain_singleton _
    · rw [hlast] at ha
      rw [hpart] at hb
      cases ha
      cases hb
      exact h.imports_next hs

/-- What was recorded are cycles, each once. -/
structure Recorded (g : FileGraph) (s : CycleSearch) : Prop where
  cycles : ∀ c ∈ s.cycles, g.IsCycle c
  once : s.cycles.Nodup

theorem Recorded.move (h : s.Recorded g) (ho : s.Ordered g) (hm : Move g s t) : t.Recorded g := by
  cases hm with
  | retire hs => exact ⟨h.cycles, h.once⟩
  | back hs hnext =>
    refine ⟨fun c hc => ?_, ?_⟩
    · rcases mem_cycles_close.mp hc with hc | rfl
      · exact h.cycles c hc
      · exact (ho.isCycle_back hs hnext).1
    · unfold close
      split
      · exact h.once
      · next hnew =>
        rw [List.contains_iff_mem] at hnew
        refine h.once.append (List.nodup_singleton _) fun c hc hc' => hnew ?_
        rwa [← List.mem_singleton.mp hc']
  | pass hs hpath hdone => exact ⟨h.cycles, h.once⟩
  | down hs hpath hdone => exact ⟨h.cycles, h.once⟩

/-! ## What was looked at -/

/-- Every file is on a recorded cycle, or all that it imports stands after it. -/
def Settled (g : FileGraph) (cycles : List (List String)) : List String → Prop
  | [] => True
  | f :: rest =>
    (∀ f', g.Imports f f' → f' ∈ rest ∨ ∃ c ∈ cycles, f ∈ c) ∧ Settled g cycles rest

/-- Every file of the frames is on a recorded cycle, or all that it imports is pending or was reached;
files further in were reached. -/
def Looked (g : FileGraph) (cycles : List (List String)) : List String → List CycleFrame → Prop
  | _, [] => True
  | reached, x :: outer =>
    (∀ f', g.Imports x.file f' → f' ∈ x.pending ∨ f' ∈ reached ∨ ∃ c ∈ cycles, x.file ∈ c) ∧
      Looked g cycles (x.file :: reached) outer

section Mono

variable {cycles cycles' : List (List String)} {reached reached' : List String}

theorem Settled.mono (h : Settled g cycles reached) (hc : cycles ⊆ cycles') :
    Settled g cycles' reached := by
  induction reached with
  | nil => trivial
  | cons f rest ih =>
    refine ⟨fun f' hf' => (h.1 f' hf').imp_right ?_, ih h.2⟩
    exact fun ⟨c, hmem, hf⟩ => ⟨c, hc hmem, hf⟩

theorem Looked.mono {frames : List CycleFrame} (h : Looked g cycles reached frames)
    (hc : cycles ⊆ cycles') (hr : reached ⊆ reached') : Looked g cycles' reached' frames := by
  induction frames generalizing reached reached' with
  | nil => trivial
  | cons x outer ih =>
    refine ⟨fun f' hf' => (h.1 f' hf').imp_right (Or.imp (fun h => hr h) ?_),
      ih h.2 (List.cons_subset_cons _ hr)⟩
    exact fun ⟨c, hmem, hf⟩ => ⟨c, hc hmem, hf⟩

end Mono

/-- **What was looked at is accounted for**, in the files that are done and in the frames. -/
structure Examined (g : FileGraph) (s : CycleSearch) : Prop where
  done : Settled g s.cycles s.done
  frames : Looked g s.cycles s.done s.stack

/-- The next file of the innermost frame is looked at, and it was reached or closes a cycle. -/
theorem Examined.advance (h : s.Examined g) {file next : String} {rest : List String}
    {outer : List CycleFrame} (hs : s.stack = ⟨file, next :: rest⟩ :: outer)
    {cycles : List (List String)} {reached : List String} (hc : s.cycles ⊆ cycles)
    (hr : s.done ⊆ reached) (hnext : next ∈ reached ∨ ∃ c ∈ cycles, file ∈ c) :
    Looked g cycles reached (⟨file, rest⟩ :: outer) := by
  have hframes := h.frames
  rw [hs] at hframes
  obtain ⟨hfile, houter⟩ := hframes.mono hc hr
  refine ⟨fun f hf => ?_, houter⟩
  rcases hfile f hf with hpending | hreached
  · rcases List.mem_cons.mp hpending with rfl | hpending
    · exact Or.inr hnext
    · exact Or.inl hpending
  · exact Or.inr hreached

theorem Examined.move (h : s.Examined g) (ho : s.Ordered g) (hm : Move g s t) : t.Examined g := by
  cases hm with
  | retire hs =>
    -- nothing is pending, so what the file imports was done before
    have hframes := h.frames
    rw [hs] at hframes
    obtain ⟨hfile, houter⟩ := hframes
    exact ⟨⟨fun f hf => (hfile f hf).resolve_left List.not_mem_nil, h.done⟩, houter⟩
  | @back file next rest outer hs hnext =>
    have hgrown : s.cycles ⊆ (CycleSearch.close { s with stack := ⟨file, rest⟩ :: outer }
        (canonicalCycle (s.path.drop (s.path.idxOf next)))).cycles :=
      fun c hc => mem_cycles_close.mpr (Or.inl hc)
    refine ⟨?_, ?_⟩
    · rw [close_done]
      exact h.done.mono hgrown
    · rw [close_done, close_stack]
      refine h.advance hs hgrown (List.Subset.refl _) (Or.inr ⟨_, mem_cycles_close.mpr (Or.inr rfl), ?_⟩)
      exact mem_canonicalCycle.mpr (ho.isCycle_back hs hnext).2
  | pass hs hpath hdone =>
    exact ⟨h.done, h.advance hs (List.Subset.refl _) (List.Subset.refl _) (Or.inl hdone)⟩
  | @down file next rest outer hs hpath hdone =>
    refine ⟨h.done, fun f hf => Or.inl hf, ?_⟩
    exact h.advance hs (List.Subset.refl _) (List.subset_cons_self _ _) (Or.inl List.mem_cons_self)

/-- **A circle of imports meets a recorded cycle**: going round it, the files cannot all be done before
those that import them. -/
theorem Settled.exists_cycle {cycles : List (List String)} {done : List String}
    (h : Settled g cycles done) {v : String} (hv : v ∈ done) (hloop : Relation.TransGen g.Imports v v) :
    ∃ f, (∃ c ∈ cycles, f ∈ c) ∧ Relation.TransGen g.Imports v f ∧
      Relation.TransGen g.Imports f v := by
  induction done generalizing v with
  | nil => cases hv
  | cons f rest ih =>
    rcases List.mem_cons.mp hv with rfl | hv
    · obtain ⟨w, hvw, hwv⟩ := Relation.TransGen.head'_iff.mp hloop
      rcases h.1 w hvw with hw | hcycle
      · have hwloop : Relation.TransGen g.Imports w w := Relation.TransGen.tail' hwv hvw
        obtain ⟨x, hx, hwx, hxw⟩ := ih h.2 hw hwloop
        exact ⟨x, hx, .head hvw hwx, hxw.trans_left hwv⟩
      · exact ⟨v, hcycle, hloop, hloop⟩
    · exact ih h.2 hv hloop

end CycleSearch

namespace FileGraph

/-! ## The cycles of a graph -/

theorem recorded_search (g : FileGraph) : g.search.Recorded g :=
  search_induction ⟨fun _ hc => absurd hc List.not_mem_nil, List.nodup_nil⟩
    (fun _ _ _ _ h => ⟨h.cycles, h.once⟩) fun _ _ ho h hm => h.move ho hm

theorem examined_search (g : FileGraph) : g.search.Examined g :=
  search_induction ⟨trivial, trivial⟩ (fun _ _ _ _ h => ⟨h.done, fun _ hf => Or.inl hf, trivial⟩)
    fun _ _ ho h hm => h.move ho hm

/-- **The cycles that are found are cycles.** Each is a list of different files, of which each imports
the next and the last imports the first, and starts at its smallest file. No two are turns of each
other. -/
theorem cycles_genuine (g : FileGraph) :
    (∀ c ∈ g.cycles, c ≠ [] ∧ c.Nodup ∧ (c ++ c.take 1).IsChain g.Imports ∧
      ∀ f ∈ c.head?, ∀ f' ∈ c, f ≤ f') ∧
    g.cycles.Pairwise fun a b => ¬ a ~r b := by
  have h := g.recorded_search
  refine ⟨fun c hc => ?_, h.once.imp_of_mem fun {a b} ha hb hne hr => ?_⟩
  · obtain ⟨hne, hnd, hclosed, hsmall⟩ := h.cycles c hc
    exact ⟨hne, hnd, hclosed, hsmall⟩
  · exact hne ((h.cycles a ha).eq_of_isRotated (h.cycles b hb) hr)

/-- Two circles that share files, a file that imports itself, and files that lead into them. -/
def entangled : FileGraph :=
  [("a", ["b", "d"]), ("b", ["c"]), ("c", ["a", "c"]), ("d", ["c"]), ("e", ["a", "f"]), ("f", ["d"])]

theorem cycles_genuine_entangled : entangled.cycles = [["a", "b", "c"], ["c"]] ∧
    (["a", "b", "c"] ++ ["a"]).IsChain entangled.Imports ∧ ¬ ["a", "b", "c"] ~r ["c"] := by
  have hcycles : entangled.cycles = [["a", "b", "c"], ["c"]] := by decide +kernel
  obtain ⟨hall, hpairs⟩ := entangled.cycles_genuine
  rw [hcycles] at hall hpairs
  obtain ⟨-, -, hclosed, -⟩ := hall ["a", "b", "c"] List.mem_cons_self
  exact ⟨hcycles, hclosed, List.rel_of_pairwise_cons hpairs List.mem_cons_self⟩

/-- **No circle of imports is missed.** For every file that reaches itself there is a cycle all of
whose files reach it and are reached from it. So none is found if and only if there is none. -/
theorem cycles_complete (g : FileGraph) :
    (∀ v, Relation.TransGen g.Imports v v → ∃ c ∈ g.cycles, c ≠ [] ∧
      ∀ f ∈ c, Relation.TransGen g.Imports v f ∧ Relation.TransGen g.Imports f v) ∧
    (g.cycles = [] ↔ ∀ v, ¬ Relation.TransGen g.Imports v v) := by
  have hcycles := g.recorded_search.cycles
  have hloop : ∀ v, Relation.TransGen g.Imports v v → ∃ c ∈ g.cycles, c ≠ [] ∧
      ∀ f ∈ c, Relation.TransGen g.Imports v f ∧ Relation.TransGen g.Imports f v := by
    intro v hv
    obtain ⟨w, hvw, -⟩ := Relation.TransGen.head'_iff.mp hv
    obtain ⟨x, hx, hxv, -⟩ := hvw.exists_entry
    have hdone : v ∈ g.search.done := hxv ▸ g.search_rests.2 x hx
    obtain ⟨f, ⟨c, hc, hfc⟩, hvf, hfv⟩ := g.examined_search.done.exists_cycle hdone hv
    refine ⟨c, hc, (hcycles c hc).ne_nil, fun f' hf' => ⟨hvf.trans ?_, .trans ?_ hfv⟩⟩
    · exact (hcycles c hc).reach hfc hf'
    · exact (hcycles c hc).reach hf' hfc
  refine ⟨hloop, fun hnil v hv => ?_, fun hnone => ?_⟩
  · obtain ⟨c, hc, -⟩ := hloop v hv
    rw [hnil] at hc
    cases hc
  · refine List.eq_nil_iff_forall_not_mem.mpr fun c hc => ?_
    obtain ⟨f, l, rfl⟩ := List.exists_cons_of_ne_nil (hcycles c hc).ne_nil
    exact hnone f ((hcycles _ hc).reach List.mem_cons_self List.mem_cons_self)

/-- The circle through `d` comes to `c` when that file is done, so it is not found itself; a cycle
through other files is found in its place. -/
theorem cycles_complete_entangled : Relation.TransGen entangled.Imports "d" "d" ∧
    ∃ c ∈ entangled.cycles, c ≠ [] ∧ ∀ f ∈ c, Relation.TransGen entangled.Imports "d" f ∧
      Relation.TransGen entangled.Imports f "d" := by
  have hd : Relation.TransGen entangled.Imports "d" "d" :=
    .head (b := "c") (by decide) (.head (b := "a") (by decide) (.single (by decide)))
  exact ⟨hd, entangled.cycles_complete.1 "d" hd⟩

end FileGraph

end CodeAtlas
