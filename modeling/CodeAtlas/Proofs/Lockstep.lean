import CodeAtlas.Proofs.Enclosure
import CodeAtlas.Proofs.Parts

/-!
# Edges beside uses

An outline lists uses and edges apart. Each edge is there by a use inside a symbol, and each such use
has its edge, so the two lists run in lockstep.

* `Use.Foreign`: the language provides neither a used name nor what it is taken from.
* `Edge.Follows`: an edge is that of a use.
* `Lockstep`: the edges among facts follow the uses inside symbols among them, and all are foreign.
  `additive_lockstep`: facts that are put together stay in lockstep.
* `Outline.links_lockstep`: a link emits its use and its edge in lockstep.
* `SyntaxTree.lockstep_facts`: the facts of a syntax tree are in lockstep.
* **`SyntaxTree.edges_follow_uses`**: edges and uses inside symbols run in lockstep.
-/

namespace CodeAtlas

open Syntax Outline

/-- The first piece is what comes before the first separator. -/
theorem Text.head?_splitBy {α : Type} (p : α → Bool) (s : List α) :
    (splitBy p s).head? = some (s.takeWhile fun c => !p c) := by
  induction s with
  | nil => rfl
  | cons c cs ih =>
    rw [splitBy]
    cases hc : p c with
    | true => simp [hc]
    | false =>
      cases hs : splitBy p cs with
      | nil => simp [hs] at ih
      | cons piece pieces =>
        rw [hs, List.head?_cons, Option.some.injEq] at ih
        simp [hc, ih]

/-! ## Uses and their edges -/

/-- A language provides neither a used name nor the first segment of what it is taken from. -/
structure Use.Foreign (builtins : List String) (u : Use) : Prop where
  target : u.target ∉ builtins
  root : ∀ q ∈ u.qualifier, ∀ root ∈ (Text.splitBy (fun c => c == '.' || c == ':') q.toList).head?,
    .ofList root ∉ builtins

/-- An edge is that of a use inside a symbol. -/
structure Edge.Follows (u : Use) (e : Edge) : Prop where
  source : u.source = some e.source
  target : e.target = u.target
  line : e.line = u.line
  kind : e.kind ∈ u.kind.edges

/-- Among facts, the edges are, in order, those of the uses inside symbols, and the language provides
nothing that is used. -/
structure Lockstep (builtins : List String) (facts : List Fact) : Prop where
  follow : List.Forall₂ Edge.Follows
    ((facts.filterMap Fact.use?).filter (·.source.isSome)) (facts.filterMap Fact.edge?)
  foreign : ∀ u ∈ facts.filterMap Fact.use?, u.Foreign builtins
  targets : ∀ e ∈ facts.filterMap Fact.edge?, e.target ∉ builtins

section Facts

variable {builtins : List String} {facts : List Fact}

/-- Facts that are neither uses nor edges are in lockstep. -/
theorem lockstep_of_forall (h : ∀ x ∈ facts, x.use? = none ∧ x.edge? = none) :
    Lockstep builtins facts := by
  have huse : facts.filterMap Fact.use? = [] :=
    List.filterMap_eq_nil_iff.mpr fun x hx => (h x hx).1
  have hedge : facts.filterMap Fact.edge? = [] :=
    List.filterMap_eq_nil_iff.mpr fun x hx => (h x hx).2
  constructor
  · rw [huse, hedge]
    exact .nil
  · simp [huse]
  · simp [hedge]

theorem lockstep_declares (d : Declaration) : Lockstep builtins [.declares d] :=
  lockstep_of_forall (by simp [Fact.use?, Fact.edge?])

theorem lockstep_importOf (span : Span) (i : ImportClause) : Lockstep builtins [importOf span i] :=
  lockstep_of_forall (by simp [importOf, Fact.use?, Fact.edge?])

/-- **Facts that are put together stay in lockstep.** -/
theorem additive_lockstep : Additive (Lockstep builtins) where
  nil := lockstep_of_forall (by simp)
  append h h' := by
    constructor
    · rw [List.filterMap_append, List.filterMap_append, List.filter_append]
      exact List.rel_append h.follow h'.follow
    · rw [List.filterMap_append]
      exact List.forall_mem_append.mpr ⟨h.foreign, h'.foreign⟩
    · rw [List.filterMap_append]
      exact List.forall_mem_append.mpr ⟨h.targets, h'.targets⟩

theorem not_mem_of_not_isProvided {name : String} {qualifier : Option String}
    (h : ¬ isProvided builtins name qualifier = true) : name ∉ builtins := by
  simp only [isProvided, Bool.or_eq_true, List.contains_iff_mem, not_or] at h
  exact h.1.2

/-- A use of what the language does not provide is foreign. -/
theorem foreign_of_not_isProvided {kind : UseKind} {source : Option String} {name : String}
    {qualifier : Option String} {line column : Nat}
    (h : ¬ isProvided builtins name qualifier = true) :
    Use.Foreign builtins ⟨kind, source, name, qualifier, line, column⟩ := by
  refine ⟨not_mem_of_not_isProvided h, ?_⟩
  rintro q hq root hroot
  simp only [isProvided, Bool.or_eq_true, List.contains_iff_mem, not_or] at h
  cases hq
  rw [Text.head?_splitBy, Option.mem_some_iff] at hroot
  subst hroot
  simpa [qualifierRoot] using h.2

/-- **A link emits its use and its edge in lockstep.** The edge has a test of its own, which a name
that is used has already passed. -/
theorem Outline.links_lockstep : Links builtins (Lockstep builtins) := by
  intro kind edge hedge source name qualifier place
  unfold link
  split
  · exact additive_lockstep.nil
  · next hprovided =>
    have hforeign := not_mem_of_not_isProvided hprovided
    cases source with
    | none =>
      -- a use outside of all symbols has no edge
      exact ⟨.nil, by simpa [Fact.use?] using foreign_of_not_isProvided hprovided,
        by simp [Fact.edge?]⟩
    | some source =>
      have hedges : relationship builtins edge source name place =
          [.relates { kind := edge, source, target := name, line := place.row + 1 }] := by
        simp [relationship, hforeign]
      simp only [hedges]
      refine ⟨.cons ⟨rfl, rfl, rfl, hedge⟩ .nil, ?_, by simpa [Fact.edge?] using hforeign⟩
      simpa [Fact.use?] using foreign_of_not_isProvided hprovided

end Facts

/-! ## Facts of all languages -/

variable {src : Source}

theorem Outline.Go.parts_lockstep (root : Node) : Parts src root (Lockstep builtins) where
  additive := additive_lockstep
  links := links_lockstep
  imports := lockstep_importOf
  function := fun _ _ _ _ _ => lockstep_declares _
  member := fun _ _ _ _ _ _ _ => lockstep_declares _
  type := fun _ _ _ _ _ => lockstep_declares _
  value := fun _ _ _ _ _ _ => lockstep_declares _

theorem Outline.Python.parts_lockstep (root : Node) : Parts src root (Lockstep builtins) where
  additive := additive_lockstep
  links := links_lockstep
  imports := lockstep_importOf
  definition := fun _ _ _ _ _ _ _ _ _ => lockstep_declares _
  assigned := fun _ _ _ _ _ _ _ _ => lockstep_declares _

theorem Outline.Rust.parts_lockstep (root : Node) : Parts src root (Lockstep builtins) where
  additive := additive_lockstep
  links := links_lockstep
  imports := lockstep_importOf
  function := fun _ _ _ _ _ _ _ _ => lockstep_declares _
  type := fun _ _ _ _ _ _ _ => lockstep_declares _
  field := fun _ _ _ _ _ _ => lockstep_declares _
  modules := fun _ _ _ _ _ => lockstep_declares _
  named := fun _ _ _ _ _ _ _ _ => lockstep_declares _

namespace SyntaxTree

/-- The names that the language of a syntax tree provides. -/
def builtins : SyntaxTree → List String
  | go _ => Go.builtins
  | python _ => Python.builtins
  | rust _ => Rust.builtins

variable {tree : SyntaxTree}

/-- **The facts of a syntax tree are in lockstep.** -/
theorem lockstep_facts : Lockstep tree.builtins (tree.facts src) := by
  cases tree with
  | go t => exact (Go.parts_lockstep t).shows.walk none [] t t.mem_nodes_self
  | python t => exact (Python.parts_lockstep t).shows.walk {} none [] t t.mem_nodes_self (by simp)
  | rust t => exact (Rust.parts_lockstep t).shows.walk {} [] t ⟨t.mem_nodes_self, by simp⟩

/-- **Edges and uses run in lockstep.** In the outline of a syntax tree of any language, the edges are,
in order, those of the uses inside symbols, with their sources, targets and lines: a call makes an edge
of calls, a construction one of uses, and any other use one of uses, inheritance, implementation or
composition. No target is a name that the language provides, and no use is taken from one. -/
theorem edges_follow_uses (tree : SyntaxTree) (src : Source) :
    List.Forall₂ Edge.Follows ((tree.outline src).uses.filter (·.source.isSome))
      (tree.outline src).edges ∧
    (∀ u ∈ (tree.outline src).uses, u.Foreign tree.builtins) ∧
    ∀ e ∈ (tree.outline src).edges, e.target ∉ tree.builtins := by
  have hfacts : Lockstep tree.builtins (tree.facts src) := lockstep_facts
  exact ⟨hfacts.follow, hfacts.foreign, hfacts.targets⟩

set_option maxRecDepth 20000 in
/-- The call in the function is one of its edges. -/
theorem edges_follow_uses_decorated :
    ∃ e ∈ ((parse .python decorated).outline decorated).edges,
      e.kind = .calls ∧ e.source = "f" ∧ e.target = "g" := by
  have huse : ∃ u ∈ ((parse .python decorated).outline decorated).uses.filter (·.source.isSome),
      u.kind = .call ∧ u.source = some "f" ∧ u.target = "g" := by decide +kernel
  obtain ⟨u, hu, hkind, hsource, htarget⟩ := huse
  obtain ⟨e, he, heu⟩ :=
    exists_left_of_forall₂ (edges_follow_uses (parse .python decorated) decorated).1.flip hu
  have hedge := heu.kind
  rw [hkind] at hedge
  refine ⟨e, he, List.mem_singleton.mp hedge, ?_, heu.target.trans htarget⟩
  exact Option.some.inj (heu.source.symm.trans hsource)

end SyntaxTree

end CodeAtlas
