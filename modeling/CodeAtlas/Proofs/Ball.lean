import Mathlib.Data.List.Perm.Subperm
import CodeAtlas.Proofs.Steps

/-!
# Walks reach balls

A walk of so many levels reaches the symbols within as many steps of its root.

* `Walk.Grown`: a walk after it followed some edges; `grown_expand`: what following the edges at a
  symbol does.
* **`Walk.Ball`**: the nodes are the symbols within a distance of the root, and the edges are those at
  the symbols that are nearer. `Frontier.next`, `Ball.next`: a level goes one step further.
* `levels_ball`: so does a walk of many levels, also where it stops early; `levels_enough`: it stops
  after as many levels as there are symbols.
* **`Store.Reachable.graph_is_ball`**, **`Store.Reachable.graph_edges_exact`**: the nodes and the edges
  of a dependency graph.
-/

namespace CodeAtlas

variable {s : Store}

namespace Walk

/-! ## Following edges -/

/-- **A walk after some edges were followed** at a depth: what they lead to was reached, and what was
new is a node. -/
structure Grown (depth : Nat) (w : Walk) (xs : List (GraphEdge × Symbol)) (w' : Walk) : Prop where
  root : w'.graph.root = w.graph.root
  nodes : ∃ new, w'.graph.nodes = w.graph.nodes ++ new.map (GraphNode.ofSymbol depth) ∧
    w'.reached = w.reached ++ new ∧ (∀ b ∈ new, ∃ x ∈ xs, x.2 = b) ∧
    (∀ b ∈ new, b.id ∉ w.graph.nodes.map (·.id)) ∧ (new.map (·.id)).Nodup
  seen : ∀ x ∈ xs, x.2.id ∈ w'.graph.nodes.map (·.id)
  edges : ∀ e, e ∈ w'.graph.edges ↔ e ∈ w.graph.edges ∨ ∃ x ∈ xs, x.1 = e
  once : w.graph.edges.Nodup → w'.graph.edges.Nodup

section Grown

variable {depth : Nat} {w w' w'' : Walk} {xs ys : List (GraphEdge × Symbol)}

theorem map_id_ofSymbol (depth : Nat) (bs : List Symbol) :
    (bs.map (GraphNode.ofSymbol depth)).map (·.id) = bs.map (·.id) := by
  rw [List.map_map]
  rfl

theorem Grown.refl (depth : Nat) (w : Walk) : Grown depth w [] w where
  root := rfl
  nodes := ⟨[], by simp⟩
  seen := by simp
  edges := by simp
  once := id

theorem Grown.trans (h : Grown depth w xs w') (h' : Grown depth w' ys w'') :
    Grown depth w (xs ++ ys) w'' := by
  obtain ⟨new, hnodes, hreached, hfrom, hnew, hnd⟩ := h.nodes
  obtain ⟨new', hnodes', hreached', hfrom', hnew', hnd'⟩ := h'.nodes
  have hids : w'.graph.nodes.map (·.id) = w.graph.nodes.map (·.id) ++ new.map (·.id) := by
    rw [hnodes, List.map_append, map_id_ofSymbol]
  rw [hids] at hnew'
  refine ⟨h'.root.trans h.root, ⟨new ++ new', ?_, ?_, ?_, ?_, ?_⟩, ?_, fun e => ?_,
    fun hw => h'.once (h.once hw)⟩
  · rw [hnodes', hnodes, List.map_append, List.append_assoc]
  · rw [hreached', hreached, List.append_assoc]
  · intro b hb
    rcases List.mem_append.mp hb with hb | hb
    · obtain ⟨x, hx, e⟩ := hfrom b hb
      exact ⟨x, List.mem_append_left _ hx, e⟩
    · obtain ⟨x, hx, e⟩ := hfrom' b hb
      exact ⟨x, List.mem_append_right _ hx, e⟩
  · intro b hb
    rcases List.mem_append.mp hb with hb | hb
    · exact hnew b hb
    · exact fun hmem => hnew' b hb (List.mem_append_left _ hmem)
  · rw [List.map_append]
    refine hnd.append hnd' fun i hi hi' => ?_
    obtain ⟨b, hb, rfl⟩ := List.mem_map.mp hi'
    exact hnew' b hb (List.mem_append_right _ hi)
  · intro x hx
    rcases List.mem_append.mp hx with hx | hx
    · rw [hnodes', List.map_append]
      exact List.mem_append_left _ (h.seen x hx)
    · exact h'.seen x hx
  · rw [h'.edges, h.edges, or_assoc]
    simp only [List.mem_append, or_and_right, exists_or]

theorem grown_warn (depth : Nat) (w : Walk) (n : String) (ds : List Symbol) :
    Grown depth w [] (w.warn n ds) := by
  unfold warn
  split
  · exact { Grown.refl depth w with root := rfl }
  · exact Grown.refl depth w

theorem addEdge_spec (w : Walk) (e : GraphEdge) :
    (∀ e', e' ∈ (w.addEdge e).graph.edges ↔ e' ∈ w.graph.edges ∨ e = e') ∧
      (w.graph.edges.Nodup → (w.addEdge e).graph.edges.Nodup) := by
  unfold addEdge
  split
  · next hc =>
    refine ⟨fun e' => ⟨Or.inl, ?_⟩, id⟩
    rintro (he | rfl)
    · exact he
    · exact List.contains_iff_mem.mp hc
  · next hc =>
    refine ⟨fun e' => ?_, fun hw => ?_⟩
    · rw [List.mem_append, List.mem_singleton, eq_comm]
    · refine hw.append (List.nodup_singleton e) fun e' he he' => ?_
      rw [List.mem_singleton.mp he'] at he
      exact hc (List.contains_iff_mem.mpr he)

theorem addEdge_rest (w : Walk) (e : GraphEdge) : (w.addEdge e).graph.root = w.graph.root ∧
    (w.addEdge e).graph.nodes = w.graph.nodes ∧ (w.addEdge e).reached = w.reached := by
  unfold addEdge
  split <;> exact ⟨rfl, rfl, rfl⟩

/-- An edge is added, and the symbol it leads to is reached. -/
theorem grown_arrive (depth : Nat) (w : Walk) (x : GraphEdge × Symbol) :
    Grown depth w [x] ((w.addEdge x.1).reach depth x.2) := by
  obtain ⟨hedges, honce⟩ := w.addEdge_spec x.1
  obtain ⟨hroot, hnodes, hreached⟩ := w.addEdge_rest x.1
  set w₁ := w.addEdge x.1
  have hedges' : ∀ e, e ∈ w₁.graph.edges ↔ e ∈ w.graph.edges ∨ ∃ y ∈ [x], y.1 = e := by
    simpa using hedges
  unfold reach
  split
  · next hany =>
    refine ⟨hroot, ⟨[], by simp [hnodes, hreached]⟩, fun y hy => ?_, hedges', honce⟩
    rw [List.mem_singleton.mp hy]
    obtain ⟨node, hnode, he⟩ := List.any_eq_true.mp hany
    exact List.mem_map.mpr ⟨node, hnode, by simpa using he⟩
  · next hany =>
    refine ⟨hroot, ⟨[x.2], by rw [hnodes]; rfl, by rw [hreached], ?_, ?_, ?_⟩, fun y hy => ?_,
      hedges', honce⟩
    · exact fun b hb => ⟨x, List.mem_singleton_self x, (List.mem_singleton.mp hb).symm⟩
    · intro b hb hmem
      rw [List.mem_singleton.mp hb, ← hnodes] at hmem
      obtain ⟨node, hnode, he⟩ := List.mem_map.mp hmem
      exact hany (List.any_eq_true.mpr ⟨node, hnode, by simpa using he⟩)
    · exact List.nodup_singleton _
    · rw [List.mem_singleton.mp hy, List.map_append]
      exact List.mem_append_right _ (List.mem_singleton_self _)

theorem grown_foldlM {α : Type} {f : Walk → α → StoreM Walk} {go : α → List (GraphEdge × Symbol)}
    (h : ∀ w a, ∃ w', f w a = .ok w' ∧ Grown depth w (go a) w') (l : List α) (w : Walk) :
    ∃ w', l.foldlM f w = .ok w' ∧ Grown depth w (l.flatMap go) w' := by
  induction l generalizing w with
  | nil => exact ⟨w, rfl, Grown.refl depth w⟩
  | cons a l ih =>
    obtain ⟨w₁, hw₁, hg₁⟩ := h w a
    obtain ⟨w₂, hw₂, hg₂⟩ := ih w₁
    refine ⟨w₂, ?_, hg₁.trans hg₂⟩
    rw [List.foldlM_cons, hw₁]
    exact hw₂

theorem resolve_spec (h : s.Sound) (depth : Nat) (w : Walk) (n : String) (link : Option Int) :
    ∃ w', resolve s w n link = .ok (s.endOf n link, w') ∧ Grown depth w [] w' := by
  cases link with
  | some id =>
    refine ⟨w, ?_, Grown.refl depth w⟩
    rw [resolve, Store.symbol?_eq_shown h]
    rfl
  | none =>
    refine ⟨w.warn n (s.named n), ?_, grown_warn depth w n _⟩
    rw [resolve, Store.symbolsNamed_eq h]
    rfl

theorem grown_followTarget (h : s.Sound) (depth : Nat) (a : Symbol) (w : Walk) (e : Relationship) :
    ∃ w', followTarget s depth a w e = .ok w' ∧ Grown depth w (s.forth a.id e) w' := by
  obtain ⟨w₁, hw₁, hg₁⟩ := resolve_spec h depth w e.target e.targetId
  unfold followTarget Store.forth
  rw [hw₁]
  cases s.endOf e.target e.targetId with
  | none => exact ⟨w₁, rfl, hg₁⟩
  | some b => exact ⟨_, rfl, hg₁.trans (grown_arrive depth w₁ (⟨a.id, b.id, e.kind⟩, b))⟩

theorem grown_followSource (h : s.Sound) (depth : Nat) (a : Symbol) (w : Walk) (e : Relationship) :
    ∃ w', followSource s depth a w e = .ok w' ∧ Grown depth w (s.back a.id e) w' := by
  obtain ⟨w₁, hw₁, hg₁⟩ := resolve_spec h depth w e.source e.sourceId
  unfold followSource Store.back
  rw [hw₁]
  cases s.endOf e.source e.sourceId with
  | none => exact ⟨w₁, rfl, hg₁⟩
  | some b => exact ⟨_, rfl, hg₁.trans (grown_arrive depth w₁ (⟨b.id, a.id, e.kind⟩, b))⟩

/-- **All edges at a symbol are followed.** -/
theorem grown_expand (h : s.Sound) (depth : Nat) (w : Walk) (a : Symbol) :
    ∃ w', expand s depth w a = .ok w' ∧ Grown depth w (s.arrivals a) w' := by
  obtain ⟨w₁, hw₁, hg₁⟩ := grown_foldlM (grown_followTarget h depth a) (s.edgesFrom a.name a.id) w
  obtain ⟨w₂, hw₂, hg₂⟩ := grown_foldlM (grown_followSource h depth a) (s.edgesTo a.name a.id) w₁
  refine ⟨w₂, ?_, hg₁.trans hg₂⟩
  unfold expand
  rw [Store.relationshipsFrom_eq h.flawless, Store.relationshipsTo_eq h.flawless]
  simp only [bind, Except.bind, Store.edgesFrom, Store.edgesTo] at hw₁ hw₂ ⊢
  rw [hw₁]
  exact hw₂

end Grown

/-! ## Level after level -/

/-- **The graph of a walk is a ball around its root**: its nodes are the symbols within so many steps,
each once and with its distance, and its edges are those at the symbols that are nearer, each once. -/
structure Ball (s : Store) (root : Symbol) (d : Nat) (g : Graph) : Prop where
  rooted : g.root = root.id
  nodes : ∀ node, node ∈ g.nodes ↔ ∃ b k, k ≤ d ∧ s.Distance root b k ∧ node = .ofSymbol k b
  nodesOnce : (g.nodes.map (·.id)).Nodup
  edges : ∀ e, e ∈ g.edges ↔
    ∃ a k, k < d ∧ s.Distance root a k ∧ ∃ x ∈ s.arrivals a, x.1 = e
  edgesOnce : g.edges.Nodup

/-- The symbols that are expanded next are those at a distance. -/
def Frontier (s : Store) (root : Symbol) (d : Nat) (frontier : List Symbol) : Prop :=
  ∀ b, b ∈ frontier ↔ s.Distance root b d

section Ball

variable {root : Symbol} {d : Nat} {w w' : Walk} {frontier : List Symbol}

theorem ball_start (s : Store) (root : Symbol) (n : String) (ds : List Symbol) :
    Ball s root 0 (start root n ds).graph ∧ Frontier s root 0 [root] := by
  refine ⟨⟨rfl, fun node => ?_, List.nodup_singleton _, by simp [start], List.nodup_nil⟩, fun b => ?_⟩
  · simp only [start, List.mem_singleton]
    constructor
    · rintro rfl
      exact ⟨root, 0, Nat.le_refl 0, Store.distance_zero_iff.mpr rfl, rfl⟩
    · rintro ⟨b, k, hk, hb, rfl⟩
      obtain rfl := Nat.le_zero.mp hk
      rw [Store.distance_zero_iff.mp hb]
  · rw [List.mem_singleton, Store.distance_zero_iff]

/-- The id of a symbol is that of a node if and only if the symbol is near enough. -/
theorem Ball.id_mem_iff (hb : Ball s root d w.graph) (h : s.Sound) (hroot : s.Shown root) {b : Symbol}
    (hs : s.Shown b) : b.id ∈ w.graph.nodes.map (·.id) ↔ ∃ k ≤ d, s.Distance root b k := by
  constructor
  · intro hmem
    obtain ⟨node, hnode, he⟩ := List.mem_map.mp hmem
    obtain ⟨b', k, hk, hb', rfl⟩ := (hb.nodes node).mp hnode
    obtain rfl := (hb'.shown h hroot).eq_of_id hs he
    exact ⟨k, hk, hb'⟩
  · rintro ⟨k, hk, hdist⟩
    exact List.mem_map.mpr ⟨_, (hb.nodes _).mpr ⟨b, k, hk, hdist, rfl⟩, rfl⟩

theorem Frontier.mem_arrivals (hf : Frontier s root d frontier) {x : GraphEdge × Symbol} :
    x ∈ frontier.flatMap s.arrivals ↔ ∃ a, s.Distance root a d ∧ x ∈ s.arrivals a := by
  simp only [List.mem_flatMap, hf _]

theorem Frontier.shown (hf : Frontier s root d frontier) (h : s.Sound) {x : GraphEdge × Symbol}
    (hx : x ∈ frontier.flatMap s.arrivals) : s.Shown x.2 := by
  obtain ⟨a, -, hx⟩ := hf.mem_arrivals.mp hx
  exact ((Store.step_iff h).mpr ⟨x, hx, rfl⟩).shown h

/-- What a level reaches is one step further. -/
theorem Frontier.next (hf : Frontier s root d frontier) (hb : Ball s root d w.graph) (h : s.Sound)
    (hroot : s.Shown root) (hw : w.reached = [])
    (hg : Grown (d + 1) w (frontier.flatMap s.arrivals) w') : Frontier s root (d + 1) w'.reached := by
  obtain ⟨new, hnodes, hreached, hfrom, hnew, -⟩ := hg.nodes
  rw [hw, List.nil_append] at hreached
  rw [hreached]
  intro b
  rw [Store.distance_succ_iff]
  constructor
  · intro hbn
    obtain ⟨x, hx, rfl⟩ := hfrom b hbn
    obtain ⟨a, ha, hx'⟩ := hf.mem_arrivals.mp hx
    refine ⟨⟨a, ha, (Store.step_iff h).mpr ⟨x, hx', rfl⟩⟩, fun k hk hdist => ?_⟩
    exact hnew x.2 hbn ((hb.id_mem_iff h hroot (hf.shown h hx)).mpr ⟨k, hk, hdist⟩)
  · rintro ⟨⟨a, ha, hstep⟩, hfar⟩
    obtain ⟨x, hx, rfl⟩ := (Store.step_iff h).mp hstep
    have hx' := hf.mem_arrivals.mpr ⟨a, ha, hx⟩
    -- it has been seen, and not before
    have hseen := hg.seen x hx'
    rw [hnodes, List.map_append, map_id_ofSymbol, List.mem_append] at hseen
    rcases hseen with hold | hmem
    · obtain ⟨k, hk, hdist⟩ := (hb.id_mem_iff h hroot (hf.shown h hx')).mp hold
      exact absurd hdist (hfar k hk)
    · obtain ⟨b, hbn, he⟩ := List.mem_map.mp hmem
      obtain ⟨y, hy, rfl⟩ := hfrom b hbn
      rwa [← (hf.shown h hy).eq_of_id (hf.shown h hx') he]

/-- **A level makes the ball one step wider.** -/
theorem Ball.next (hb : Ball s root d w.graph) (h : s.Sound) (hroot : s.Shown root)
    (hf : Frontier s root d frontier) (hw : w.reached = [])
    (hg : Grown (d + 1) w (frontier.flatMap s.arrivals) w') :
    Ball s root (d + 1) w'.graph ∧ Frontier s root (d + 1) w'.reached ∧
      w'.graph.nodes.length = w.graph.nodes.length + w'.reached.length := by
  have hnext := hf.next hb h hroot hw hg
  obtain ⟨new, hnodes, hreached, -, hnew, hnd⟩ := hg.nodes
  rw [hw, List.nil_append] at hreached
  rw [hreached] at hnext ⊢
  refine ⟨⟨hg.root.trans hb.rooted, fun node => ?_, ?_, fun e => ?_, hg.once hb.edgesOnce⟩, hnext, ?_⟩
  · rw [hnodes, List.mem_append, hb.nodes, List.mem_map]
    constructor
    · rintro (⟨b, k, hk, hdist, rfl⟩ | ⟨b, hbn, rfl⟩)
      · exact ⟨b, k, Nat.le_succ_of_le hk, hdist, rfl⟩
      · exact ⟨b, d + 1, Nat.le_refl _, (hnext b).mp hbn, rfl⟩
    · rintro ⟨b, k, hk, hdist, rfl⟩
      rcases Nat.le_succ_iff.mp hk with hk | rfl
      · exact Or.inl ⟨b, k, hk, hdist, rfl⟩
      · exact Or.inr ⟨b, (hnext b).mpr hdist, rfl⟩
  · rw [hnodes, List.map_append, map_id_ofSymbol]
    refine hb.nodesOnce.append hnd fun i hi hi' => ?_
    obtain ⟨b, hbn, rfl⟩ := List.mem_map.mp hi'
    exact hnew b hbn hi
  · rw [hg.edges, hb.edges]
    constructor
    · rintro (⟨a, k, hk, ha, hx⟩ | ⟨x, hx, rfl⟩)
      · exact ⟨a, k, Nat.lt_succ_of_lt hk, ha, hx⟩
      · obtain ⟨a, ha, hx⟩ := hf.mem_arrivals.mp hx
        exact ⟨a, d, Nat.lt_succ_self d, ha, x, hx, rfl⟩
    · rintro ⟨a, k, hk, ha, x, hx, rfl⟩
      rcases Nat.lt_succ_iff_lt_or_eq.mp hk with hk | rfl
      · exact Or.inl ⟨a, k, hk, ha, x, hx, rfl⟩
      · exact Or.inr ⟨x, hf.mem_arrivals.mpr ⟨a, ha, hx⟩, rfl⟩
  · rw [hnodes, List.length_append, List.length_map]

/-- Where a level reaches nothing new, the ball does not grow any more. -/
theorem Ball.mono {g : Graph} (hb : Ball s root d g) (hempty : ∀ b, ¬ s.Distance root b d) {m : Nat}
    (hm : d ≤ m) : Ball s root m g := by
  have hnear : ∀ {b k}, s.Distance root b k → k < d := fun {b k} hk => by
    by_contra hle
    exact Store.no_distance_of_le hempty (Nat.not_lt.mp hle) b hk
  refine ⟨hb.rooted, fun node => (hb.nodes node).trans ?_, hb.nodesOnce,
    fun e => (hb.edges e).trans ?_, hb.edgesOnce⟩
  · refine exists_congr fun b => exists_congr fun k => and_congr_left fun h => ?_
    have hk := hnear h.1
    omega
  · refine exists_congr fun b => exists_congr fun k => and_congr_left fun h => ?_
    have hk := hnear h.1
    omega

/-- **A walk of so many levels reaches a ball**, also where it stops early. -/
theorem levels_ball (h : s.Sound) (hroot : s.Shown root) (hb : Ball s root d w.graph)
    (hf : Frontier s root d frontier) (left : Nat) :
    ∃ w', levels s left (d + 1) frontier w = .ok w' ∧ Ball s root (d + left) w'.graph := by
  induction left generalizing d frontier w with
  | zero => exact ⟨w, rfl, hb⟩
  | succ left ih =>
    obtain ⟨w₁, hw₁, hg⟩ := grown_foldlM (grown_expand h (d + 1)) frontier { w with reached := [] }
    obtain ⟨hb₁, hf₁, -⟩ := Ball.next (w := { w with reached := [] }) hb h hroot hf rfl hg
    unfold levels
    simp only [hw₁, bind, Except.bind]
    split
    · next hempty =>
      refine ⟨w₁, rfl, hb₁.mono (fun b hdist => ?_) (by omega)⟩
      rw [List.isEmpty_iff.mp hempty] at hf₁
      exact List.not_mem_nil ((hf₁ b).mpr hdist)
    · obtain ⟨w₂, hw₂, hb₂⟩ := ih hb₁ hf₁
      refine ⟨w₂, hw₂, ?_⟩
      rwa [Nat.add_right_comm] at hb₂

/-- There are no more nodes than symbols. -/
theorem Ball.length_le {g : Graph} (hb : Ball s root d g) (h : s.Sound) (hroot : s.Shown root) :
    g.nodes.length ≤ s.symbols.length := by
  have hsub : g.nodes.map (·.id) ⊆ s.symbols.map (·.id) := by
    intro i hi
    obtain ⟨node, hnode, rfl⟩ := List.mem_map.mp hi
    obtain ⟨b, k, -, hdist, rfl⟩ := (hb.nodes node).mp hnode
    exact (hdist.shown h hroot).mem_ids h.keyed
  simpa using (List.Nodup.subperm hb.nodesOnce hsub).length_le

/-- **A walk stops after as many levels as there are symbols**, since each of them reaches a new one. -/
theorem levels_enough (h : s.Sound) (hroot : s.Shown root) (hb : Ball s root d w.graph)
    (hf : Frontier s root d frontier) (hlen : d < w.graph.nodes.length) (left : Nat)
    (hleft : s.symbols.length ≤ d + left) (more : Nat) :
    levels s (left + more) (d + 1) frontier w = levels s left (d + 1) frontier w := by
  induction left generalizing d frontier w with
  | zero =>
    have := hb.length_le h hroot
    omega
  | succ left ih =>
    obtain ⟨w₁, hw₁, hg⟩ := grown_foldlM (grown_expand h (d + 1)) frontier { w with reached := [] }
    obtain ⟨hb₁, hf₁, hlen₁⟩ := Ball.next (w := { w with reached := [] }) hb h hroot hf rfl hg
    rw [Nat.add_right_comm, levels, levels]
    simp only [hw₁, bind, Except.bind]
    split
    · rfl
    · next hempty =>
      have hpos : 0 < w₁.reached.length := List.length_pos_iff.mpr fun he => hempty (by rw [he]; rfl)
      have hgrown : d + 1 < w₁.graph.nodes.length := by
        rw [hlen₁]
        exact Nat.add_lt_add_of_lt_of_le hlen hpos
      exact ih hb₁ hf₁ hgrown (by omega)

end Ball

end Walk

namespace Store

section Graph

variable {n : String} {root : Symbol} {others : List Symbol}

/-- A name with a definition has a first one. -/
theorem exists_root (h : s.Sound) (hn : ∃ r ∈ s.symbols, r.name = n) :
    ∃ root others, s.named n = root :: others ∧ s.Shown root := by
  obtain ⟨r, hr, hrn⟩ := hn
  obtain ⟨d, hd, -⟩ := exists_mem_named h hr hrn
  obtain ⟨root, others, he⟩ := List.exists_cons_of_ne_nil (List.ne_nil_of_mem hd)
  exact ⟨root, others, he, shown_of_mem_named h (by rw [he]; exact List.mem_cons_self)⟩

theorem dependencyGraph_eq (h : s.Sound) (hn : s.named n = root :: others) (maxDepth : Nat) :
    s.dependencyGraph n maxDepth =
      (liftM (Walk.levels s maxDepth 1 [root] (.start root n (root :: others))) : LookupM Walk) >>=
        fun w => pure w.graph := by
  unfold dependencyGraph
  rw [symbolsNamed_eq h, hn]
  rfl

/-- **A dependency graph is the ball around its root.** -/
theorem dependencyGraph_ball (h : s.Sound) (hroot : s.Shown root) (hn : s.named n = root :: others)
    (maxDepth : Nat) : ∃ g, s.dependencyGraph n maxDepth = .ok g ∧ Walk.Ball s root maxDepth g := by
  obtain ⟨hb, hf⟩ := Walk.ball_start s root n (root :: others)
  obtain ⟨w, hw, hball⟩ := Walk.levels_ball h hroot hb hf maxDepth
  rw [Nat.zero_add] at hw hball
  refine ⟨w.graph, ?_, hball⟩
  rw [dependencyGraph_eq h hn, hw]
  rfl

/-- No graph is deeper than there are symbols. -/
theorem dependencyGraph_enough (h : s.Sound) (hroot : s.Shown root) (hn : s.named n = root :: others)
    (maxDepth : Nat) :
    s.dependencyGraph n (min maxDepth s.symbols.length) = s.dependencyGraph n maxDepth := by
  rcases Nat.le_total maxDepth s.symbols.length with hle | hle
  · rw [Nat.min_eq_left hle]
  · obtain ⟨hb, hf⟩ := Walk.ball_start s root n (root :: others)
    obtain ⟨more, rfl⟩ := Nat.exists_eq_add_of_le hle
    have henough := Walk.levels_enough h hroot hb hf Nat.one_pos s.symbols.length (by omega) more
    rw [Nat.min_eq_right hle, dependencyGraph_eq h hn, dependencyGraph_eq h hn, henough]

end Graph

/-- **The nodes of a dependency graph are the ball around its root.** The graph of a name that is
defined has the symbols within so many steps of the first definition as its nodes, each once and with
its distance, and no others. However many levels are asked for, no more are needed than there are
symbols. -/
theorem Reachable.graph_is_ball (h : s.Reachable) {n : String} (hn : ∃ r ∈ s.symbols, r.name = n)
    (maxDepth : Nat) : ∃ root others g, s.symbolsNamed n = .ok (root :: others) ∧
      s.dependencyGraph n maxDepth = .ok g ∧ g.root = root.id ∧ (g.nodes.map (·.id)).Nodup ∧
      (∀ node, node ∈ g.nodes ↔
        ∃ b k, k ≤ maxDepth ∧ s.Distance root b k ∧ node = .ofSymbol k b) ∧
      s.dependencyGraph n (min maxDepth s.symbols.length) = .ok g := by
  have hs := h.sound
  obtain ⟨root, others, hnamed, hroot⟩ := exists_root hs hn
  obtain ⟨g, hg, hball⟩ := dependencyGraph_ball hs hroot hnamed maxDepth
  exact ⟨root, others, g, by rw [symbolsNamed_eq hs, hnamed], hg, hball.rooted, hball.nodesOnce,
    hball.nodes, (dependencyGraph_enough hs hroot hnamed maxDepth).trans hg⟩

/-- Four functions that call each other in a ring. -/
def ring : List Write :=
  [.upsertProject 0 "/p" "p",
    .persist 0 1 { relativePath := "a.go" }
      { symbols := [{ name := "f" }, { name := "g" }, { name := "h" }, { name := "k" }]
        edges := [{ kind := .calls, source := "f", target := "g", line := 1 },
          { kind := .calls, source := "g", target := "h", line := 2 },
          { kind := .calls, source := "h", target := "k", line := 3 },
          { kind := .calls, source := "k", target := "f", line := 4 }] }]

/-- Three functions are nearer one way round, and the walk ends. -/
theorem graph_is_ball_ring : ∃ root others g, (run ring).symbolsNamed "f" = .ok (root :: others) ∧
    (run ring).dependencyGraph "f" 1000 = .ok g ∧
    g.nodes.map (fun node => (node.name, node.depth)) = [("f", 0), ("g", 1), ("k", 1), ("h", 2)] ∧
    ∀ node ∈ g.nodes, ∃ b k, (run ring).Distance root b k ∧ node = .ofSymbol k b := by
  obtain ⟨root, others, g, hroot, hg, -, -, hnodes, hfew⟩ :=
    (reachable_run ring).graph_is_ball (by decide +kernel : ∃ r ∈ (run ring).symbols, r.name = "f")
      1000
  have hring : ((run ring).dependencyGraph "f" (min 1000 (run ring).symbols.length)).toOption.map
      (fun g => g.nodes.map fun node => (node.name, node.depth)) =
        some [("f", 0), ("g", 1), ("k", 1), ("h", 2)] := by decide +kernel
  rw [hfew] at hring
  refine ⟨root, others, g, hroot, hg, Option.some.inj hring, fun node hnode => ?_⟩
  obtain ⟨b, k, -, hdist, he⟩ := (hnodes node).mp hnode
  exact ⟨b, k, hdist, he⟩

/-- **The edges of a dependency graph are those at its inner nodes.** Both ends of each are nodes, it
points from what depends to what it depends on, and it is there once, whichever end it was met from
and however often. -/
theorem Reachable.graph_edges_exact (h : s.Reachable) {n : String}
    (hn : ∃ r ∈ s.symbols, r.name = n) (maxDepth : Nat) :
    ∃ g, s.dependencyGraph n maxDepth = .ok g ∧ g.edges.Nodup ∧
      (∀ x ∈ g.edges, (∃ a ∈ g.nodes, a.id = x.source) ∧ ∃ b ∈ g.nodes, b.id = x.target) ∧
      ∀ x, x ∈ g.edges ↔ ∃ a ∈ g.nodes, a.depth < maxDepth ∧ ∃ e b,
        (s.LeadsTo a.name a.id e b ∧ x = ⟨a.id, b.id, e.kind⟩) ∨
          (s.ComesFrom a.name a.id e b ∧ x = ⟨b.id, a.id, e.kind⟩) := by
  have hs := h.sound
  obtain ⟨root, others, hnamed, hroot⟩ := exists_root hs hn
  obtain ⟨g, hg, hball⟩ := dependencyGraph_ball hs hroot hnamed maxDepth
  refine ⟨g, hg, hball.edgesOnce, fun x hx => ?_, fun x => ?_⟩
  · obtain ⟨a, k, hk, ha, y, hy, rfl⟩ := (hball.edges x).mp hx
    have hnear : GraphNode.ofSymbol k a ∈ g.nodes :=
      (hball.nodes _).mpr ⟨a, k, Nat.le_of_lt hk, ha, rfl⟩
    obtain ⟨k', hk', hb⟩ := exists_distance (m := k + 1)
      ⟨a, ha.reached, (step_iff hs).mpr ⟨y, hy, rfl⟩⟩
    have hend : GraphNode.ofSymbol k' y.2 ∈ g.nodes :=
      (hball.nodes _).mpr ⟨y.2, k', by omega, hb, rfl⟩
    rcases (mem_arrivals hs).mp hy with ⟨e, -, he⟩ | ⟨e, -, he⟩
    · rw [he]
      exact ⟨⟨_, hnear, rfl⟩, _, hend, rfl⟩
    · rw [he]
      exact ⟨⟨_, hend, rfl⟩, _, hnear, rfl⟩
  · rw [hball.edges]
    constructor
    · rintro ⟨a, k, hk, ha, y, hy, rfl⟩
      refine ⟨_, (hball.nodes _).mpr ⟨a, k, Nat.le_of_lt hk, ha, rfl⟩, hk, ?_⟩
      rcases (mem_arrivals hs).mp hy with ⟨e, hb, he⟩ | ⟨e, hb, he⟩
      · exact ⟨e, y.2, Or.inl ⟨hb, he⟩⟩
      · exact ⟨e, y.2, Or.inr ⟨hb, he⟩⟩
    · rintro ⟨node, hnode, hk, e, b, hx⟩
      obtain ⟨a, k, -, ha, rfl⟩ := (hball.nodes node).mp hnode
      refine ⟨a, k, hk, ha, (x, b), (mem_arrivals hs).mpr ?_, rfl⟩
      rcases hx with ⟨hb, he⟩ | ⟨hb, he⟩
      · exact Or.inl ⟨e, hb, he⟩
      · exact Or.inr ⟨e, hb, he⟩

/-- Two of the edges are met from both ends, and the last one leads to a node that is there already. -/
theorem graph_edges_exact_ring : ∃ g, (run ring).dependencyGraph "f" 2 = .ok g ∧
    g.edges.map (fun e => (e.source, e.target)) = [(1, 2), (4, 1), (2, 3), (3, 4)] ∧
    g.edges.Nodup ∧
    ∀ x ∈ g.edges, (∃ a ∈ g.nodes, a.id = x.source) ∧ ∃ b ∈ g.nodes, b.id = x.target := by
  obtain ⟨g, hg, hnd, hends, -⟩ := (reachable_run ring).graph_edges_exact
    (by decide +kernel : ∃ r ∈ (run ring).symbols, r.name = "f") 2
  have hring : ((run ring).dependencyGraph "f" 2).toOption.map
      (fun g => g.edges.map fun e => (e.source, e.target)) =
        some [(1, 2), (4, 1), (2, 3), (3, 4)] := by decide +kernel
  rw [hg] at hring
  exact ⟨g, hg, Option.some.inj hring, hnd, hends⟩

end Store

end CodeAtlas
