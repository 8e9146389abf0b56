import CodeAtlas.Proofs.Ball
import CodeAtlas.Proofs.Cut

/-!
# Direct dependencies

* `dependenciesOf_eq`, `mem_dependencyIds`: what the definitions of a name depend on.
* `Ball.edges_one`: the edges of a graph of depth one are those at its root.
* **`Reachable.dependencies_are_edges`**: the dependencies of a name that is defined once are the
  targets of the edges from it in the graph of depth one, without itself.
-/

namespace CodeAtlas

variable {s : Store}

/-- The edges of a graph of depth one are those at its root. -/
theorem Walk.Ball.edges_one {root : Symbol} {g : Graph} (hb : Walk.Ball s root 1 g) {x : GraphEdge} :
    x ∈ g.edges ↔ ∃ y ∈ s.arrivals root, y.1 = x := by
  rw [hb.edges]
  constructor
  · rintro ⟨a, k, hk, ha, hx⟩
    obtain rfl := Nat.lt_one_iff.mp hk
    rwa [Store.distance_zero_iff.mp ha] at hx
  · exact fun hx => ⟨root, 0, Nat.one_pos, Store.distance_zero_iff.mpr rfl, hx⟩

namespace Store

variable {n : String}

/-- The targets of the edges from the definitions of a name. -/
def targetsOf (s : Store) (n : String) : List (Option Symbol) :=
  ((s.named n).map fun owner =>
    (s.edgesFrom owner.name owner.id).map fun e => s.endOf e.target e.targetId).flatten

theorem dependenciesOf_eq (h : s.Sound) (n : String) : s.dependenciesOf n =
    .ok (distinctOn (·.id) (((s.targetsOf n).filterMap id).filter
      fun d => !(s.named n).any (·.id == d.id))) := by
  have howner : ∀ owner ∈ s.named n, (s.relationshipsFrom owner.name (some owner.id) >>= fun edges =>
      edges.mapM fun e => s.linkEnd? e.target e.targetId) =
        .ok ((s.edgesFrom owner.name owner.id).map fun e => s.endOf e.target e.targetId) := by
    intro owner _
    rw [relationshipsFrom_eq h.flawless]
    exact mapM_eq_ok fun e _ => linkEnd?_eq h e.target e.targetId
  have hfound := mapM_eq_ok howner
  unfold dependenciesOf
  rw [symbolsNamed_eq h]
  simp only [bind, Except.bind] at hfound ⊢
  rw [hfound]
  rfl

theorem mem_targetsOf (h : s.Sound) {b : Symbol} :
    some b ∈ s.targetsOf n ↔ ∃ a ∈ s.named n, ∃ e, s.LeadsTo a.name a.id e b := by
  simp only [targetsOf, List.mem_flatten, List.mem_map, exists_exists_and_eq_and, leadsTo_iff h]

/-- **What a name depends on** are the targets of the edges from its definitions, without these. -/
theorem mem_dependencyIds (h : s.Sound) {ds : List Symbol} (hds : s.dependenciesOf n = .ok ds)
    {i : Int} : i ∈ ds.map (·.id) ↔ (∃ a ∈ s.named n, ∃ e b, s.LeadsTo a.name a.id e b ∧ b.id = i) ∧
      ∀ a ∈ s.named n, a.id ≠ i := by
  rw [dependenciesOf_eq h] at hds
  obtain rfl := Except.ok.inj hds
  set found := ((s.targetsOf n).filterMap id).filter fun d => !(s.named n).any (·.id == d.id)
    with hfound
  have hmem : ∀ b, b ∈ found ↔ (∃ a ∈ s.named n, ∃ e, s.LeadsTo a.name a.id e b) ∧
      ∀ a ∈ s.named n, a.id ≠ b.id := by
    intro b
    rw [hfound, List.mem_filter, ← mem_targetsOf h]
    simp
  rw [mem_keys_distinctOn]
  constructor
  · rintro ⟨b, hb, rfl⟩
    obtain ⟨⟨a, ha, e, hab⟩, hne⟩ := (hmem b).mp hb
    exact ⟨⟨a, ha, e, b, hab, rfl⟩, hne⟩
  · rintro ⟨⟨a, ha, e, b, hab, rfl⟩, hne⟩
    exact ⟨b, (hmem b).mpr ⟨⟨a, ha, e, hab⟩, hne⟩, rfl⟩

/-- A name that is defined once has one definition. -/
theorem named_of_definedOnce (h : s.Sound) (hn : s.DefinedOnce n) :
    ∃ r, s.named n = [r] ∧ s.Shown r := by
  obtain ⟨x, hx⟩ := List.length_eq_one_iff.mp hn
  have hmem : x ∈ s.symbols.filter (·.name == n) := by rw [hx]; exact List.mem_singleton_self x
  obtain ⟨hxs, hxn⟩ := List.mem_filter.mp hmem
  obtain ⟨d, hd, -⟩ := exists_mem_named h hxs (by simpa using hxn)
  have hshown := shown_of_mem_named h hd
  obtain ⟨f, -, r, hr, -, hrn, rfl⟩ := (mem_named h.keyed).mp hd
  exact ⟨_, hn.eq_singleton h hr hrn (List.Sublist.refl _)
    (fun d hd => name_of_mem_named h.keyed hd) hd, hshown⟩

/-- **Direct dependencies agree with the graph.** What a name with one definition depends on is listed
once, and these are the targets of the edges from the definition in the graph of depth one, without
the definition itself. -/
theorem Reachable.dependencies_are_edges (h : s.Reachable) (hn : s.DefinedOnce n) :
    ∃ r ds g, s.symbolsNamed n = .ok [r] ∧ s.dependenciesOf n = .ok ds ∧
      s.dependencyGraph n 1 = .ok g ∧ (ds.map (·.id)).Nodup ∧
      ∀ i, i ∈ ds.map (·.id) ↔
        ∃ x ∈ g.edges, x.source = r.id ∧ x.target ≠ r.id ∧ x.target = i := by
  have hs := h.sound
  obtain ⟨r, hr, hshown⟩ := named_of_definedOnce hs hn
  obtain ⟨g, hg, hball⟩ := dependencyGraph_ball hs hshown hr 1
  have hds := dependenciesOf_eq hs n
  refine ⟨r, _, g, by rw [symbolsNamed_eq hs, hr], hds, hg, nodup_distinctOn _ _, fun i => ?_⟩
  rw [mem_dependencyIds hs hds, hr]
  simp only [List.mem_singleton, exists_eq_left, forall_eq]
  constructor
  · rintro ⟨⟨e, b, hb, rfl⟩, hne⟩
    refine ⟨⟨r.id, b.id, e.kind⟩, hball.edges_one.mpr ⟨(_, b), ?_, rfl⟩, rfl, hne.symm, rfl⟩
    exact (mem_arrivals hs).mpr (Or.inl ⟨e, hb, rfl⟩)
  · rintro ⟨x, hx, hsource, htarget, rfl⟩
    obtain ⟨y, hy, rfl⟩ := hball.edges_one.mp hx
    rcases (mem_arrivals hs).mp hy with ⟨e, hb, he⟩ | ⟨e, -, he⟩
    · rw [he] at htarget ⊢
      exact ⟨⟨e, y.2, hb, rfl⟩, htarget.symm⟩
    · -- an edge that was met from its target ends at the definition
      rw [he] at htarget
      exact absurd rfl htarget

/-- A function that calls itself and one that is defined twice, and a function that calls it. -/
def calls : List Write :=
  [.upsertProject 0 "/p" "p",
    .persist 0 1 { relativePath := "a.go" }
      { symbols := [{ name := "f" }, { name := "k" }]
        edges := [{ kind := .calls, source := "f", target := "f", line := 1 },
          { kind := .calls, source := "f", target := "g", line := 2 },
          { kind := .uses, source := "f", target := "g", line := 3 },
          { kind := .calls, source := "k", target := "f", line := 4 }] },
    .persist 0 1 { relativePath := "b.go" } { symbols := [{ name := "g" }] },
    .persist 0 1 { relativePath := "c.go" } { symbols := [{ name := "g" }] }]

/-- It depends on the first definition of that name only. -/
theorem dependencies_are_edges_calls : ∃ r ds g, (run calls).symbolsNamed "f" = .ok [r] ∧
    (run calls).dependenciesOf "f" = .ok ds ∧ (run calls).dependencyGraph "f" 1 = .ok g ∧
    ds.map (·.id) = [3] ∧ ∃ x ∈ g.edges, x.source = r.id ∧ x.target ≠ r.id ∧ x.target = 3 := by
  obtain ⟨r, ds, g, hr, hds, hg, -, hedges⟩ :=
    (reachable_run calls).dependencies_are_edges (by decide +kernel : (run calls).DefinedOnce "f")
  have hids : ((run calls).dependenciesOf "f").toOption.map (fun ds => ds.map (·.id)) = some [3] := by
    decide +kernel
  rw [hds] at hids
  have hids' : ds.map (·.id) = [3] := Option.some.inj hids
  exact ⟨r, ds, g, hr, hds, hg, hids', (hedges 3).mp (by rw [hids']; exact List.mem_singleton_self 3)⟩

end Store

end CodeAtlas
