import CodeAtlas.Graph.Walk
import CodeAtlas.Lookup
import CodeAtlas.Proofs.Cut

/-!
# Answers without links

What is asked about symbols has the same answer after a cut.

* `Alike R`: two computations fail in the same way, or return results that are related.
  `Alike.bind`, `Alike.mapM`, `Alike.foldlM`: so do computations made of such.
* `resolve_alike`, `linkEnd?_cut`, `edgeHit_cut`: the three ways to go on from the end of an edge.
* `levels_alike`, `dependencyGraph_cut`: walks go the same way; `callHits_cut`: calls are found alike.
* `dependentsOf_alike`: what is around the uses of symbols depends only on the places of the uses.
-/

namespace CodeAtlas

/-! ## Computations that go alike -/

/-- Two computations fail in the same way, or return related results. -/
inductive Alike {ε α β : Type} (R : α → β → Prop) : Except ε α → Except ε β → Prop where
  | ok {a : α} {b : β} (h : R a b) : Alike R (.ok a) (.ok b)
  | error (e : ε) : Alike R (.error e) (.error e)

/-- One value with a property, twice. -/
def Same {α : Type} (P : α → Prop) (a b : α) : Prop := a = b ∧ P a

namespace Alike

variable {ε α β γ δ : Type} {R : α → β → Prop} {S : γ → δ → Prop} {P : α → Prop}

theorem same {x : Except ε α} (h : ∀ a, x = .ok a → P a) : Alike (Same P) x x := by
  cases x with
  | ok a => exact .ok ⟨rfl, h a rfl⟩
  | error e => exact .error e

theorem mono {x : Except ε α} {y : Except ε β} {R' : α → β → Prop} (h : Alike R x y)
    (hR : ∀ a b, R a b → R' a b) : Alike R' x y := by
  cases h with
  | ok h => exact .ok (hR _ _ h)
  | error e => exact .error e

theorem of_eq {x y : Except ε α} (h : x = y) : Alike Eq x y := by
  rw [h]
  exact (same fun _ _ => trivial).mono fun _ _ => And.left

theorem eq {x y : Except ε α} (h : Alike Eq x y) : x = y := by
  cases h with
  | ok h => rw [h]
  | error e => rfl

theorem bind {x : Except ε α} {y : Except ε β} {f : α → Except ε γ} {g : β → Except ε δ}
    (h : Alike R x y) (hfg : ∀ a b, R a b → Alike S (f a) (g b)) : Alike S (x >>= f) (y >>= g) := by
  cases h with
  | ok h => exact hfg _ _ h
  | error e => exact .error e

theorem mapM {f : α → Except ε γ} {g : β → Except ε δ} {l : List α} {l' : List β}
    (h : List.Forall₂ (fun a b => Alike S (f a) (g b)) l l') :
    Alike (List.Forall₂ S) (l.mapM f) (l'.mapM g) := by
  induction h with
  | nil => exact .ok .nil
  | cons hab _ ih =>
    rw [List.mapM_cons, List.mapM_cons]
    exact hab.bind fun _ _ hc => ih.bind fun _ _ hcs => .ok (.cons hc hcs)

/-- A loop over related lists keeps what its step keeps. -/
theorem foldlM {f : γ → α → Except ε γ} {g : δ → β → Except ε δ} {l : List α} {l' : List β}
    (h : List.Forall₂ R l l')
    (hfg : ∀ c d, S c d → ∀ a b, R a b → Alike S (f c a) (g d b)) {c : γ} {d : δ} (hcd : S c d) :
    Alike S (l.foldlM f c) (l'.foldlM g d) := by
  induction h generalizing c d with
  | nil => exact .ok hcd
  | cons hab _ ih =>
    rw [List.foldlM_cons, List.foldlM_cons]
    exact (hfg c d hcd _ _ hab).bind fun _ _ hcd => ih hcd

/-- A read of the store as part of a question. -/
theorem lift {x : StoreM α} {y : StoreM β} (h : Alike R x y) :
    Alike R (liftM x : LookupM α) (liftM y : LookupM β) := by
  cases h with
  | ok h => exact .ok h
  | error e => exact .error _

end Alike

theorem filterMap_eq_map {α β : Type} (f : α → Option β) (l : List α) :
    l.filterMap f = (l.map f).filterMap id := by
  rw [List.filterMap_map]
  rfl

/-- One computation for each element of related lists. -/
theorem mapM_congr {ε α β γ : Type} {R : α → β → Prop} {f : α → Except ε γ} {g : β → Except ε γ}
    {l : List α} {l' : List β} (h : List.Forall₂ R l l') (hfg : ∀ a b, R a b → f a = g b) :
    l.mapM f = l'.mapM g := by
  induction h with
  | nil => rfl
  | cons hab _ ih => rw [List.mapM_cons, List.mapM_cons, hfg _ _ hab, ih]

theorem same_of_forall₂ {α : Type} {P : α → Prop} {l l' : List α} (h : List.Forall₂ (Same P) l l') :
    Same (fun l => ∀ a ∈ l, P a) l l' := by
  induction h with
  | nil => exact ⟨rfl, by simp⟩
  | cons ha _ ih =>
    obtain ⟨rfl, ha⟩ := ha
    obtain ⟨rfl, hl⟩ := ih
    exact ⟨rfl, List.forall_mem_cons.mpr ⟨ha, hl⟩⟩

theorem forall₂_same_self {α : Type} {P : α → Prop} {l : List α} (h : ∀ a ∈ l, P a) :
    List.Forall₂ (Same P) l l :=
  List.forall₂_same.mpr fun a ha => ⟨rfl, h a ha⟩

/-- One computation for each element, twice. -/
theorem alike_mapM_same {ε α β : Type} {P : β → Prop} {f g : α → Except ε β} {l : List α}
    (h : ∀ a ∈ l, Alike (Same P) (f a) (g a)) :
    Alike (Same fun bs => ∀ b ∈ bs, P b) (l.mapM f) (l.mapM g) :=
  (Alike.mapM (List.forall₂_same.mpr h)).mono fun _ _ => same_of_forall₂

namespace Store

variable {s : Store} {c : LinkChoice} {n : String} {d : Symbol} {link link' : Option Int}

/-! ## Reads -/

theorem symbolsNamed_alike (h : s.Sound) (n : String) :
    Alike (Same fun ds => ∀ d ∈ ds, s.Lists d) (s.symbolsNamed n) ((s.cut c).symbolsNamed n) := by
  refine .same fun ds hds => ?_
  rw [symbolsNamed_eq h] at hds
  cases hds
  exact fun d hd => lists_of_mem_listed h.keyed hd

theorem symbolsInFile_alike (h : s.Sound) (path : String) :
    Alike (Same fun ds => ∀ d ∈ ds, s.Lists d) (s.symbolsInFile path)
      ((s.cut c).symbolsInFile path) := by
  refine .same fun ds hds => ?_
  rw [symbolsInFile, decodeByPath_eq h] at hds
  cases hds
  exact fun d hd => lists_of_mem_listed h.keyed hd

/-- A symbol with an id is one of the store. -/
theorem lists_of_symbol? (h : s.Sound) {i : Int} (hi : s.symbol? i = .ok (some d)) : s.Lists d := by
  unfold symbol? at hi
  cases hfind : s.sitedSymbols.find? (·.2.id == i) with
  | none =>
    rw [hfind] at hi
    cases hi
  | some x =>
    obtain ⟨f, r⟩ := x
    obtain ⟨hf, hr, he⟩ := (mem_sitedSymbols h.keyed).mp (List.mem_of_find?_eq_some hfind)
    rw [hfind, Option.mapM_some] at hi
    simp only [SymbolRow.decode_eq (h.flawless.symbols r hr)] at hi
    cases hi
    exact ⟨r, hr, rfl, rfl⟩

theorem symbol?_alike (h : s.Sound) (i : Int) :
    Alike (Same fun o => ∀ d ∈ o, s.Lists d) (s.symbol? i) ((s.cut c).symbol? i) :=
  .same fun _ ho _ hd => lists_of_symbol? h (ho.trans (congrArg _ hd))

theorem edgesFrom_alike (h : s.Sound) (hc : c.Definite s) (hd : s.Lists d) :
    Alike (List.Forall₂ s.SameEdge) (s.relationshipsFrom d.name (some d.id))
      ((s.cut c).relationshipsFrom d.name (some d.id)) := by
  rw [relationshipsFrom_eq h.flawless, relationshipsFrom_eq (flawless_cut h.flawless c)]
  exact .ok (forall₂_edgeList
    (fun r hr => linkMatches_cut h (h.linked.sources r hr) (hc.sources r hr) hd)
    fun r hr _ => sameEdge_cutEdge h hc hr)

theorem edgesTo_alike (h : s.Sound) (hc : c.Definite s) (hd : s.Lists d) :
    Alike (List.Forall₂ s.SameEdge) (s.relationshipsTo d.name (some d.id))
      ((s.cut c).relationshipsTo d.name (some d.id)) := by
  rw [relationshipsTo_eq h.flawless, relationshipsTo_eq (flawless_cut h.flawless c)]
  exact .ok (forall₂_edgeList
    (fun r hr => linkMatches_cut h (h.linked.targets r hr) (hc.targets r hr) hd)
    fun r hr _ => sameEdge_cutEdge h hc hr)

/-! ## Graphs -/

end Store

namespace Walk

variable {s : Store} {c : LinkChoice} {n : String} {d : Symbol} {link link' : Option Int} {w : Walk}

/-- The symbols that were reached are symbols of the store. -/
def Sited (s : Store) (w : Walk) : Prop := ∀ d ∈ w.reached, s.Lists d

theorem Sited.warn (h : w.Sited s) (n : String) (ds : List Symbol) : (w.warn n ds).Sited s := by
  unfold Walk.warn
  split
  · exact h
  · exact h

theorem Sited.addEdge (h : w.Sited s) (e : GraphEdge) : (w.addEdge e).Sited s := by
  unfold Walk.addEdge
  split
  · exact h
  · exact h

theorem Sited.reach (h : w.Sited s) (hd : s.Lists d) (depth : Nat) : (w.reach depth d).Sited s := by
  unfold Walk.reach
  split
  · exact h
  · exact List.forall_mem_append.mpr ⟨h, List.forall_mem_singleton.mpr hd⟩

/-- Both ways to read a link lead to the same symbol, and neither warns. -/
theorem resolve_alike (h : s.Sound) (hend : s.SameEnd n link link') (hw : w.Sited s) :
    Alike (Same fun x => (∀ d ∈ x.1, s.Lists d) ∧ x.2.Sited s) (resolve s w n link)
      (resolve (s.cut c) w n link') := by
  cases hend with
  | same link =>
    cases link with
    | some i =>
      refine (Store.symbol?_alike h i).bind ?_
      rintro o _ ⟨rfl, ho⟩
      exact .ok ⟨rfl, ho, hw⟩
    | none =>
      refine (Store.symbolsNamed_alike h n).bind ?_
      rintro ds _ ⟨rfl, hds⟩
      exact .ok ⟨rfl, fun d hd => hds d (List.mem_of_mem_head? hd), hw.warn n ds⟩
  | @cut i d hi hn =>
    have hname : (s.cut c).symbolsNamed n = .ok [d] := hn
    rw [resolve, resolve, hi, hname]
    refine .ok ⟨rfl, fun e he => ?_, hw⟩
    rw [← Option.some.inj he]
    exact Store.lists_of_symbol? h hi

theorem followTarget_alike (h : s.Sound) {e e' : Relationship} (he : s.SameEdge e e')
    (hw : w.Sited s) (depth : Nat) :
    Alike (Same (Sited s)) (followTarget s depth d w e) (followTarget (s.cut c) depth d w e') := by
  unfold followTarget
  rw [he.edge]
  refine (resolve_alike h he.target hw).bind ?_
  rintro ⟨o, w'⟩ _ ⟨rfl, ho, hw'⟩
  cases o with
  | none => exact .ok ⟨rfl, hw'⟩
  | some found => exact .ok ⟨rfl, (hw'.addEdge _).reach (ho found rfl) depth⟩

theorem followSource_alike (h : s.Sound) {e e' : Relationship} (he : s.SameEdge e e')
    (hw : w.Sited s) (depth : Nat) :
    Alike (Same (Sited s)) (followSource s depth d w e) (followSource (s.cut c) depth d w e') := by
  unfold followSource
  rw [he.edge]
  refine (resolve_alike h he.source hw).bind ?_
  rintro ⟨o, w'⟩ _ ⟨rfl, ho, hw'⟩
  cases o with
  | none => exact .ok ⟨rfl, hw'⟩
  | some found => exact .ok ⟨rfl, (hw'.addEdge _).reach (ho found rfl) depth⟩

/-- All edges at a symbol of the store are followed to the same symbols. -/
theorem expand_alike (h : s.Sound) (hc : c.Definite s) (hd : s.Lists d) (hw : w.Sited s)
    (depth : Nat) : Alike (Same (Sited s)) (expand s depth w d) (expand (s.cut c) depth w d) := by
  refine (Store.edgesFrom_alike h hc hd).bind fun es es' hes => ?_
  refine (Alike.foldlM (S := Same (Sited s)) hes ?_ ⟨rfl, hw⟩).bind ?_
  · rintro w _ ⟨rfl, hw⟩ e e' he
    exact followTarget_alike h he hw depth
  rintro w _ ⟨rfl, hw⟩
  refine (Store.edgesTo_alike h hc hd).bind fun es es' hes => ?_
  refine Alike.foldlM (S := Same (Sited s)) hes ?_ ⟨rfl, hw⟩
  rintro w _ ⟨rfl, hw⟩ e e' he
  exact followSource_alike h he hw depth

/-- **Walks from symbols of the store go the same way.** -/
theorem levels_alike (h : s.Sound) (hc : c.Definite s) (left depth : Nat) {frontier : List Symbol}
    (hfrontier : ∀ d ∈ frontier, s.Lists d) (w : Walk) :
    Alike Eq (levels s left depth frontier w) (levels (s.cut c) left depth frontier w) := by
  induction left generalizing depth frontier w with
  | zero => exact .ok rfl
  | succ left ih =>
    unfold levels
    have hstart : ({ w with reached := [] } : Walk).Sited s := List.forall_mem_nil _
    refine (Alike.foldlM (S := Same (Sited s)) (forall₂_same_self hfrontier) ?_
      ⟨rfl, hstart⟩).bind ?_
    · rintro w _ ⟨rfl, hw⟩ d _ ⟨rfl, hd⟩
      exact expand_alike h hc hd hw depth
    -- what a level reaches are symbols of the store again, so the next one starts alike
    rintro w _ ⟨rfl, hw⟩
    split
    · exact .ok rfl
    · exact ih (depth + 1) hw w

end Walk

namespace Store

variable {s : Store} {c : LinkChoice} {n : String} {d : Symbol} {link link' : Option Int}

theorem dependencyGraph_cut (h : s.Sound) (hc : c.Definite s) (n : String) (depth : Nat) :
    (s.cut c).dependencyGraph n depth = s.dependencyGraph n depth := by
  refine (Alike.eq ?_).symm
  refine (symbolsNamed_alike h n).lift.bind ?_
  rintro ds _ ⟨rfl, hds⟩
  cases ds with
  | nil => exact .error _
  | cons root others =>
    refine (Walk.levels_alike h hc depth 1 ?_ _).lift.bind ?_
    · exact List.forall_mem_singleton.mpr (hds root List.mem_cons_self)
    · rintro w _ rfl
      exact .ok rfl

/-! ## Dependencies and calls -/

theorem linkEnd?_cut (h : s.SameEnd n link link') :
    (s.cut c).linkEnd? n link' = s.linkEnd? n link := by
  cases h with
  | same link => rfl
  | @cut i d hi hn =>
    have hname : (s.cut c).symbolsNamed n = .ok [d] := hn
    rw [linkEnd?, linkEnd?, hi, hname]
    rfl

theorem dependenciesOf_cut (h : s.Sound) (hc : c.Definite s) (n : String) :
    (s.cut c).dependenciesOf n = s.dependenciesOf n := by
  refine (Alike.eq ?_).symm
  refine (symbolsNamed_alike h n).bind ?_
  rintro ds _ ⟨rfl, hds⟩
  refine (Alike.of_eq (mapM_congr (forall₂_same_self hds) ?_)).bind ?_
  · rintro d _ ⟨rfl, hd⟩
    refine ((edgesFrom_alike h hc hd).bind fun es es' hes => .of_eq ?_).eq
    refine mapM_congr hes fun e e' he => ?_
    rw [he.edge, linkEnd?_cut he.target]
  · rintro found _ rfl
    exact .ok rfl

theorem edgeHit_cut (h : s.SameEnd n link link') {e e' : Relationship} (he : s.SameEdge e e') :
    (s.cut c).edgeHit e' n link' = s.edgeHit e n link := by
  unfold edgeHit
  rw [he.edge, he.filePath]
  cases h with
  | same link => rfl
  | @cut i d hi hn =>
    have hname : (s.cut c).symbolsNamed n = .ok [d] := hn
    simp only [hi, hname]
    rfl

/-- **Calls are found alike,** from either end. -/
theorem callHits_cut (h : s.Sound) {edgesAt edgesAt' : Symbol → StoreM (List Relationship)}
    (hedges : ∀ d, s.Lists d → Alike (List.Forall₂ s.SameEdge) (edgesAt d) (edgesAt' d))
    {hit hit' : Relationship → StoreM Hit} (hhit : ∀ e e', s.SameEdge e e' → hit e = hit' e')
    (n : String) : (s.cut c).callHits n edgesAt' hit' = s.callHits n edgesAt hit := by
  refine (Alike.eq ?_).symm
  refine (symbolsNamed_alike h n).bind ?_
  rintro ds _ ⟨rfl, hds⟩
  refine (Alike.foldlM (S := Eq) (forall₂_same_self hds) ?_ rfl).bind ?_
  · rintro ⟨seen, hits⟩ _ rfl d _ ⟨rfl, hd⟩
    refine (hedges d hd).bind fun es es' hes => ?_
    -- the same calls are kept, because kinds and ids are those of the edges
    have hcalls := List.rel_filter (p := fun e => e.kind == .calls && !seen.contains e.id)
      (q := fun e => e.kind == .calls && !seen.contains e.id)
      (fun e e' (he : s.SameEdge e e') => by simp only [he.edge, he.id]) hes
    refine (Alike.of_eq (mapM_congr hcalls hhit)).bind ?_
    rintro found _ rfl
    rw [map_eq_of_forall₂ hcalls fun e e' _ he => he.id]
    exact .ok rfl
  · rintro ⟨seen, hits⟩ _ rfl
    exact .ok rfl

theorem callersOf_cut (h : s.Sound) (hc : c.Definite s) (n : String) :
    (s.cut c).callersOf n = s.callersOf n := by
  refine callHits_cut h (fun d hd => edgesTo_alike h hc hd) (fun e e' he => ?_) n
  rw [he.edge, edgeHit_cut he.source he]

theorem calleesOf_cut (h : s.Sound) (hc : c.Definite s) (n : String) :
    (s.cut c).calleesOf n = s.calleesOf n := by
  refine callHits_cut h (fun d hd => edgesFrom_alike h hc hd) (fun e e' he => ?_) n
  rw [he.edge, edgeHit_cut he.target he]

/-! ## Uses and dependents -/

theorem referencesToAll_alike (h : s.Sound) (hc : c.Definite s) {ds : List Symbol}
    (hds : ∀ d ∈ ds, s.Lists d) :
    Alike SameUses (s.referencesToAll ds) ((s.cut c).referencesToAll ds) := by
  rw [referencesToAll_eq h.flawless, referencesToAll_eq (flawless_cut h.flawless c)]
  exact .ok (usesOfAll_same h hc hds)

/-- A use as an answer, named after the symbol around it. -/
def useHit (s : Store) (u : Reference) : StoreM Hit := do
  let source ← match u.sourceId with
    | some id => s.symbol? id
    | none => pure none
  pure
    { symbolId := source.map (·.id)
      name := (source.map (·.name)).getD "<top level>"
      kind := .use u.kind
      file := u.filePath
      line := u.line }

theorem usesOf_eq (s : Store) (n : String) :
    s.usesOf n = (s.symbolsNamed n >>= s.referencesToAll) >>= fun us => us.mapM s.useHit := by
  rw [bind_assoc]
  rfl

/-- **The same symbols are around the uses of symbols,** and they are symbols of the store. -/
theorem dependentsOf_alike (h : s.Sound) (hc : c.Definite s) {ds : List Symbol}
    (hds : ∀ d ∈ ds, s.Lists d) :
    Alike (Same fun around => ∀ d ∈ around, s.Lists d) (s.dependentsOf ds)
      ((s.cut c).dependentsOf ds) := by
  refine (referencesToAll_alike h hc hds).bind fun us us' hus => ?_
  have hpaths : us.map (·.filePath) = us'.map (·.filePath) :=
    hus.map_eq fun _ _ hpath _ _ => hpath
  rw [hpaths]
  -- file by file, what is around a use depends on its line
  refine (alike_mapM_same (P := fun around => ∀ d ∈ around, s.Lists d) fun file _ => ?_).bind ?_
  · refine (symbolsInFile_alike h file).bind ?_
    rintro symbols _ ⟨rfl, hsymbols⟩
    refine .ok ⟨?_, fun d hd => ?_⟩
    · have hlines := (hus.filter (p := (·.filePath == file)) fun _ => rfl).map_eq
        (f := fun u => enclosing? symbols u.line) fun u v _ hline _ => by rw [hline]
      rw [filterMap_eq_map, hlines, ← filterMap_eq_map]
    · obtain ⟨u, -, hu⟩ := List.mem_filterMap.mp hd
      exact hsymbols d (List.mem_of_find?_eq_some hu)
  · rintro found _ ⟨rfl, hfound⟩
    refine .ok ⟨rfl, fun d hd => ?_⟩
    obtain ⟨around, haround, hd⟩ :=
      List.mem_flatten.mp (List.mem_of_mem_filter (mem_of_mem_distinctOn _ hd))
    exact hfound around haround d hd

theorem dependentsNamed_cut (h : s.Sound) (hc : c.Definite s) (n : String) :
    ((s.cut c).symbolsNamed n >>= (s.cut c).dependentsOf) =
      (s.symbolsNamed n >>= s.dependentsOf) := by
  refine (Alike.eq ?_).symm
  refine (symbolsNamed_alike h n).bind ?_
  rintro ds _ ⟨rfl, hds⟩
  exact (dependentsOf_alike h hc hds).mono fun _ _ => And.left

end Store

end CodeAtlas
