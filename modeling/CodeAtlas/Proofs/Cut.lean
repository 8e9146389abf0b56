import CodeAtlas.Proofs.Reads

/-!
# Links that are cut

A link whose name has one definition says no more than the name does.

* `Reordered`: lists that differ in the order of neighbours with the same key;
  `Reordered.of_sorted`: two sorted lists of the same elements are such.
* `LinkChoice`, `Store.cut`: some links, and the store without them; `LinkChoice.Definite`: each of
  them has a name with exactly one definition.
* `linkMatches_cut`: at a symbol of the store, a link matches alike whether or not it is cut.
* `forall₂_edgeList`: the same edges are read; `sameEnd_cut`: they end at the same symbols.
* **`usesOfAll_same`**: the uses of symbols are the same up to the order of those at one place.
-/

namespace CodeAtlas

/-! ## Lists in another order -/

/-- **Lists that differ in the order of neighbours with the same key.** -/
inductive Reordered {α κ : Type} (key : α → κ) : List α → List α → Prop where
  | refl (l : List α) : Reordered key l l
  | cons (a : α) {l l' : List α} (h : Reordered key l l') : Reordered key (a :: l) (a :: l')
  | swap {a b : α} (h : key a = key b) (l : List α) : Reordered key (a :: b :: l) (b :: a :: l)
  | trans {l l' l'' : List α} (h : Reordered key l l') (h' : Reordered key l' l'') :
      Reordered key l l''

namespace Reordered

variable {α β κ κ' : Type} {key : α → κ} {l l' m m' : List α}

theorem perm (h : Reordered key l l') : l.Perm l' := by
  induction h with
  | refl l => exact List.Perm.refl l
  | cons a _ ih => exact ih.cons a
  | swap _ l => exact List.Perm.swap _ _ l
  | trans _ _ ih ih' => exact ih.trans ih'

/-- The same key stands at each position. -/
theorem map_key (h : Reordered key l l') : l.map key = l'.map key := by
  induction h with
  | refl l => rfl
  | cons a _ ih => rw [List.map_cons, List.map_cons, ih]
  | swap he l => rw [List.map_cons, List.map_cons, List.map_cons, List.map_cons, he]
  | trans _ _ ih ih' => exact ih.trans ih'

theorem map {key' : β → κ'} {f : α → β} (hf : ∀ a b, key a = key b → key' (f a) = key' (f b))
    (h : Reordered key l l') : Reordered key' (l.map f) (l'.map f) := by
  induction h with
  | refl l => exact .refl _
  | cons a _ ih => exact ih.cons (f a)
  | swap he l => exact .swap (hf _ _ he) (l.map f)
  | trans _ _ ih ih' => exact ih.trans ih'

/-- A key that says less is the same in the same places. -/
theorem mono {key' : α → κ'} (hkey : ∀ a b, key a = key b → key' a = key' b)
    (h : Reordered key l l') : Reordered key' l l' := by
  have := h.map (f := id) hkey
  rwa [List.map_id, List.map_id] at this

theorem filter (p : α → Bool) (h : Reordered key l l') :
    Reordered key (l.filter p) (l'.filter p) := by
  induction h with
  | refl l => exact .refl _
  | cons a _ ih =>
    rw [List.filter_cons, List.filter_cons]
    split
    · exact ih.cons a
    · exact ih
  | @swap a b he l =>
    simp only [List.filter_cons]
    by_cases ha : p a = true <;> by_cases hb : p b = true
    · simpa [ha, hb] using .swap he _
    · simpa [ha, hb] using .refl _
    · simpa [ha, hb] using .refl _
    · simpa [ha, hb] using .refl _
  | trans _ _ ih ih' => exact ih.trans ih'

theorem append (h : Reordered key l l') (h' : Reordered key m m') :
    Reordered key (l ++ m) (l' ++ m') := by
  have hleft : ∀ {l l' : List α}, Reordered key l l' → Reordered key (l ++ m) (l' ++ m) := by
    intro l l' h
    induction h with
    | refl l => exact .refl _
    | cons a _ ih => exact ih.cons a
    | swap he l => exact .swap he (l ++ m)
    | trans _ _ ih ih' => exact ih.trans ih'
  have hright : ∀ l : List α, Reordered key (l ++ m) (l ++ m') := by
    intro l
    induction l with
    | nil => exact h'
    | cons a l ih => exact ih.cons a
  exact (hleft h).trans (hright l')

/-- An element passes others with its key. -/
theorem move {a : α} (h : ∀ b ∈ l, key a = key b) (m : List α) :
    Reordered key (a :: (l ++ m)) (l ++ a :: m) := by
  induction l with
  | nil => exact .refl _
  | cons b l ih =>
    exact (Reordered.swap (h b List.mem_cons_self) (l ++ m)).trans
      ((ih fun c hc => h c (List.mem_cons_of_mem _ hc)).cons b)

/-- **Two sorted lists of the same elements differ in the order of equal ones.** -/
theorem of_sorted {le : α → α → Prop} (hle : ∀ a b, le a b → le b a → key a = key b)
    (h : l.Pairwise le) (h' : l'.Pairwise le) (hp : l.Perm l') : Reordered key l l' := by
  induction l generalizing l' with
  | nil => rw [List.nil_perm.mp hp]; exact .refl _
  | cons a l ih =>
    -- what stands before `a` in the second list comes both before and after it
    obtain ⟨x, y, rfl⟩ := List.append_of_mem (hp.mem_iff.mp List.mem_cons_self)
    have hrest : l.Perm (x ++ y) := (List.perm_cons a).mp (hp.trans List.perm_middle)
    obtain ⟨ha, hl⟩ := List.pairwise_cons.mp h
    obtain ⟨hx, hy, hxy⟩ := List.pairwise_append.mp h'
    have hkey : ∀ b ∈ x, key a = key b := fun b hb =>
      hle a b (ha b (hrest.mem_iff.mpr (List.mem_append_left _ hb))) (hxy b hb a List.mem_cons_self)
    have hsorted : (x ++ y).Pairwise le := List.pairwise_append.mpr
      ⟨hx, (List.pairwise_cons.mp hy).2, fun b hb c hc => hxy b hb c (List.mem_cons_of_mem _ hc)⟩
    exact ((ih hl hsorted hrest).cons a).trans (move hkey y)

end Reordered

section Distinct

variable {α β κ : Type} [BEq β] [LawfulBEq β] (key : α → β)

theorem distinctOn_append (l m : List α) : distinctOn key (l ++ m) =
    distinctOn key l ++ (distinctOn key m).filter fun x => !l.any (key · == key x) := by
  induction l with
  | nil => simp [distinctOn]
  | cons a l ih =>
    rw [List.cons_append, distinctOn_cons, distinctOn_cons, ih, List.filter_append,
      List.filter_filter, List.cons_append]
    congr 2
    refine List.filter_congr fun x _ => ?_
    rw [List.any_cons, Bool.not_or]

theorem distinctOn_of_nodup {l : List α} (h : (l.map key).Nodup) : distinctOn key l = l := by
  induction l with
  | nil => rfl
  | cons a l ih =>
    obtain ⟨ha, hl⟩ := List.nodup_cons.mp h
    rw [distinctOn_cons, ih hl, List.filter_eq_self.mpr]
    intro b hb
    have hne : key a ≠ key b := fun he => ha (he ▸ List.mem_map_of_mem hb)
    simpa using hne

theorem distinctOn_map {γ : Type} {key' : γ → β} {f : α → γ} (hf : ∀ a, key' (f a) = key a)
    (l : List α) : distinctOn key' (l.map f) = (distinctOn key l).map f := by
  induction l with
  | nil => rfl
  | cons a l ih =>
    rw [List.map_cons, distinctOn_cons, distinctOn_cons, ih, List.map_cons, List.filter_map]
    congr 2
    refine List.filter_congr fun b _ => ?_
    rw [Function.comp, hf, hf]

/-- Lists that are put together from reordered ones are reordered. -/
theorem reordered_distinctOn {place : α → κ} {ls ls' : List (List α)}
    (h : List.Forall₂ (fun l l' => Reordered place l l' ∧ (l.map key).Nodup) ls ls') :
    Reordered place (distinctOn key ls.flatten) (distinctOn key ls'.flatten) := by
  induction h with
  | nil => exact .refl _
  | @cons l l' ls ls' hl _ ih =>
    obtain ⟨hr, hnd⟩ := hl
    have hnd' : (l'.map key).Nodup := (hr.perm.map key).nodup_iff.mp hnd
    have hany : (fun x => !l'.any (key · == key x)) = fun x => !l.any (key · == key x) := by
      funext x
      rw [hr.perm.any_eq]
    rw [List.flatten_cons, List.flatten_cons, distinctOn_append, distinctOn_append,
      distinctOn_of_nodup key hnd, distinctOn_of_nodup key hnd', hany]
    exact hr.append (ih.filter _)

end Distinct

/-- A filter does not look at what a map changes. -/
theorem filter_map_eq {α β : Type} {p : β → Bool} {q : α → Bool} {f : α → β} {l : List α}
    (h : ∀ a ∈ l, p (f a) = q a) : (l.map f).filter p = (l.filter q).map f := by
  rw [List.filter_map]
  exact congrArg _ (List.filter_congr h)

/-- Sorting does not look at what a map changes. -/
theorem sortBy_map {α β : Type} {le : α → α → Bool} {le' : β → β → Bool} {f : α → β}
    (hf : ∀ a b, le' (f a) (f b) = le a b) (l : List α) :
    sortBy le' (l.map f) = (sortBy le l).map f := by
  have hinsert : ∀ (a : α) (l : List α), insertBy le' (f a) (l.map f) = (insertBy le a l).map f := by
    intro a l
    induction l with
    | nil => rfl
    | cons b l ih =>
      rw [List.map_cons, insertBy, insertBy, hf, ih]
      split <;> rfl
  induction l with
  | nil => rfl
  | cons a l ih => rw [List.map_cons, sortBy, sortBy, ih, hinsert]

/-! ## The places of uses -/

/-- Where a use stands. -/
def Reference.place (u : Reference) : String × Nat × Nat := (u.filePath, u.line, u.column)

theorem Reference.place_eq_iff {u v : Reference} : u.place = v.place ↔
    u.filePath = v.filePath ∧ u.line = v.line ∧ u.column = v.column := by
  simp only [place, Prod.mk.injEq]

/-- A use without its link. -/
def Reference.unlinked (u : Reference) : Reference := { u with targetId := none }

/-- The order of uses by path, line and column, as a comparison. -/
def Reference.compare : Reference → Reference → Ordering :=
  compareLex (compareOn (·.filePath))
    (compareLex (compareOn fun u => signed u.line) (compareOn fun u => signed u.column))

theorem signed_injective : Function.Injective signed := by
  intro m n h
  unfold signed at h
  split_ifs at h with hm hn hn
  · omega
  · simp only [Bool.and_eq_true, decide_eq_true_eq] at hm
    omega
  · simp only [Bool.and_eq_true, decide_eq_true_eq] at hn
    omega
  · omega

/-- Uses that come in no order stand at the same place. -/
theorem Reference.place_eq_of_compare {u v : Reference} (h : u.compare v = .eq) :
    u.place = v.place := by
  simp only [compare, compareLex, compareOn, Ordering.then_eq_eq, Std.compare_eq_iff_eq] at h
  obtain ⟨hpath, hline, hcolumn⟩ := h
  exact place_eq_iff.mpr ⟨hpath, signed_injective hline, signed_injective hcolumn⟩

instance : Std.TransCmp Reference.compare := by
  unfold Reference.compare
  infer_instance

/-- Uses that are the same but for their links and for the order of those at one place. -/
def SameUses (us us' : List Reference) : Prop :=
  Reordered Reference.place (us.map (·.unlinked)) (us'.map (·.unlinked))

namespace SameUses

variable {us us' : List Reference} {p : Reference → Bool}

/-- What depends only on the places of uses stands in the same order. -/
theorem map_eq {γ : Type} {f : Reference → γ} (h : SameUses us us')
    (hf : ∀ u v : Reference, u.filePath = v.filePath → u.line = v.line → u.column = v.column →
      f u = f v) : us.map f = us'.map f := by
  have hplace : ∀ u v : Reference, u.place = v.place → f u = f v := by
    intro u v huv
    obtain ⟨hpath, hline, hcolumn⟩ := Reference.place_eq_iff.mp huv
    exact hf u v hpath hline hcolumn
  have hmap := (Reordered.mono hplace h).map_key
  rw [List.map_map, List.map_map] at hmap
  have hunlinked : f ∘ Reference.unlinked = f := funext fun u => hplace _ _ rfl
  rwa [hunlinked] at hmap

theorem length_eq (h : SameUses us us') : us.length = us'.length := by
  simpa using h.perm.length_eq

theorem isEmpty_eq (h : SameUses us us') : us.isEmpty = us'.isEmpty := by
  rw [Bool.eq_iff_iff, List.isEmpty_iff_length_eq_zero, List.isEmpty_iff_length_eq_zero, h.length_eq]

theorem filter (h : SameUses us us') (hp : ∀ u, p u.unlinked = p u) :
    SameUses (us.filter p) (us'.filter p) := by
  have hmap : ∀ vs : List Reference,
      (vs.filter p).map (·.unlinked) = (vs.map (·.unlinked)).filter p := fun vs =>
    (filter_map_eq fun u _ => hp u).symm
  rw [SameUses, hmap, hmap]
  exact Reordered.filter p h

theorem countP_eq (h : SameUses us us') (hp : ∀ u, p u.unlinked = p u) :
    us.countP p = us'.countP p := by
  rw [List.countP_eq_length_filter, (h.filter hp).length_eq, List.countP_eq_length_filter]

theorem any_eq (h : SameUses us us') (hp : ∀ u, p u.unlinked = p u) : us.any p = us'.any p := by
  rw [Bool.eq_iff_iff, List.any_eq_true, List.any_eq_true, ← List.countP_pos_iff,
    ← List.countP_pos_iff, h.countP_eq hp]

end SameUses

/-! ## Cutting links -/

/-- Some of the links of a store: of uses, of the targets of edges, and of their sources. -/
structure LinkChoice where
  uses : ReferenceRow → Bool
  targets : RelationshipRow → Bool
  sources : RelationshipRow → Bool

namespace LinkChoice

/-- A use, without its link where it is chosen. -/
def cutUse (c : LinkChoice) (r : ReferenceRow) : ReferenceRow :=
  { r with targetId := if c.uses r then none else r.targetId }

/-- An edge, without those of its links that are chosen. -/
def cutEdge (c : LinkChoice) (r : RelationshipRow) : RelationshipRow :=
  { r with
    sourceId := if c.sources r then none else r.sourceId
    targetId := if c.targets r then none else r.targetId }

end LinkChoice

namespace Store

/-- The store without some links. -/
def cut (s : Store) (c : LinkChoice) : Store :=
  { s with
    references := s.references.map c.cutUse
    relationships := s.relationships.map c.cutEdge }

/-- A name has exactly one definition. -/
def DefinedOnce (s : Store) (n : String) : Prop := (s.symbols.filter (·.name == n)).length = 1

instance (s : Store) (n : String) : Decidable (s.DefinedOnce n) :=
  inferInstanceAs (Decidable (_ = _))

end Store

/-- Every link of a choice has a name with exactly one definition. -/
structure LinkChoice.Definite (c : LinkChoice) (s : Store) : Prop where
  uses : ∀ r ∈ s.references, c.uses r = true → s.DefinedOnce r.target
  targets : ∀ r ∈ s.relationships, c.targets r = true → s.DefinedOnce r.target
  sources : ∀ r ∈ s.relationships, c.sources r = true → s.DefinedOnce r.source

namespace Store

variable {s : Store} {c : LinkChoice} {n : String} {d : Symbol}

/-- A symbol that the store holds under its id and its name. -/
def Lists (s : Store) (d : Symbol) : Prop := ∃ r ∈ s.symbols, r.id = d.id ∧ r.name = d.name

theorem lists_of_mem_listed (h : s.Keyed) {keep : FileRow × SymbolRow → Bool}
    (hd : d ∈ s.listed keep) : s.Lists d := by
  obtain ⟨f, -, r, hr, -, -, rfl⟩ := (mem_listed h).mp hd
  exact ⟨r, hr, rfl, rfl⟩

/-- No read fails after a cut either. -/
theorem flawless_cut (h : s.Flawless) (c : LinkChoice) : (s.cut c).Flawless :=
  { h with
    relationships := List.forall_mem_map.mpr h.relationships
    references := List.forall_mem_map.mpr h.references }

/-- A name with one definition stands for one row. -/
theorem DefinedOnce.eq {x y : SymbolRow} (h : s.DefinedOnce n) (hx : x ∈ s.symbols) (hxn : x.name = n)
    (hy : y ∈ s.symbols) (hyn : y.name = n) : x = y := by
  obtain ⟨z, hz⟩ := List.length_eq_one_iff.mp h
  have hmem : ∀ w ∈ s.symbols, w.name = n → w = z := fun w hw hwn =>
    List.mem_singleton.mp (hz ▸ List.mem_filter.mpr ⟨hw, by simpa using hwn⟩)
  rw [hmem x hx hxn, hmem y hy hyn]

/-- Symbols with a name that has one definition are that definition. -/
theorem DefinedOnce.eq_singleton (h : s.Sound) (hone : s.DefinedOnce n) {x : SymbolRow} {path : String}
    (hx : x ∈ s.symbols) (hxn : x.name = n) {keep : FileRow × SymbolRow → Bool} {l : List Symbol}
    (hl : l.Sublist (s.listed keep)) (hname : ∀ d ∈ l, d.name = n) (hmem : x.sited path ∈ l) :
    l = [x.sited path] := by
  have hnd : (l.map (·.id)).Nodup := (listed_ids_nodup h keep).sublist (hl.map _)
  refine List.perm_singleton.mp ((List.perm_ext_iff_of_nodup hnd.of_map
    (List.nodup_singleton _)).mpr fun d => ?_)
  rw [List.mem_singleton]
  constructor
  · intro hd
    obtain ⟨f, -, r, hr, -, -, rfl⟩ := (mem_listed h.keyed).mp (hl.subset hd)
    have hrx : r = x := hone.eq hr (hname _ hd) hx hxn
    exact List.inj_on_of_nodup_map hnd hd hmem (by rw [hrx]; rfl)
  · rintro rfl
    exact hmem

/-- **At a symbol of the store, a link matches alike whether or not it is cut.** -/
theorem linkMatches_cut (h : s.Sound) {fileId : Int} {link : Option Int}
    (hreach : s.Reaches fileId n link) {chosen : Bool} (hone : chosen = true → s.DefinedOnce n)
    (hd : s.Lists d) : linkMatches d.name (some d.id) n (if chosen then none else link) =
      linkMatches d.name (some d.id) n link := by
  cases chosen with
  | false => rfl
  | true =>
    cases link with
    | none => rfl
    | some i =>
      obtain ⟨r, hr, hri, hrn⟩ := hd
      obtain ⟨x, hx, rfl, hxn, -⟩ := hreach i rfl
      rw [if_pos rfl, Bool.eq_iff_iff, linkMatches_some, linkMatches_some]
      simp only [reduceCtorEq, false_or, true_and, false_and, or_false, Option.some.injEq]
      constructor
      · intro hn
        rw [(hone rfl).eq hx hxn hr (hrn.trans hn.symm), hri]
      · intro he
        rw [← hxn, h.keyed.symbol_eq hx hr (he.trans hri.symm), hrn]

/-- A link before and after a cut: the symbol that a cut link led to is the only one of its name. -/
inductive SameEnd (s : Store) (n : String) : Option Int → Option Int → Prop where
  | same (link : Option Int) : SameEnd s n link link
  | cut {i : Int} {d : Symbol} (hi : s.symbol? i = .ok (some d)) (hn : s.symbolsNamed n = .ok [d]) :
      SameEnd s n (some i) none

theorem sameEnd_cut (h : s.Sound) {fileId : Int} {link : Option Int}
    (hreach : s.Reaches fileId n link) {chosen : Bool} (hone : chosen = true → s.DefinedOnce n) :
    s.SameEnd n link (if chosen then none else link) := by
  cases chosen with
  | false => exact .same link
  | true =>
    cases link with
    | none => exact .same none
    | some i =>
      obtain ⟨x, hx, rfl, hxn, -⟩ := hreach i rfl
      obtain ⟨f, hf, hfx⟩ := h.owned.symbols x hx
      refine .cut (symbol?_eq h hf hx hfx) ?_
      have hnamed : s.named n = [x.sited f.relativePath] :=
        (hone rfl).eq_singleton h hx hxn (List.Sublist.refl _)
          (fun d hd => name_of_mem_named h.keyed hd)
          ((mem_named h.keyed).mpr ⟨f, hf, x, hx, hfx, hxn, rfl⟩)
      rw [symbolsNamed_eq h, hnamed]

/-! ## Edges -/

/-- An edge and the same edge with some links cut. -/
structure SameEdge (s : Store) (e e' : Relationship) : Prop where
  id : e'.id = e.id
  edge : e'.toEdge = e.toEdge
  filePath : e'.filePath = e.filePath
  source : s.SameEnd e.source e.sourceId e'.sourceId
  target : s.SameEnd e.target e.targetId e'.targetId

theorem sameEdge_cutEdge (h : s.Sound) (hc : c.Definite s) {r : RelationshipRow}
    (hr : r ∈ s.relationships) : s.SameEdge r.toRelationship (c.cutEdge r).toRelationship :=
  ⟨rfl, rfl, rfl, sameEnd_cut h (h.linked.sources r hr) (hc.sources r hr),
    sameEnd_cut h (h.linked.targets r hr) (hc.targets r hr)⟩

/-- The edges that are kept are the same. -/
theorem forall₂_edgeList {R : Relationship → Relationship → Prop} {keep keep' : RelationshipRow → Bool}
    (hkeep : ∀ r ∈ s.relationships, keep' (c.cutEdge r) = keep r)
    (hrel : ∀ r ∈ s.relationships, keep r = true →
      R r.toRelationship (c.cutEdge r).toRelationship) :
    List.Forall₂ R (edgeList (s.relationships.filter keep))
      (edgeList ((s.cut c).relationships.filter keep')) := by
  have hrows : (s.cut c).relationships.filter keep' =
      (s.relationships.filter keep).map c.cutEdge := filter_map_eq hkeep
  have hsort : ∀ rows : List RelationshipRow,
      sortBy (byPathAndLine (·.filePath) (·.line)) (rows.map c.cutEdge) =
        (sortBy (byPathAndLine (·.filePath) (·.line)) rows).map c.cutEdge :=
    sortBy_map fun _ _ => rfl
  rw [hrows, edgeList, edgeList, hsort, List.map_map, List.forall₂_map_left_iff,
    List.forall₂_map_right_iff, List.forall₂_same]
  intro r hr
  obtain ⟨hmem, hk⟩ := List.mem_filter.mp (mem_sortBy.mp hr)
  exact hrel r hmem hk

/-! ## Uses -/

theorem useList_sorted (rows : List ReferenceRow) :
    (useList rows).Pairwise fun u v => (u.compare v).isLE = true := by
  have hcomm : sortBy (fun u v => u.compare v != .gt) (rows.map ReferenceRow.toReference) =
      (sortBy byPlace rows).map ReferenceRow.toReference :=
    sortBy_map (fun _ _ => rfl) rows
  rw [useList, ← hcomm]
  exact sortBy_compare_pairwise _

/-- The uses of a symbol are the same, up to the order of those at one place. -/
theorem matching_same (h : s.Sound) (hc : c.Definite s) (hd : s.Lists d) :
    SameUses (useList (s.matching d.name (some d.id)))
      (useList ((s.cut c).matching d.name (some d.id))) := by
  have hperm : ∀ t : Store, (useList (t.matching d.name (some d.id))).Perm
      ((t.references.filter fun r => linkMatches d.name (some d.id) r.target r.targetId).map
        (·.toReference)) := fun t =>
    ((sortBy_perm _ _).trans (matching_perm t _ _)).map _
  have hrows : (s.cut c).references.filter
      (fun r => linkMatches d.name (some d.id) r.target r.targetId) =
        (s.references.filter fun r => linkMatches d.name (some d.id) r.target r.targetId).map
          c.cutUse :=
    filter_map_eq fun r hr => linkMatches_cut h (h.linked.uses r hr) (hc.uses r hr) hd
  have hsorted : ∀ t : Store, ((useList (t.matching d.name (some d.id))).map (·.unlinked)).Pairwise
      fun u v => (u.compare v).isLE = true := fun t =>
    List.pairwise_map.mpr (useList_sorted _)
  refine Reordered.of_sorted
    (fun u v huv hvu => Reference.place_eq_of_compare (Std.OrientedCmp.isLE_antisymm huv hvu))
    (hsorted s) (hsorted (s.cut c)) ?_
  have hcut := (hperm (s.cut c)).map Reference.unlinked
  rw [hrows, List.map_map, List.map_map] at hcut
  have hself := (hperm s).map Reference.unlinked
  rw [List.map_map] at hself
  exact hself.trans hcut.symm

theorem useList_nodup (h : s.Keyed) (id : Option Int) :
    ((useList (s.matching n id)).map (·.id)).Nodup := by
  have hperm := (((sortBy_perm byPlace _).trans (matching_perm s n id)).map
    ReferenceRow.toReference).map Reference.id
  rw [useList, hperm.nodup_iff, List.map_map]
  exact h.references.nodup.sublist (List.filter_sublist.map _)

/-- **The uses of symbols are the same, up to the order of those at one place.** -/
theorem usesOfAll_same (h : s.Sound) (hc : c.Definite s) {ds : List Symbol}
    (hds : ∀ d ∈ ds, s.Lists d) :
    SameUses (s.usesOfAll ds) ((s.cut c).usesOfAll ds) := by
  have hid : ∀ u : Reference, u.unlinked.id = u.id := fun _ => rfl
  rw [SameUses, usesOfAll, usesOfAll, ← distinctOn_map _ hid, ← distinctOn_map _ hid, List.map_flatten,
    List.map_flatten, List.map_map, List.map_map]
  refine reordered_distinctOn _ ?_
  rw [List.forall₂_map_left_iff, List.forall₂_map_right_iff, List.forall₂_same]
  intro d hd
  refine ⟨matching_same h hc (hds d hd), ?_⟩
  rw [Function.comp, List.map_map]
  exact useList_nodup h.keyed (some d.id)

end Store

end CodeAtlas
