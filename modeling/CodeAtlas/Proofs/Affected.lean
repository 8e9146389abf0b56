import Mathlib.Data.String.Basic
import CodeAtlas.Impact
import CodeAtlas.Proofs.Ball
import CodeAtlas.Proofs.Enclosure
import CodeAtlas.Proofs.Repeat
import CodeAtlas.Proofs.Steps

/-!
# What a change affects

* `Store.FirstAround`: the first symbol around a line in some files, by line and then by id;
  `enclosing?_listed`: the one that is found among the symbols at a path.
* `Store.UseOf`, **`Store.UsedBy`**: a use of a symbol, and the symbol around it. There are two
  readings of where that is looked for: in the file of the use (`ReferenceRow.Within`), or in all files
  at its path, of any project (`ReferenceRow.AtPath`).
* `mem_dependents`, `Level.mem_next`, `dependentLevels_found`: what is found level by level are the
  symbols at a distance, by the second reading.
* **`Reachable.impact_exact`**: the impact of a change is exact by the second reading, and by the first
  one where no path belongs to two projects; `foreign_user`: otherwise it need not be.
-/

namespace CodeAtlas

/-- In a list in order, the first element with a property is the one that no other comes before. -/
theorem find?_eq_some_iff_first {α : Type} {R : α → α → Prop} {p : α → Bool} {l : List α} {a : α}
    (hl : l.Pairwise R) (hasymm : ∀ a b, R a b → ¬ R b a) :
    l.find? p = some a ↔ a ∈ l ∧ p a = true ∧ ∀ b ∈ l, p b = true → ¬ R b a := by
  induction l with
  | nil => simp
  | cons c l ih =>
    obtain ⟨hc, hl⟩ := List.pairwise_cons.mp hl
    rw [List.find?_cons]
    cases hp : p c with
    | true =>
      refine ⟨fun h => ?_, fun ⟨ha, _, hfirst⟩ => ?_⟩
      · obtain rfl := Option.some.inj h
        refine ⟨List.mem_cons_self, hp, fun b hb _ => ?_⟩
        rcases List.mem_cons.mp hb with rfl | hb
        · exact fun hbb => hasymm b b hbb hbb
        · exact hasymm c b (hc b hb)
      · rcases List.mem_cons.mp ha with rfl | ha
        · rfl
        · exact absurd (hc a ha) (hfirst c List.mem_cons_self hp)
    | false =>
      rw [ih hl]
      refine ⟨fun ⟨ha, hpa, hfirst⟩ => ⟨List.mem_cons_of_mem _ ha, hpa, fun b hb hpb => ?_⟩,
        fun ⟨ha, hpa, hfirst⟩ => ⟨?_, hpa, fun b hb => hfirst b (List.mem_cons_of_mem _ hb)⟩⟩
      · rcases List.mem_cons.mp hb with rfl | hb
        · rw [hp] at hpb
          cases hpb
        · exact hfirst b hb hpb
      · rcases List.mem_cons.mp ha with rfl | ha
        · rw [hp] at hpa
          cases hpa
        · exact ha

instance (a b : SymbolRow) : Decidable (a.Before b) :=
  inferInstanceAs (Decidable (a.line < b.line ∨ a.line = b.line ∧ a.id < b.id))

/-- The file that a use is in. -/
def ReferenceRow.Within (r : ReferenceRow) (f : FileRow) : Prop := f.id = r.fileId

/-- A file at the path of a use, in any project. -/
def ReferenceRow.AtPath (r : ReferenceRow) (f : FileRow) : Prop := f.relativePath = r.filePath

instance (r : ReferenceRow) (f : FileRow) : Decidable (r.Within f) :=
  inferInstanceAs (Decidable (f.id = r.fileId))

namespace Store

open ReferenceRow

variable {s : Store} {a b : Symbol} {ds : List Symbol}

/-! ## Symbols around a line -/

section FirstAround

variable {near near' : FileRow → Prop} {line : Nat}

/-- A symbol of a file is around a line, and in some files none that is around it comes before. -/
def ComesFirst (s : Store) (near : FileRow → Prop) (line : Nat) (f : FileRow) (r : SymbolRow) :
    Prop :=
  near f ∧ r.fileId = f.id ∧ r.range.containsLine line = true ∧
    ∀ g ∈ s.files, near g → ∀ x ∈ s.symbols, x.fileId = g.id → x.range.containsLine line = true →
      ¬ x.Before r

instance [DecidablePred near] (f : FileRow) (r : SymbolRow) :
    Decidable (s.ComesFirst near line f r) :=
  inferInstanceAs (Decidable (near f ∧ r.fileId = f.id ∧ r.range.containsLine line = true ∧
    ∀ g ∈ s.files, near g → ∀ x ∈ s.symbols, x.fileId = g.id → x.range.containsLine line = true →
      ¬ x.Before r))

/-- **The first symbol around a line** in some files: by line, then by id. -/
def FirstAround (s : Store) (near : FileRow → Prop) (line : Nat) (b : Symbol) : Prop :=
  ∃ f ∈ s.files, ∃ r ∈ s.symbols, s.ComesFirst near line f r ∧ b = r.sited f.relativePath

theorem FirstAround.shown (h : s.Sound) (hb : s.FirstAround near line b) : s.Shown b := by
  obtain ⟨f, hf, r, hr, ⟨-, he, -⟩, rfl⟩ := hb
  have hlisted : r.sited f.relativePath ∈ s.listed fun _ => true :=
    (mem_listed h.keyed).mpr ⟨f, hf, r, hr, he.symm, rfl, rfl⟩
  exact shown_of_mem_listed h hlisted

theorem FirstAround.congr (hnear : ∀ f ∈ s.files, near f ↔ near' f)
    (hb : s.FirstAround near line b) : s.FirstAround near' line b := by
  obtain ⟨f, hf, r, hr, ⟨hn, he, hline, hfirst⟩, rfl⟩ := hb
  exact ⟨f, hf, r, hr, ⟨(hnear f hf).mp hn, he, hline,
    fun g hg hgn => hfirst g hg ((hnear g hg).mpr hgn)⟩, rfl⟩

/-- The symbols at a path come by line, and by id on one line. -/
theorem sited_pairwise (h : s.Sound) (path : String) :
    (sortBy (byPathAndLine (·.1.relativePath) (·.2.range.startLine))
      (s.sitedSymbols.filter (·.1.relativePath == path))).Pairwise fun x y => x.2.Before y.2 := by
  have hids : s.sitedSymbols.Pairwise fun x y => x.2.id < y.2.id := by
    have hgrows := List.pairwise_map.mp h.keyed.symbols.grows
    rwa [← sitedSymbols_snd h, List.pairwise_map] at hgrows
  have hsorted := @sortBy_compare_stable _ (compareLex
    (compareOn fun x : FileRow × SymbolRow => x.1.relativePath)
    (compareOn fun x => signed x.2.range.startLine)) _ _ _
    (hids.sublist (List.filter_sublist (p := fun x => x.1.relativePath == path)))
  refine List.Pairwise.imp_of_mem ?_ hsorted
  intro x y hx hy hxy
  -- both are at the path, so that only their lines are compared
  have hpath : x.1.relativePath = y.1.relativePath := by
    have hx' := (List.mem_filter.mp (mem_sortBy.mp hx)).2
    have hy' := (List.mem_filter.mp (mem_sortBy.mp hy)).2
    exact (beq_iff_eq.mp hx').trans (beq_iff_eq.mp hy').symm
  simp only [compareLex, compareOn, hpath, Std.ReflCmp.compare_self, Ordering.then,
    Int.isLE_compare] at hxy
  unfold SymbolRow.Before Declaration.line
  have hid := hxy.2
  omega

/-- **What is found around a line at a path is the first symbol around it in the files there.** -/
theorem enclosing?_listed (h : s.Sound) {path : String} :
    enclosing? (s.listed (·.1.relativePath == path)) line = some b ↔
      s.FirstAround (·.relativePath = path) line b := by
  have hmem : ∀ x : FileRow × SymbolRow, x ∈ sortBy (byPathAndLine (·.1.relativePath)
      (·.2.range.startLine)) (s.sitedSymbols.filter (·.1.relativePath == path)) ↔
        x.1 ∈ s.files ∧ x.1.relativePath = path ∧ x.2 ∈ s.symbols ∧ x.2.fileId = x.1.id := by
    rintro ⟨f, r⟩
    rw [mem_sortBy, List.mem_filter, mem_sitedSymbols h.keyed, beq_iff_eq]
    tauto
  unfold enclosing? listed
  rw [List.find?_map, Option.map_eq_some_iff]
  simp only [find?_eq_some_iff_first (sited_pairwise h path) fun x y hxy => hxy.asymm, hmem]
  constructor
  · rintro ⟨⟨f, r⟩, ⟨⟨hf, hpath, hr, he⟩, hline, hfirst⟩, rfl⟩
    exact ⟨f, hf, r, hr, ⟨hpath, he, hline,
      fun g hg hgp x hx hxe => hfirst (g, x) ⟨hg, hgp, hx, hxe⟩⟩, rfl⟩
  · rintro ⟨f, hf, r, hr, ⟨hpath, he, hline, hfirst⟩, rfl⟩
    exact ⟨(f, r), ⟨⟨hf, hpath, hr, he⟩, hline,
      fun ⟨g, x⟩ ⟨hg, hgp, hx, hxe⟩ => hfirst g hg hgp x hx hxe⟩, rfl⟩

end FirstAround

/-! ## Uses and users -/

section UsedBy

variable {near : ReferenceRow → FileRow → Prop} {n : String} {id : Int} {u : Reference}

/-- A use of a symbol, as it is found by name and id. -/
def UseOf (s : Store) (name : String) (id : Int) (u : Reference) : Prop :=
  ∃ us, s.referencesTo name (some id) = .ok us ∧ u ∈ us

/-- **A symbol is used by another one**, which is the first around a use of it. -/
def UsedBy (s : Store) (near : ReferenceRow → FileRow → Prop) (a b : Symbol) : Prop :=
  ∃ r ∈ s.references, s.UseOf a.name a.id r.toReference ∧ s.FirstAround (near r) r.line b

instance (name : String) (id : Int) (u : Reference) : Decidable (s.UseOf name id u) :=
  match h : s.referencesTo name (some id) with
  | .ok us => decidable_of_iff (u ∈ us)
      ⟨fun hu => ⟨us, h, hu⟩, fun ⟨_, hus, hu⟩ => Except.ok.inj (h.symm.trans hus) ▸ hu⟩
  | .error _ => isFalse fun ⟨_, hus, _⟩ => nomatch h.symm.trans hus

theorem useOf_iff (h : s.Flawless) : s.UseOf n id u ↔ u ∈ useList (s.matching n (some id)) := by
  unfold UseOf
  rw [referencesTo_eq h]
  exact ⟨fun ⟨us, hus, hu⟩ => Except.ok.inj hus ▸ hu, fun hu => ⟨_, rfl, hu⟩⟩

theorem UseOf.exists_row (h : s.Flawless) (hu : s.UseOf n id u) :
    ∃ r ∈ s.references, r.toReference = u := by
  obtain ⟨r, hr, rfl⟩ := mem_useList.mp ((useOf_iff h).mp hu)
  exact ⟨r, (mem_matching.mp hr).1, rfl⟩

theorem UseOf.eq_of_id (h : s.Sound) {n' : String} {id' : Int} {v : Reference}
    (hu : s.UseOf n id u) (hv : s.UseOf n' id' v) (he : u.id = v.id) : u = v := by
  obtain ⟨r, hr, rfl⟩ := hu.exists_row h.flawless
  obtain ⟨x, hx, rfl⟩ := hv.exists_row h.flawless
  rw [List.inj_on_of_nodup_map h.keyed.references.nodup hr hx he]

theorem mem_usesOfAll (h : s.Sound) : u ∈ s.usesOfAll ds ↔ ∃ d ∈ ds, s.UseOf d.name d.id u := by
  have hmem : ∀ v, v ∈ (ds.map fun d => useList (s.matching d.name (some d.id))).flatten ↔
      ∃ d ∈ ds, s.UseOf d.name d.id v := by
    intro v
    simp only [List.mem_flatten, List.mem_map, exists_exists_and_eq_and, useOf_iff h.flawless]
  rw [usesOfAll, mem_distinctOn, hmem]
  intro v hv w hw he
  obtain ⟨d, -, hd⟩ := (hmem v).mp hv
  obtain ⟨e, -, he'⟩ := (hmem w).mp hw
  exact hd.eq_of_id h he' he

theorem UsedBy.shown (h : s.Sound) (hb : s.UsedBy near a b) : s.Shown b := by
  obtain ⟨r, -, -, hb⟩ := hb
  exact hb.shown h

/-- A user at the path of a use is the symbol that is found there. -/
theorem usedBy_atPath_iff (h : s.Sound) : s.UsedBy AtPath a b ↔
    ∃ u, s.UseOf a.name a.id u ∧
      enclosing? (s.listed (·.1.relativePath == u.filePath)) u.line = some b := by
  constructor
  · rintro ⟨r, -, hu, hb⟩
    exact ⟨r.toReference, hu, (enclosing?_listed h).mpr hb⟩
  · rintro ⟨u, hu, hb⟩
    obtain ⟨r, hr, rfl⟩ := hu.exists_row h.flawless
    exact ⟨r, hr, hu, (enclosing?_listed h).mp hb⟩

theorem mem_flatten_around {us : List Reference} :
    b ∈ ((sortedTexts (us.map (·.filePath))).map (s.around us)).flatten ↔
      ∃ u ∈ us, enclosing? (s.listed (·.1.relativePath == u.filePath)) u.line = some b := by
  simp only [List.mem_flatten, List.mem_map, exists_exists_and_eq_and, mem_sortedTexts, around,
    List.mem_filterMap, List.mem_filter, beq_iff_eq]
  constructor
  · rintro ⟨v, -, u, ⟨hu, he⟩, hb⟩
    exact ⟨u, hu, by rwa [he]⟩
  · rintro ⟨u, hu, hb⟩
    exact ⟨u, hu, u, ⟨hu, rfl⟩, hb⟩

/-- **The dependents of some symbols** are their users, without these. -/
theorem mem_dependents (h : s.Sound) : b ∈ s.dependents ds ↔
    (∃ a ∈ ds, s.UsedBy AtPath a b) ∧ ∀ a ∈ ds, a.id ≠ b.id := by
  have hmem : ∀ c, (∃ u ∈ s.usesOfAll ds,
      enclosing? (s.listed (·.1.relativePath == u.filePath)) u.line = some c) ↔
        ∃ a ∈ ds, s.UsedBy AtPath a c := by
    intro c
    simp only [mem_usesOfAll h, usedBy_atPath_iff h]
    constructor
    · rintro ⟨u, ⟨a, ha, hu⟩, hc⟩
      exact ⟨a, ha, u, hu, hc⟩
    · rintro ⟨a, ha, u, hu, hc⟩
      exact ⟨u, ⟨a, ha, hu⟩, hc⟩
  have hshown : ∀ c ∈ ((sortedTexts ((s.usesOfAll ds).map (·.filePath))).map
      (s.around (s.usesOfAll ds))).flatten, s.Shown c := by
    intro c hc
    obtain ⟨a, -, hac⟩ := (hmem c).mp (mem_flatten_around.mp hc)
    exact hac.shown h
  rw [dependents, mem_distinctOn, List.mem_filter, mem_flatten_around, hmem]
  · simp
  · intro c hc d hd
    exact (hshown c (List.mem_of_mem_filter hc)).eq_of_id (hshown d (List.mem_of_mem_filter hd))

end UsedBy

/-! ## Level by level -/

section Levels

variable {n m : Nat} {visited : List Int} {frontier : List Symbol} {near : ReferenceRow → FileRow → Prop}

theorem shown_of_apart (h : s.Sound) (hds : ∀ d ∈ ds, s.Shown d)
    (hb : Apart (s.UsedBy near) (· ∈ ds) n b) : s.Shown b := by
  cases n with
  | zero => exact hds b (apart_zero_iff.mp hb)
  | succ n =>
    obtain ⟨⟨c, -, hcb⟩, -⟩ := apart_succ_iff.mp hb
    exact hcb.shown h

/-- The frontier are the symbols at a distance, and visited are those up to there. -/
structure Level (s : Store) (ds : List Symbol) (n : Nat) (visited : List Int)
    (frontier : List Symbol) : Prop where
  frontier : ∀ b, b ∈ frontier ↔ Apart (s.UsedBy AtPath) (· ∈ ds) n b
  visited : ∀ i, i ∈ visited ↔
    ∃ k ≤ n, ∃ b, Apart (s.UsedBy AtPath) (· ∈ ds) k b ∧ b.id = i

theorem level_start (s : Store) (ds : List Symbol) : s.Level ds 0 (ds.map (·.id)) ds where
  frontier b := apart_zero_iff.symm
  visited i := by
    simp only [List.mem_map, Nat.le_zero_eq, exists_eq_left, apart_zero_iff]

/-- **The users that were not visited are one step further.** -/
theorem Level.mem_next (hl : s.Level ds n visited frontier) (h : s.Sound)
    (hds : ∀ d ∈ ds, s.Shown d) :
    b ∈ (s.dependents frontier).filter (fun d => !visited.contains d.id) ↔
      Apart (s.UsedBy AtPath) (· ∈ ds) (n + 1) b := by
  rw [List.mem_filter, mem_dependents h, apart_succ_iff]
  simp only [hl.frontier, Bool.not_eq_true', List.contains_eq_mem, decide_eq_false_iff_not, hl.visited]
  constructor
  · rintro ⟨⟨husers, -⟩, hnew⟩
    exact ⟨husers, fun k hk hb => hnew ⟨k, hk, b, hb, rfl⟩⟩
  · rintro ⟨⟨a, ha, hab⟩, hfar⟩
    -- an id that was visited is the id of this symbol only
    have hnew : ∀ k ≤ n, ∀ c, Apart (s.UsedBy AtPath) (· ∈ ds) k c → c.id ≠ b.id := by
      intro k hk c hc he
      obtain rfl := (shown_of_apart h hds hc).eq_of_id (hab.shown h) he
      exact hfar k hk hc
    exact ⟨⟨⟨a, ha, hab⟩, hnew n (Nat.le_refl n)⟩, fun ⟨k, hk, c, hc, he⟩ => hnew k hk c hc he⟩

theorem Level.next (hl : s.Level ds n visited frontier) {next : List Symbol}
    (hnext : ∀ b, b ∈ next ↔ Apart (s.UsedBy AtPath) (· ∈ ds) (n + 1) b) :
    s.Level ds (n + 1) (visited ++ next.map (·.id)) next where
  frontier := hnext
  visited i := by
    rw [List.mem_append, hl.visited, List.mem_map]
    constructor
    · rintro (⟨k, hk, b, hb, rfl⟩ | ⟨b, hb, rfl⟩)
      · exact ⟨k, Nat.le_succ_of_le hk, b, hb, rfl⟩
      · exact ⟨n + 1, Nat.le_refl _, b, (hnext b).mp hb, rfl⟩
    · rintro ⟨k, hk, b, hb, rfl⟩
      rcases Nat.le_succ_iff.mp hk with hk | rfl
      · exact Or.inl ⟨k, hk, b, hb, rfl⟩
      · exact Or.inr ⟨b, (hnext b).mpr hb, rfl⟩

/-- What is found beyond a distance, up to another one: each symbol once, with its distance. -/
structure Found (s : Store) (ds : List Symbol) (n m : Nat) (found : List (Nat × Symbol)) : Prop where
  mem : ∀ k b, (k, b) ∈ found ↔ n < k ∧ k ≤ m ∧ Apart (s.UsedBy AtPath) (· ∈ ds) k b
  once : (found.map (·.2.id)).Nodup

theorem found_nil (hnone : ∀ k b, n < k → k ≤ m → ¬ Apart (s.UsedBy AtPath) (· ∈ ds) k b) :
    s.Found ds n m [] where
  mem k b := ⟨fun hb => absurd hb List.not_mem_nil,
    fun ⟨hlt, hle, hb⟩ => absurd hb (hnone k b hlt hle)⟩
  once := List.nodup_nil

/-- The next level and all that is found further away. -/
theorem Found.prepend {further : List (Nat × Symbol)} {next : List Symbol}
    (hf : s.Found ds (n + 1) m further) (h : s.Sound) (hds : ∀ d ∈ ds, s.Shown d) (hm : n + 1 ≤ m)
    (hnext : ∀ b, b ∈ next ↔ Apart (s.UsedBy AtPath) (· ∈ ds) (n + 1) b)
    (hnodup : (next.map (·.id)).Nodup) :
    s.Found ds n m (next.map (fun d => (n + 1, d)) ++ further) where
  mem k b := by
    rw [List.mem_append, hf.mem, List.mem_map]
    constructor
    · rintro (⟨c, hc, he⟩ | ⟨hlt, hle, hb⟩)
      · obtain ⟨rfl, rfl⟩ := Prod.mk.inj he
        exact ⟨Nat.lt_succ_self n, hm, (hnext c).mp hc⟩
      · exact ⟨Nat.lt_of_succ_lt hlt, hle, hb⟩
    · rintro ⟨hlt, hle, hb⟩
      rcases Nat.lt_or_eq_of_le (Nat.succ_le_of_lt hlt) with hlt | rfl
      · exact Or.inr ⟨hlt, hle, hb⟩
      · exact Or.inl ⟨b, (hnext b).mpr hb, rfl⟩
  once := by
    rw [List.map_append, List.map_map]
    refine hnodup.append hf.once fun i hi hi' => ?_
    -- a symbol with an id on both sides would be at two distances
    obtain ⟨c, hc, rfl⟩ := List.mem_map.mp hi
    obtain ⟨⟨k, b⟩, hb, he⟩ := List.mem_map.mp hi'
    obtain ⟨hlt, -, hb⟩ := (hf.mem k b).mp hb
    have hc' := (hnext c).mp hc
    obtain rfl := (shown_of_apart h hds hb).eq_of_id (shown_of_apart h hds hc') he
    have := hb.unique hc'
    omega

/-- **Level by level, each symbol is found once, at its distance.** -/
theorem dependentLevels_found (h : s.Sound) (hds : ∀ d ∈ ds, s.Shown d) (left : Nat)
    (hl : s.Level ds n visited frontier) :
    ∃ found, s.dependentLevels left (n + 1) visited frontier = .ok found ∧
      s.Found ds n (n + left) found := by
  induction left generalizing n visited frontier with
  | zero => exact ⟨[], rfl, found_nil fun k b hlt hle => by omega⟩
  | succ left ih =>
    unfold dependentLevels
    rw [dependentsOf_eq h]
    simp only [bind, Except.bind]
    have hnext := fun b => hl.mem_next h hds (b := b)
    have hnodup : (((s.dependents frontier).filter fun d => !visited.contains d.id).map
        (·.id)).Nodup := (nodup_distinctOn _ _).sublist (List.filter_sublist.map _)
    generalize (s.dependents frontier).filter (fun d => !visited.contains d.id) = next
      at hnext hnodup ⊢
    cases hempty : next.isEmpty with
    | true =>
      obtain rfl := List.isEmpty_iff.mp hempty
      have hnone : ∀ c, ¬ Apart (s.UsedBy AtPath) (· ∈ ds) (n + 1) c := fun c hc =>
        List.not_mem_nil ((hnext c).mpr hc)
      exact ⟨[], rfl, found_nil fun k b hlt _ => no_apart_of_le hnone hlt b⟩
    | false =>
      obtain ⟨further, hfurther, hfound⟩ := ih (hl.next hnext)
      rw [if_neg (by simp), hfurther]
      rw [show n + 1 + left = n + (left + 1) by omega] at hfound
      exact ⟨_, rfl, hfound.prepend h hds (by omega) hnext hnodup⟩

end Levels

/-! ## Impact -/

section Impact

variable {depth : Nat} {n : String} {i : Impact} {near : ReferenceRow → FileRow → Prop}

/-- **An impact is exact** for some definitions: the affected symbols are those up to a distance from
them, each once with its distance; the uses are those of the definitions, each once; the files are
theirs, in order; and the indirect uses are counted that are uses of affected symbols and not of the
definitions. -/
structure Exact (s : Store) (near : ReferenceRow → FileRow → Prop) (ds : List Symbol) (depth : Nat)
    (i : Impact) : Prop where
  affected : ∀ x, x ∈ i.affectedSymbols ↔
    ∃ k b, 1 ≤ k ∧ k ≤ depth ∧ Apart (s.UsedBy near) (· ∈ ds) k b ∧ x = .ofSymbol k b
  affectedOnce : (i.affectedSymbols.map (·.id)).Nodup
  uses : ∀ u, u ∈ i.references ↔ ∃ d ∈ ds, s.UseOf d.name d.id u
  usesOnce : (i.references.map (·.id)).Nodup
  files : ∀ path, path ∈ i.affectedFiles ↔ ∃ u ∈ i.references, u.filePath = path
  filesSorted : i.affectedFiles.Pairwise (· < ·)
  indirect : ∃ us : List Reference, us.length = i.indirectReferences ∧ (us.map (·.id)).Nodup ∧
    ∀ u, u ∈ us ↔ (∃ x ∈ i.affectedSymbols, s.UseOf x.name x.id u) ∧ u ∉ i.references

theorem sortedTexts_pairwise (l : List String) : (sortedTexts l).Pairwise (· < ·) := by
  have hnd : (sortedTexts l).Nodup := (sortBy_perm _ _).nodup_iff.mpr (distinct_spec l).1
  have hsorted : (sortedTexts l).Pairwise fun a b => (compare a b).isLE = true :=
    sortBy_compare_pairwise _
  refine (hsorted.and hnd).imp fun {a b} hab => ?_
  rw [Ordering.isLE_iff_ne_gt, ne_eq, compare_gt_iff_gt, not_lt] at hab
  exact lt_of_le_of_ne hab.1 hab.2

/-- The uses of some symbols that are not uses of others, each once. -/
theorem mem_further (h : s.Sound) {es : List Symbol} {u : Reference} :
    u ∈ (s.usesOfAll es).filter (fun r => !(s.usesOfAll ds).any (·.id == r.id)) ↔
      (∃ d ∈ es, s.UseOf d.name d.id u) ∧ u ∉ s.usesOfAll ds := by
  rw [List.mem_filter, mem_usesOfAll h, and_congr_right_iff]
  rintro ⟨d, -, hu⟩
  simp only [Bool.not_eq_true', List.any_eq_false, beq_iff_eq]
  constructor
  · exact fun hnone hmem => hnone u hmem rfl
  · intro hnot v hv he
    obtain ⟨e, -, hv'⟩ := (mem_usesOfAll h).mp hv
    rw [hv'.eq_of_id h hu he] at hv
    exact hnot hv

/-- **The impact of a change of symbols is exact.** -/
theorem impactOf_exact (h : s.Sound) (hds : ∀ d ∈ ds, s.Shown d) (depth : Nat) (n : String) :
    ∃ i, s.impactOf depth n ds = .ok i ∧ s.Exact AtPath ds depth i := by
  obtain ⟨found, hfound, hlevels⟩ := dependentLevels_found h hds depth (level_start s ds)
  have hnodes : ∀ x, x ∈ found.map (fun y => GraphNode.ofSymbol y.1 y.2) ↔
      ∃ k b, (k, b) ∈ found ∧ x = .ofSymbol k b := by
    intro x
    simp only [List.mem_map, Prod.exists, eq_comm]
  unfold impactOf
  rw [referencesToAll_eq h.flawless]
  simp only [bind, Except.bind]
  rw [hfound]
  simp only [referencesToAll_eq h.flawless]
  refine ⟨_, rfl, ?_, ?_, fun u => mem_usesOfAll h, nodup_distinctOn _ _, fun path => ?_,
    sortedTexts_pairwise _, _, List.countP_eq_length_filter.symm, ?_, fun u => ?_⟩
  · intro x
    refine (hnodes x).trans (exists_congr fun k => exists_congr fun b => ?_)
    rw [hlevels.mem, Nat.zero_add, and_assoc, and_assoc, Nat.succ_le_iff]
  · rw [List.map_map]
    exact hlevels.once
  · rw [mem_sortedTexts, List.mem_map]
  · exact (nodup_distinctOn _ _).sublist (List.filter_sublist.map _)
  · rw [mem_further h]
    refine and_congr_left fun _ => ?_
    constructor
    · rintro ⟨d, hd, hu⟩
      obtain ⟨⟨k, b⟩, hb, rfl⟩ := List.mem_map.mp hd
      exact ⟨_, (hnodes _).mpr ⟨k, b, hb, rfl⟩, hu⟩
    · rintro ⟨x, hx, hu⟩
      obtain ⟨k, b, hb, rfl⟩ := (hnodes x).mp hx
      exact ⟨b, List.mem_map_of_mem (f := Prod.snd) hb, hu⟩

theorem exists_impact (h : s.Sound) (hn : ∃ r ∈ s.symbols, r.name = n) (depth : Nat) :
    ∃ i, s.impact depth n = .ok i ∧ s.Exact AtPath (s.named n) depth i := by
  obtain ⟨root, others, hnamed, -⟩ := exists_root h hn
  obtain ⟨i, hi, hexact⟩ := impactOf_exact h (fun d hd => shown_of_mem_named h hd) depth n
  have hdefinitions : s.definitions n = .ok (s.named n) := by
    unfold definitions
    rw [symbolsNamed_eq h, hnamed]
    rfl
  refine ⟨i, ?_, hexact⟩
  unfold impact
  rw [hdefinitions]
  change (liftM (s.impactOf depth n (s.named n)) : LookupM Impact) = _
  rw [hi]
  rfl

/-- A use has the path of its file. -/
theorem Reachable.exists_owner (h : s.Reachable) {r : ReferenceRow} (hr : r ∈ s.references) :
    ∃ f ∈ s.files, f.id = r.fileId ∧ f.relativePath = r.filePath := by
  obtain ⟨f, hf, he⟩ := h.sound.owned.references r hr
  obtain ⟨x, hholds⟩ := h.exists_holds hf
  obtain ⟨u, -, hu⟩ := exists_left_of_forall₂ hholds.uses (mem_referencesIn.mpr ⟨hr, he.symm⟩)
  exact ⟨f, hf, he, hu.path.symm⟩

/-- Where no path belongs to two projects, both readings of a user are the same. -/
theorem Reachable.usedBy_within_eq (h : s.Reachable)
    (hpaths : ∀ f ∈ s.files, ∀ g ∈ s.files, f.relativePath = g.relativePath →
      f.projectId = g.projectId) : s.UsedBy Within = s.UsedBy AtPath := by
  have hkeyed := h.sound.keyed
  have hnear : ∀ r ∈ s.references, ∀ f ∈ s.files, r.Within f ↔ r.AtPath f := by
    intro r hr f hf
    obtain ⟨g, hg, hid, hpath⟩ := h.exists_owner hr
    unfold Within AtPath
    rw [← hid, ← hpath]
    exact ⟨fun he => by rw [hkeyed.file_eq hf hg he],
      fun he => by rw [hkeyed.file_eq_of_path hf hg (hpaths f hf g hg he) he]⟩
  funext a b
  refine propext (exists_congr fun r => and_congr_right fun hr => and_congr_right fun _ => ?_)
  exact ⟨fun hb => hb.congr (hnear r hr), fun hb => hb.congr fun f hf => (hnear r hr f hf).symm⟩

/-- **Impact is the exact set of transitive dependents.** The impact of a name that is defined is
found at any depth, and it is exact if the user of a use is looked for in all files at the path of the
use. So it is exact with the user in the file of the use itself, where no path belongs to two
projects. -/
theorem Reachable.impact_exact (h : s.Reachable) (hn : ∃ r ∈ s.symbols, r.name = n) (depth : Nat) :
    ∃ ds i, s.symbolsNamed n = .ok ds ∧ s.impact depth n = .ok i ∧ s.Exact AtPath ds depth i ∧
      ((∀ f ∈ s.files, ∀ g ∈ s.files, f.relativePath = g.relativePath → f.projectId = g.projectId) →
        s.Exact Within ds depth i) := by
  have hs := h.sound
  obtain ⟨i, hi, hexact⟩ := exists_impact hs hn depth
  refine ⟨s.named n, i, symbolsNamed_eq hs n, hi, hexact, fun hpaths => ?_⟩
  refine { hexact with affected := ?_ }
  rw [h.usedBy_within_eq hpaths]
  exact hexact.affected

/-- Two functions of one name, and a circle of uses through one of them. -/
def circle : List Write :=
  [.upsertProject 0 "/p" "p",
    .persist 0 1 { relativePath := "a.go" }
      { symbols := [{ name := "f", range := { startLine := 1, endLine := 2 } },
          { name := "g", range := { startLine := 4, endLine := 6 } }]
        uses := [⟨.call, some "g", "f", none, 5, 2⟩, ⟨.call, some "g", "g", none, 6, 2⟩] },
    .persist 0 1 { relativePath := "b.go" }
      { symbols := [{ name := "f", range := { startLine := 1, endLine := 2 } },
          { name := "h", range := { startLine := 4, endLine := 6 } }]
        uses := [⟨.call, some "h", "g", none, 5, 2⟩, ⟨.call, some "f", "h", none, 2, 2⟩] }]

/-- The circle is followed until it is back at the name. -/
theorem impact_exact_circle : ∃ ds i, (run circle).symbolsNamed "f" = .ok ds ∧
    (run circle).impact 5 "f" = .ok i ∧ (run circle).Exact Within ds 5 i ∧
    i.affectedSymbols.map (fun x => (x.name, x.depth)) = [("g", 1), ("h", 2)] ∧
    i.indirectReferences = 3 := by
  obtain ⟨ds, i, hds, hi, -, hexact⟩ := (reachable_run circle).impact_exact
    (by decide +kernel : ∃ r ∈ (run circle).symbols, r.name = "f") 5
  have hshows : ((run circle).impact 5 "f").toOption.map (fun i =>
      (i.affectedSymbols.map (fun x => (x.name, x.depth)), i.indirectReferences)) =
        some ([("g", 1), ("h", 2)], 3) := by decide +kernel
  rw [hi] at hshows
  obtain ⟨haffected, hindirect⟩ := Prod.mk.inj (Option.some.inj hshows)
  exact ⟨ds, i, hds, hi, hexact (by decide +kernel), haffected, hindirect⟩

/-- A path in two projects: in the one a function uses another, in the other a function is around the
line of the use. -/
def sharedPath : List Write :=
  [.upsertProject 0 "/p" "p", .upsertProject 0 "/q" "q",
    .persist 0 1 { relativePath := "a.go" }
      { symbols := [{ name := "f", range := { startLine := 1, endLine := 2 } },
          { name := "g", range := { startLine := 4, endLine := 6 } }]
        uses := [⟨.call, some "g", "f", none, 5, 2⟩] },
    .persist 0 2 { relativePath := "a.go" }
      { symbols := [{ name := "h", range := { startLine := 1, endLine := 9 } }] }]

/-- The function that uses it is not affected, and the one of the other project is. -/
theorem foreign_user : ∃ ds i b, (run sharedPath).symbolsNamed "f" = .ok ds ∧
    (run sharedPath).impact 1 "f" = .ok i ∧
    Apart ((run sharedPath).UsedBy Within) (· ∈ ds) 1 b ∧ b.name = "g" ∧
    i.affectedSymbols.map (·.name) = ["h"] ∧ ¬ (run sharedPath).Exact Within ds 1 i := by
  have hs := (reachable_run sharedPath).sound
  obtain ⟨i, hi, -⟩ := exists_impact hs
    (by decide +kernel : ∃ r ∈ (run sharedPath).symbols, r.name = "f") 1
  have hshows : ((run sharedPath).impact 1 "f").toOption.map (·.affectedSymbols.map (·.name)) =
      some ["h"] := by decide +kernel
  rw [hi] at hshows
  have haffected : i.affectedSymbols.map (·.name) = ["h"] := Option.some.inj hshows
  have huser : ∃ a ∈ (run sharedPath).named "f", ∃ r ∈ (run sharedPath).references,
      (run sharedPath).UseOf a.name a.id r.toReference ∧
      ∃ f ∈ (run sharedPath).files, ∃ x ∈ (run sharedPath).symbols,
        (run sharedPath).ComesFirst r.Within r.line f x ∧ x.name = "g" := by decide +kernel
  obtain ⟨a, ha, r, hr, hu, f, hf, x, hx, hfirst, hname⟩ := huser
  have hb : Apart ((run sharedPath).UsedBy Within) (· ∈ (run sharedPath).named "f") 1
      (x.sited f.relativePath) := by
    refine apart_succ_iff.mpr ⟨⟨a, apart_zero_iff.mpr ha, r, hr, hu, f, hf, x, hx, hfirst, rfl⟩,
      fun k hk hk' => ?_⟩
    obtain rfl := Nat.le_zero.mp hk
    have hf : x.name = "f" := name_of_mem_named hs.keyed (apart_zero_iff.mp hk')
    rw [hname] at hf
    exact absurd hf (by decide)
  refine ⟨_, i, _, symbolsNamed_eq hs "f", hi, hb, hname, haffected, fun hexact => ?_⟩
  have hmem := (hexact.affected _).mpr ⟨1, _, Nat.le_refl 1, Nat.le_refl 1, hb, rfl⟩
  have hg : x.name ∈ i.affectedSymbols.map (·.name) := List.mem_map_of_mem hmem
  rw [haffected, hname] at hg
  exact absurd hg (by decide)

end Impact

end Store

end CodeAtlas
