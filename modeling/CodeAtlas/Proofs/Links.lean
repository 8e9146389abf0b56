import CodeAtlas.Proofs.Archive

/-!
# Links that are in line

* `Store.Canonical`: where a link has to lead: to the first declaration of its name in its own file,
  or else to the only symbol of its name in the project, or else nowhere.
* `Store.canonical?`: the same as a function of the name.
* `relink_eq_canonical?`: a link that is brought in line leads there, whatever it was before.
* **`links_canonical`**: after any sequence of writes, bringing links in line makes all of them
  canonical, and doing it once more changes nothing.
-/

namespace CodeAtlas

namespace Store

variable {s : Store} {p : Int} {n : String} {x : Filing} {f : FileRow}

/-- A symbol of a project with a name. -/
structure Named (s : Store) (p : Int) (n : String) (r : SymbolRow) : Prop where
  mem : r ∈ s.symbols
  name : r.name = n
  owned : s.ownsFile p r.fileId = true

/-- **Where a link of a file has to lead.** -/
inductive Canonical (s : Store) (p : Int) (x : Filing) (n : String) : Option Int → Prop where
  /-- The file declares the name. -/
  | own {i : Int} (h : x.first? n = some i) : Canonical s p x n (some i)
  /-- The project has one symbol of the name. -/
  | only {r : SymbolRow} (h : x.first? n = none) (hr : s.Named p n r)
      (hu : ∀ r', s.Named p n r' → r' = r) : Canonical s p x n (some r.id)
  /-- The project has no symbol of the name, or several. -/
  | open (h : x.first? n = none) (hr : ¬ ∃ r, s.Named p n r ∧ ∀ r', s.Named p n r' → r' = r) :
      Canonical s p x n none

/-- The link that a name of a file has to have. -/
def canonical? (s : Store) (p : Int) (x : Filing) (n : String) : Option Int :=
  (x.first? n).or (s.uniqueId? p n)

theorem idsNamed_nodup (hs : s.Keyed) (p : Int) (n : String) : (s.idsNamed p n).Nodup :=
  (hs.symbols.sublist (List.Sublist.map _ List.filter_sublist)).nodup

/-- The only id of a name is that of the only symbol of the name. -/
theorem uniqueId?_eq_some_iff_only (hs : s.Keyed) {r : SymbolRow} (hr : s.Named p n r) :
    s.uniqueId? p n = some r.id ↔ ∀ r', s.Named p n r' → r' = r := by
  rw [uniqueId?_eq_some]
  have hmem : r.id ∈ s.idsNamed p n := mem_idsNamed.mpr ⟨r, hr.mem, rfl, hr.name, hr.owned⟩
  constructor
  · intro h r' hr'
    have hmem' : r'.id ∈ s.idsNamed p n := mem_idsNamed.mpr ⟨r', hr'.mem, rfl, hr'.name, hr'.owned⟩
    rw [h, List.mem_singleton] at hmem'
    exact hs.symbol_eq hr'.mem hr.mem hmem'
  · intro h
    have hall : ∀ i ∈ s.idsNamed p n, i = r.id := by
      intro i hi
      obtain ⟨r', hr', rfl, hn, ho⟩ := mem_idsNamed.mp hi
      rw [h r' ⟨hr', hn, ho⟩]
    rcases List.eq_replicate_of_mem hall with hrep
    have hnd := idsNamed_nodup hs p n
    rw [hrep, List.nodup_replicate] at hnd
    have hpos : 0 < (s.idsNamed p n).length := List.length_pos_of_mem hmem
    rw [hrep, show (s.idsNamed p n).length = 1 by omega]
    rfl

/-- The two descriptions of a canonical link agree. -/
theorem canonical_iff (hs : s.Keyed) {link : Option Int} :
    s.Canonical p x n link ↔ link = s.canonical? p x n := by
  unfold canonical?
  constructor
  · intro h
    cases h with
    | own h => rw [h]; rfl
    | only h hr hu => rw [h, Option.none_or, (uniqueId?_eq_some_iff_only hs hr).mpr hu]
    | «open» h hr =>
      rw [h, Option.none_or]
      cases hu : s.uniqueId? p n with
      | none => rfl
      | some i =>
        have hmem : i ∈ s.idsNamed p n := by
          rw [uniqueId?_eq_some.mp hu]; exact List.mem_singleton_self i
        obtain ⟨r, hrm, rfl, hn, ho⟩ := mem_idsNamed.mp hmem
        exact absurd ⟨r, ⟨hrm, hn, ho⟩, (uniqueId?_eq_some_iff_only hs ⟨hrm, hn, ho⟩).mp hu⟩ hr
  · rintro rfl
    cases h : x.first? n with
    | some i => exact .own h
    | none =>
      rw [Option.none_or]
      cases hu : s.uniqueId? p n with
      | some i =>
        have hmem : i ∈ s.idsNamed p n := by
          rw [uniqueId?_eq_some.mp hu]; exact List.mem_singleton_self i
        obtain ⟨r, hrm, rfl, hn, ho⟩ := mem_idsNamed.mp hmem
        exact .only h ⟨hrm, hn, ho⟩ ((uniqueId?_eq_some_iff_only hs ⟨hrm, hn, ho⟩).mp hu)
      | none =>
        refine .open h ?_
        rintro ⟨r, hr, hall⟩
        rw [(uniqueId?_eq_some_iff_only hs hr).mpr hall] at hu
        cases hu

/-! ## Bringing a link in line -/

/-- Whether a link stays as it is. -/
def staysLinked (s : Store) (p i : Int) (n : String) (j : Int) : Bool :=
  s.fileOfSymbol? j == some i || (s.idsNamed p n).length ≤ 1

theorem relink_eq (i : Int) (link : Option Int) :
    s.relink p i n link = (link.filter (s.staysLinked p i n)).or (s.uniqueId? p n) := rfl

theorem wasFilled_eq (i : Int) (link : Option Int) : s.wasFilled p i n link =
    ((link.filter (s.staysLinked p i n)).isNone && (s.uniqueId? p n).isSome) := rfl

theorem fileOfSymbol?_id (hs : s.Keyed) {r : SymbolRow} (hr : r ∈ s.symbols) :
    s.fileOfSymbol? r.id = some r.fileId := by
  rw [fileOfSymbol?, find?_key hs.symbols.nodup hr, Option.map_some]

/-- **A link that is brought in line is canonical.** -/
theorem relink_eq_canonical? (hs : s.Keyed) (hf : f ∈ s.files) (hp : f.projectId = p)
    (hh : s.Holds f x) {link : Option Int} (hlink : s.Reaches f.id n link)
    (hown : ∀ i, x.first? n = some i → link = some i) :
    s.relink p f.id n link = s.canonical? p x n := by
  unfold canonical?
  cases hfirst : x.first? n with
  | some i =>
    rw [hown i hfirst, relink_of_mem hh hs (Filing.first?_mem hfirst)]
    rfl
  | none =>
    rw [Option.none_or, relink_eq]
    cases link with
    | none => rfl
    | some j =>
      obtain ⟨r, hr, rfl, hn, q, hq, hq'⟩ := hlink j rfl
      have hpq : q = p := hs.owner_unique hq' (ownsFile_iff.mpr ⟨f, hf, rfl, hp⟩)
      subst hpq
      have hmem : r.id ∈ s.idsNamed q n := mem_idsNamed.mpr ⟨r, hr, rfl, hn, hq⟩
      -- the symbol lies in another file, since this one does not declare the name
      have hother : r.fileId ≠ f.id := by
        intro he
        obtain ⟨i, hi⟩ := hh.exists_first? hs hr he
        rw [hn, hfirst] at hi
        cases hi
      have hstays : s.staysLinked q f.id n r.id = decide ((s.idsNamed q n).length ≤ 1) := by
        rw [staysLinked, fileOfSymbol?_id hs hr]
        simp [hother]
      by_cases hlen : (s.idsNamed q n).length ≤ 1
      · have hu : s.uniqueId? q n = some r.id := by
          rw [uniqueId?_eq_some]
          obtain ⟨i, hi⟩ := List.length_eq_one_iff.mp
            (Nat.le_antisymm hlen (List.length_pos_of_mem hmem))
          rw [hi, List.mem_singleton] at hmem
          rw [hi, hmem]
        rw [Option.filter_some, hstays, hu]
        simp [hlen]
      · have hu : s.uniqueId? q n = none := by
          cases hu : s.uniqueId? q n with
          | none => rfl
          | some i => rw [uniqueId?_eq_some.mp hu] at hlen; simp at hlen
        rw [Option.filter_some, hstays, hu]
        simp [hlen]

/-- A canonical link stays as it is, and is not filled in again. -/
theorem relink_canonical? (hs : s.Keyed) (hh : s.Holds f x) :
    s.relink p f.id n (s.canonical? p x n) = s.canonical? p x n ∧
      s.wasFilled p f.id n (s.canonical? p x n) = false := by
  rw [relink_eq, wasFilled_eq]
  unfold canonical?
  cases hfirst : x.first? n with
  | some i =>
    obtain ⟨r, hr, rfl, hrf, -⟩ := hh.first?_row hfirst
    have hstays : s.staysLinked p f.id n r.id = true := by
      rw [staysLinked, fileOfSymbol?_id hs hr, hrf]
      simp
    simp [hstays]
  | none =>
    cases hu : s.uniqueId? p n with
    | none => simp
    | some i =>
      have hstays : s.staysLinked p f.id n i = true := by
        rw [staysLinked, uniqueId?_eq_some.mp hu]
        simp
      simp [Option.filter_some, hstays]

/-! ## Bringing all links in line -/

/-- The links of a file are in line. -/
structure Settled (s : Store) (p : Int) (f : FileRow) (x : Filing) : Prop where
  uses : ∀ r ∈ s.references, r.fileId = f.id → r.targetId = s.canonical? p x r.target
  targets : ∀ r ∈ s.relationships, r.fileId = f.id → r.targetId = s.canonical? p x r.target
  sources : ∀ r ∈ s.relationships, r.fileId = f.id → r.sourceId = s.canonical? p x r.source

/-- Links that are brought in line are in line. -/
theorem settled_resolveLinks (hs : s.Sound) (hf : f ∈ s.files) (hp : f.projectId = p)
    (hh : s.Holds f x) : (s.resolveLinks p).2.Settled p f x := by
  have hown : s.ownsFile p f.id = true := ownsFile_iff.mpr ⟨f, hf, rfl, hp⟩
  have hrel : ∀ r ∈ (s.resolveLinks p).2.relationships, r.fileId = f.id →
      r.targetId = s.canonical? p x r.target ∧ r.sourceId = s.canonical? p x r.source := by
    intro r hr hrf
    obtain ⟨r₀, hr₀, rfl⟩ := List.mem_map.mp (resolveLinks_eq (s := s) p ▸ hr)
    have hf₀ : r₀.fileId = f.id := by
      rw [← hrf]
      unfold relinkEdge
      split <;> rfl
    obtain ⟨e, -, he⟩ := exists_left_of_forall₂ hh.edges (mem_relationshipsIn.mpr ⟨hr₀, hf₀⟩)
    have hedge := he.edge
    subst hedge
    have ht := hs.linked.targets r₀ hr₀
    have hsrc := hs.linked.sources r₀ hr₀
    rw [hf₀] at ht hsrc
    rw [relinkEdge, hf₀, if_pos hown]
    exact ⟨relink_eq_canonical? hs.keyed hf hp hh ht he.target,
      relink_eq_canonical? hs.keyed hf hp hh hsrc he.source⟩
  refine ⟨fun r hr hrf => ?_, fun r hr hrf => (hrel r hr hrf).1, fun r hr hrf => (hrel r hr hrf).2⟩
  obtain ⟨r₀, hr₀, rfl⟩ := List.mem_map.mp (resolveLinks_eq (s := s) p ▸ hr)
  have hf₀ : r₀.fileId = f.id := by
    rw [← hrf]
    unfold relinkUse
    split <;> rfl
  obtain ⟨u, -, hu⟩ := exists_left_of_forall₂ hh.uses (mem_referencesIn.mpr ⟨hr₀, hf₀⟩)
  have ht := hs.linked.uses r₀ hr₀
  have htarget : r₀.target = u.target := congrArg Use.target hu.use
  rw [hf₀] at ht
  rw [relinkUse, hf₀, if_pos hown]
  refine relink_eq_canonical? hs.keyed hf hp hh ht fun i hi => hu.target i ?_
  rw [← htarget]
  exact hi

/-- Links that are in line stay as they are. -/
theorem resolveLinks_of_settled (hs : s.Keyed)
    (h : ∀ f ∈ s.files, f.projectId = p → ∃ x, s.Holds f x ∧ s.Settled p f x) :
    s.resolveLinks p = (0, s) := by
  -- a file of the project fills in no link and changes none
  have hfile : ∀ i, s.ownsFile p i = true → ∃ f x, f.id = i ∧ s.Holds f x ∧ s.Settled p f x := by
    intro i hi
    obtain ⟨f, hf, hfi, hp⟩ := ownsFile_iff.mp hi
    obtain ⟨x, hx⟩ := h f hf hp
    exact ⟨f, x, hfi, hx⟩
  have huse : ∀ r ∈ s.references, s.ownsFile p r.fileId = true →
      s.relink p r.fileId r.target r.targetId = r.targetId ∧
        s.wasFilled p r.fileId r.target r.targetId = false := by
    intro r hr hi
    obtain ⟨f, x, hfi, hh, hset⟩ := hfile _ hi
    rw [hset.uses r hr hfi.symm, ← hfi]
    exact relink_canonical? hs hh
  have htarget : ∀ r ∈ s.relationships, s.ownsFile p r.fileId = true →
      s.relink p r.fileId r.target r.targetId = r.targetId ∧
        s.wasFilled p r.fileId r.target r.targetId = false := by
    intro r hr hi
    obtain ⟨f, x, hfi, hh, hset⟩ := hfile _ hi
    rw [hset.targets r hr hfi.symm, ← hfi]
    exact relink_canonical? hs hh
  have hsource : ∀ r ∈ s.relationships, s.ownsFile p r.fileId = true →
      s.relink p r.fileId r.source r.sourceId = r.sourceId ∧
        s.wasFilled p r.fileId r.source r.sourceId = false := by
    intro r hr hi
    obtain ⟨f, x, hfi, hh, hset⟩ := hfile _ hi
    rw [hset.sources r hr hfi.symm, ← hfi]
    exact relink_canonical? hs hh
  have hcount : (s.resolveLinks p).1 = 0 := by
    have hnone : ∀ {b c : Bool}, (b = true → c = false) → ¬ (b && c) = true := by
      intro b c hbc hb
      rw [Bool.and_eq_true] at hb
      rw [hbc hb.1] at hb
      cases hb.2
    simp only [resolveLinks, Nat.add_eq_zero_iff, List.countP_eq_zero]
    exact ⟨⟨fun r hr => hnone fun hi => (huse r hr hi).2,
      fun r hr => hnone fun hi => (htarget r hr hi).2⟩,
      fun r hr => hnone fun hi => (hsource r hr hi).2⟩
  have hstate : (s.resolveLinks p).2 = s := by
    have hrefs : s.references.map (s.relinkUse p) = s.references := by
      refine (List.map_congr_left fun r hr => ?_).trans (List.map_id _)
      unfold relinkUse
      split
      · next hi => rw [(huse r hr hi).1]; rfl
      · rfl
    have hrels : s.relationships.map (s.relinkEdge p) = s.relationships := by
      refine (List.map_congr_left fun r hr => ?_).trans (List.map_id _)
      unfold relinkEdge
      split
      · next hi => rw [(htarget r hr hi).1, (hsource r hr hi).1]; rfl
      · rfl
    rw [resolveLinks_eq, hrefs, hrels]
  exact Prod.ext hcount hstate

end Store

/-- **After any sequence of writes, bringing the links of a project in line makes every link of
every file of the project canonical, and doing it once more fills in nothing and changes nothing.** -/
theorem links_canonical (ws : List Write) (p : Int) :
    let a := Archive.run ws
    let s := (a.store.resolveLinks p).2
    (∀ f ∈ s.files, f.projectId = p → ∃ x, a.filed p f.relativePath = some x ∧ s.Holds f x ∧
      (∀ r ∈ s.references, r.fileId = f.id → s.Canonical p x r.target r.targetId) ∧
      ∀ r ∈ s.relationships, r.fileId = f.id →
        s.Canonical p x r.target r.targetId ∧ s.Canonical p x r.source r.sourceId) ∧
    s.resolveLinks p = (0, s) := by
  intro a s
  have ha : a.Faithful := Archive.faithful_run ws
  have hs : s.Sound := ha.sound.resolveLinks p
  have hfile : ∀ f ∈ s.files, f.projectId = p →
      ∃ x, a.filed p f.relativePath = some x ∧ s.Holds f x ∧ s.Settled p f x := by
    intro f hf hp
    obtain ⟨x, hx, hh⟩ := ha.holds f hf
    rw [hp] at hx
    exact ⟨x, hx, hh.resolveLinks ha.sound.keyed p, Store.settled_resolveLinks ha.sound hf hp hh⟩
  refine ⟨fun f hf hp => ?_, ?_⟩
  · obtain ⟨x, hx, hh, hset⟩ := hfile f hf hp
    exact ⟨x, hx, hh, fun r hr hrf => (Store.canonical_iff hs.keyed).mpr (hset.uses r hr hrf),
      fun r hr hrf => ⟨(Store.canonical_iff hs.keyed).mpr (hset.targets r hr hrf),
        (Store.canonical_iff hs.keyed).mpr (hset.sources r hr hrf)⟩⟩
  · refine Store.resolveLinks_of_settled hs.keyed fun f hf hp => ?_
    obtain ⟨x, -, hh, hset⟩ := hfile f hf hp
    exact ⟨x, hh, hset⟩

end CodeAtlas
