import CodeAtlas.Audit.Report
import CodeAtlas.Change.Report
import CodeAtlas.Proofs.Answers

/-!
# Reports without links

* `Impact.Like`, `Consequences.Like`, `ChangeReport.Like`: reports that are the same up to links and
  the order of uses at one place; `impactOf_alike`, `consequences_alike`, `changeReport_alike`.
* `SameLink`: a link in a project, cut or not; `audit_cut`: audits are the same.
* **`Reachable.answers_survive_cut`**: no answer depends on a link whose name has one definition, up
  to the order of uses at one place; `order_lost_by_cut`: that order does.
-/

namespace CodeAtlas

/-! ## Impact -/

/-- What a change touches is the same, up to links and the order of uses at one place. -/
structure Impact.Like (i i' : Impact) : Prop where
  references : SameUses i.references i'.references
  rest : i' = { i with references := i'.references }

namespace Store

variable {s : Store} {c : LinkChoice} {n : String} {d : Symbol}

/-- The same symbols depend on a frontier, level by level. -/
theorem dependentLevels_alike (h : s.Sound) (hc : c.Definite s) (left depth : Nat)
    (visited : List Int) {frontier : List Symbol} (hfrontier : ∀ d ∈ frontier, s.Lists d) :
    Alike (Same fun found => ∀ x ∈ found, s.Lists x.2)
      (s.dependentLevels left depth visited frontier)
      ((s.cut c).dependentLevels left depth visited frontier) := by
  induction left generalizing depth visited frontier with
  | zero => exact .ok ⟨rfl, List.forall_mem_nil _⟩
  | succ left ih =>
    unfold dependentLevels
    refine (dependentsOf_alike h hc hfrontier).bind ?_
    rintro around _ ⟨rfl, haround⟩
    have hnext : ∀ d ∈ around.filter fun d => !visited.contains d.id, s.Lists d :=
      fun d hd => haround d (List.mem_of_mem_filter hd)
    dsimp only
    split
    · exact .ok ⟨rfl, List.forall_mem_nil _⟩
    · refine (ih _ _ hnext).bind ?_
      rintro further _ ⟨rfl, hfurther⟩
      exact .ok ⟨rfl, List.forall_mem_append.mpr ⟨List.forall_mem_map.mpr hnext, hfurther⟩⟩

/-- **A change of symbols touches the same.** -/
theorem impactOf_alike (h : s.Sound) (hc : c.Definite s) (depth : Nat) (n : String)
    {targets : List Symbol} (htargets : ∀ d ∈ targets, s.Lists d) :
    Alike Impact.Like (s.impactOf depth n targets) ((s.cut c).impactOf depth n targets) := by
  refine (referencesToAll_alike h hc htargets).bind fun us us' hus => ?_
  refine (dependentLevels_alike h hc depth 1 _ htargets).bind ?_
  rintro dependents _ ⟨rfl, hdependents⟩
  refine (referencesToAll_alike h hc (List.forall_mem_map.mpr hdependents)).bind
    fun vs vs' hvs => ?_
  -- of the uses, the rest of the report reads paths, ids and numbers
  have hpaths : us.map (·.filePath) = us'.map (·.filePath) :=
    hus.map_eq fun _ _ hpath _ _ => hpath
  have hcount : ∀ file, us.countP (·.filePath == file) = us'.countP (·.filePath == file) :=
    fun file => hus.countP_eq fun _ => rfl
  have hknown : ∀ i, us.any (·.id == i) = us'.any (·.id == i) := fun i => hus.any_eq fun _ => rfl
  have hindirect : vs.countP (fun r => !us.any (·.id == r.id)) =
      vs'.countP (fun r => !us'.any (·.id == r.id)) := by
    simp only [hknown]
    exact hvs.countP_eq fun _ => rfl
  refine .ok ⟨hus, ?_⟩
  simp only [hpaths, hcount, hindirect, hus.length_eq]

theorem impact_alike (h : s.Sound) (hc : c.Definite s) (depth : Nat) (n : String) :
    Alike Impact.Like (s.impact depth n) ((s.cut c).impact depth n) := by
  refine Alike.bind (R := Same fun ds => ∀ d ∈ ds, s.Lists d) ?_ ?_
  · refine (symbolsNamed_alike h n).lift.bind ?_
    rintro ds _ ⟨rfl, hds⟩
    cases ds with
    | nil => exact .error _
    | cons d ds => exact .ok ⟨rfl, hds⟩
  · rintro ds _ ⟨rfl, hds⟩
    exact (impactOf_alike h hc depth n hds).lift

end Store

/-! ## Changes -/

/-- A use that no longer works, without its link. -/
def BrokenReference.unlinked (b : BrokenReference) : BrokenReference :=
  { b with reference := b.reference.unlinked }

/-- Consequences that are the same, up to links and the order of broken uses at one place. -/
structure Consequences.Like (k k' : Consequences) : Prop where
  broken : Reordered (·.reference.place) (k.broken.map (·.unlinked)) (k'.broken.map (·.unlinked))
  rest : k' = { k with broken := k'.broken }

/-- Reports that are the same, up to links and the order of uses at one place. -/
structure ChangeReport.Like (r r' : ChangeReport) : Prop where
  impact : r.impact.Like r'.impact
  consequences : r.consequences.Like r'.consequences
  rest : r' = { r with impact := r'.impact, consequences := r'.consequences }

section Consequences

variable {us us' : List Reference} {d : Symbol}

/-- The same uses break. -/
theorem SameUses.broken (h : SameUses us us') {breaks : Reference → BrokenReference}
    (hunlinked : ∀ u, (breaks u).unlinked = breaks u.unlinked)
    (hbreaks : ∀ u, (breaks u).reference = u) :
    Reordered (·.reference.place) ((us.map breaks).map (·.unlinked))
      ((us'.map breaks).map (·.unlinked)) := by
  have hmap : ∀ vs : List Reference,
      (vs.map breaks).map (·.unlinked) = (vs.map (·.unlinked)).map breaks := by
    intro vs
    rw [List.map_map, List.map_map]
    exact List.map_congr_left fun u _ => hunlinked u
  rw [hmap, hmap]
  exact Reordered.map (fun u v huv => by rw [hbreaks, hbreaks, huv]) h

theorem deleteConsequences_like (h : SameUses us us') :
    (deleteConsequences d us).Like (deleteConsequences d us') := by
  refine ⟨h.broken (fun _ => rfl) fun _ => rfl, ?_⟩
  unfold deleteConsequences
  simp only [h.isEmpty_eq]
  congr 1
  refine (h.map_eq fun u v hpath hline hcolumn => ?_).symm
  rw [hpath, hline, hcolumn]

theorem renameConsequences_eq (h : SameUses us us') (newName : String) (taken : List Symbol) :
    renameConsequences d newName taken us' = renameConsequences d newName taken us := by
  unfold renameConsequences
  dsimp only
  split
  · rfl
  · congr 1
    · refine (h.map_eq fun u v hpath hline hcolumn => ?_).symm
      rw [hpath, hline, hcolumn]
    · refine congrArg (· ++ _) (h.map_eq fun u v hpath hline hcolumn => ?_).symm
      rw [hpath, hline, hcolumn]

theorem signatureConsequences_eq (h : SameUses us us') (new : Symbol) :
    signatureConsequences d new us' = signatureConsequences d new us := by
  unfold signatureConsequences
  split
  · rfl
  · have hcalls : SameUses (us.filter (·.kind == .call)) (us'.filter (·.kind == .call)) :=
      h.filter fun _ => rfl
    dsimp only
    congr 1
    refine (hcalls.map_eq fun u v hpath hline hcolumn => ?_).symm
    rw [hpath, hline, hcolumn]

theorem visibilityConsequences_like (h : SameUses us us') (new : Symbol) :
    (visibilityConsequences d new us).Like (visibilityConsequences d new us') := by
  unfold visibilityConsequences
  split
  · have hforeign : SameUses (us.filter (·.filePath != d.filePath))
        (us'.filter (·.filePath != d.filePath)) := h.filter fun _ => rfl
    refine ⟨hforeign.broken (fun _ => rfl) fun _ => rfl, ?_⟩
    dsimp only
    congr 1
    refine (hforeign.map_eq fun u v hpath hline _ => ?_).symm
    rw [hpath, hline]
  · exact ⟨.refl _, rfl⟩

theorem modifyConsequences_like (h : SameUses us us') (new : Symbol) :
    (modifyConsequences d new us).Like (modifyConsequences d new us') := by
  obtain ⟨hbroken, hrest⟩ := visibilityConsequences_like (d := d) h new
  refine ⟨hbroken, ?_⟩
  unfold modifyConsequences
  dsimp only
  rw [signatureConsequences_eq h, congrArg Consequences.objections hrest]

end Consequences

namespace Store

variable {s : Store} {c : LinkChoice} {d : Symbol} {us us' : List Reference}

theorem consequences_alike (h : SameUses us us') (change : Change) :
    Alike Consequences.Like (s.consequences change d us) ((s.cut c).consequences change d us') := by
  cases change with
  | delete => exact .ok (deleteConsequences_like h)
  | modify new => exact .ok (modifyConsequences_like h new)
  | rename newName =>
    have hlike : ∀ taken taken' : List Symbol, taken = taken' →
        Alike Consequences.Like (pure (renameConsequences d newName taken us) : StoreM Consequences)
          (pure (renameConsequences d newName taken' us')) := by
      rintro taken _ rfl
      rw [renameConsequences_eq h]
      exact .ok ⟨.refl _, rfl⟩
    unfold consequences
    dsimp only
    split
    · exact hlike [] [] rfl
    · exact (Alike.of_eq rfl).bind hlike

/-- Whether a change needs no review does not depend on what was cut. -/
theorem isAutoFixable_eq (h : SameUses us us') {k k' : Consequences} (hk : k.Like k')
    (change : Change) : isAutoFixable change us' k' = isAutoFixable change us k := by
  unfold isAutoFixable
  rw [congrArg Consequences.fixes hk.rest, congrArg Consequences.objections hk.rest, h.isEmpty_eq]

/-- **A change has the same consequences.** -/
theorem changeReport_alike (h : s.Sound) (hc : c.Definite s) (depth : Nat) (change : SymbolChange) :
    Alike ChangeReport.Like (s.changeReport depth change) ((s.cut c).changeReport depth change) := by
  refine (symbolsNamed_alike h change.symbol).lift.bind ?_
  rintro ds _ ⟨rfl, hds⟩
  cases ds with
  | nil => exact .error _
  | cons d ds =>
    refine (impactOf_alike h hc depth change.symbol hds).lift.bind fun i i' hi => ?_
    refine (consequences_alike hi.references change.change).lift.bind fun k k' hk => ?_
    refine .ok ⟨hi, hk, ?_⟩
    rw [isAutoFixable_eq hi.references hk]

end Store

/-! ## Audits -/

/-- A link that says no more than its name: it leads to the only symbol of the name among some. -/
def Redundant (ds : List Symbol) (n : String) (link : Option Int) : Prop :=
  ∃ d, ds.filter (·.name == n) = [d] ∧ link = some d.id

/-- A use, perhaps without a link that says no more than its name. -/
inductive SameUse (ds : List Symbol) : Reference → Reference → Prop where
  | same (u : Reference) : SameUse ds u u
  | cut {u : Reference} (h : Redundant ds u.target u.targetId) : SameUse ds u u.unlinked

/-- An edge, perhaps without a link to its target that says no more than its name. -/
structure SameTarget (ds : List Symbol) (e e' : Relationship) : Prop where
  edge : e'.toEdge = e.toEdge
  filePath : e'.filePath = e.filePath
  link : e'.targetId = e.targetId ∨ e'.targetId = none ∧ Redundant ds e.target e.targetId

section Audit

variable {ds : List Symbol} {us us' : List Reference} {d : Symbol}

/-- The uses that have no link, and a name that several symbols have or none, are the same. -/
theorem filter_sameUse {p : Reference → Bool} (h : List.Forall₂ (SameUse ds) us us')
    (hlinked : ∀ u, p u = true → u.targetId = none)
    (hcut : ∀ u d, ds.filter (·.name == u.target) = [d] → p u = false) :
    us.filter p = us'.filter p := by
  induction h with
  | nil => rfl
  | @cons u u' us us' hu _ ih =>
    rw [List.filter_cons, List.filter_cons, ih]
    cases hu with
    | same => rfl
    | cut h =>
      obtain ⟨d, hd, hlink⟩ := h
      have hu : ¬p u = true := fun hp => by simp [hlinked u hp] at hlink
      rw [if_neg hu, hcut u.unlinked d hd, if_neg Bool.false_ne_true]

/-- A use is one of the same symbols. -/
theorem SameUse.isOf_eq {u u' : Reference} (h : SameUse ds u u') (hnd : (ds.map (·.id)).Nodup)
    (hd : d ∈ ds) : u.isOf d = u'.isOf d := by
  cases h with
  | same => rfl
  | cut h =>
    obtain ⟨x, hx, hlink⟩ := h
    obtain ⟨hmem, hname⟩ := List.mem_filter.mp (hx ▸ List.mem_singleton_self x)
    rw [beq_iff_eq] at hname
    rw [Bool.eq_iff_iff]
    simp only [Reference.isOf, hlink, Reference.unlinked, beq_iff_eq]
    constructor
    · intro he
      rw [← List.inj_on_of_nodup_map hnd hmem hd he, hname]
    · intro hn
      have hdx : d ∈ ds.filter (·.name == u.target) := List.mem_filter.mpr ⟨hd, by simp [hn]⟩
      rw [hx, List.mem_singleton] at hdx
      rw [hdx]

theorem unusedSymbols_eq (h : List.Forall₂ (SameUse ds) us us') (hnd : (ds.map (·.id)).Nodup) :
    unusedSymbols ds us = unusedSymbols ds us' := by
  unfold unusedSymbols
  congr 1
  refine List.filter_congr fun d hd => ?_
  have hmap : us'.map (fun u => !u.isOf d || u.sourceId == some d.id) =
      us.map (fun u => !u.isOf d || u.sourceId == some d.id) := by
    refine map_eq_of_forall₂ h fun u u' _ hu => ?_
    rw [← hu.isOf_eq hnd hd]
    cases hu with
    | same => rfl
    | cut _ => rfl
  have hall : ∀ vs : List Reference, (vs.filter (·.isOf d)).all (·.sourceId == some d.id) =
      (vs.map fun u => !u.isOf d || u.sourceId == some d.id).all id := by
    intro vs
    rw [List.all_filter, List.all_map]
    rfl
  rw [isUnused, isUnused, hall, hall, hmap]

theorem undefinedReferences_eq (h : List.Forall₂ (SameUse ds) us us') (imports : List Import) :
    undefinedReferences ds imports us = undefinedReferences ds imports us' := by
  unfold undefinedReferences
  rw [filter_sameUse h]
  · intro u hu
    simp only [isUndefined, Bool.and_eq_true] at hu
    exact Option.isNone_iff_eq_none.mp hu.1.1.1
  · intro u d hd
    have hdefined : ds.any (·.name == u.target) = true := by
      obtain ⟨hmem, hname⟩ := List.mem_filter.mp (hd ▸ List.mem_singleton_self d)
      exact List.any_eq_true.mpr ⟨d, hmem, hname⟩
    simp [isUndefined, hdefined]

theorem ambiguityWarnings_eq (h : List.Forall₂ (SameUse ds) us us') :
    ambiguityWarnings ds us = ambiguityWarnings ds us' := by
  -- names with several definitions are those of uses that no choice cuts
  have hkept := filter_sameUse h (p := fun u => u.targetId.isNone &&
    decide (ds.countP (·.name == u.target) > 1)) (fun u hu => by simp_all) (fun u d hd => by
      simp [List.countP_eq_length_filter, hd])
  unfold ambiguityWarnings
  dsimp only
  congr 1
  refine filter_sortedTexts_congr fun n hn => ?_
  have hmem : ∀ vs : List Reference, n ∈ (vs.filter (·.targetId.isNone)).map (·.target) ↔
      ∃ u ∈ vs.filter (fun u => u.targetId.isNone &&
        decide (ds.countP (·.name == u.target) > 1)), u.target = n := by
    intro vs
    simp only [List.mem_map, List.mem_filter, Bool.and_eq_true]
    constructor
    · rintro ⟨u, ⟨hu, hnone⟩, rfl⟩
      exact ⟨u, ⟨hu, hnone, hn⟩, rfl⟩
    · rintro ⟨u, ⟨hu, hnone, -⟩, rfl⟩
      exact ⟨u, ⟨hu, hnone⟩, rfl⟩
  rw [hmem, hmem, hkept]

theorem SameTarget.targetOf?_eq {e e' : Relationship} (h : SameTarget ds e e')
    (hnd : (ds.map (·.id)).Nodup) : targetOf? ds e = targetOf? ds e' := by
  obtain ⟨hedge, -, hlink⟩ := h
  unfold targetOf?
  rw [hedge]
  rcases hlink with hlink | ⟨hnone, d, hd, hlink⟩
  · rw [hlink]
  · rw [hnone, hlink]
    obtain ⟨hmem, -⟩ := List.mem_filter.mp (hd ▸ List.mem_singleton_self d)
    simp only [find?_key hnd hmem, hd]

theorem typeErrors_eq {es es' : List Relationship} (h : List.Forall₂ (SameTarget ds) es es')
    (hnd : (ds.map (·.id)).Nodup) : typeErrors ds es = typeErrors ds es' := by
  unfold typeErrors
  rw [filterMap_eq_map, filterMap_eq_map _ es']
  refine congrArg _ (map_eq_of_forall₂ h fun e e' _ he => ?_).symm
  rw [← he.targetOf?_eq hnd, he.edge, he.filePath]

end Audit

namespace Store

variable {s : Store} {c : LinkChoice} {n : String} {p : Int}

/-- The symbols of a project, by path and line. -/
def ofProject (s : Store) (p : Int) : List Symbol := s.listed (·.1.projectId == p)

/-- A link in a project that leads to the only symbol of its name says no more than the name. -/
theorem redundant_of_reaches (h : s.Sound) {fileId i : Int} (hp : s.ownsFile p fileId = true)
    (hreach : s.Reaches fileId n (some i)) (hone : s.DefinedOnce n) :
    Redundant (s.ofProject p) n (some i) := by
  obtain ⟨x, hx, rfl, hxn, q, hq, hq'⟩ := hreach i rfl
  obtain rfl := h.keyed.owner_unique hq' hp
  obtain ⟨f, hf, hfx, hfp⟩ := ownsFile_iff.mp hq
  refine ⟨x.sited f.relativePath, ?_, rfl⟩
  refine hone.eq_singleton h hx hxn List.filter_sublist (fun d hd => ?_) ?_
  · simpa using (List.mem_filter.mp hd).2
  · exact List.mem_filter.mpr
      ⟨(mem_listed h.keyed).mpr ⟨f, hf, x, hx, hfx, beq_iff_eq.mpr hfp, rfl⟩, beq_iff_eq.mpr hxn⟩

theorem sameUse_cutUse (h : s.Sound) (hc : c.Definite s) {r : ReferenceRow} (hr : r ∈ s.references)
    (hp : s.ownsFile p r.fileId = true) :
    SameUse (s.ofProject p) r.toReference (c.cutUse r).toReference := by
  simp only [LinkChoice.cutUse]
  split
  · next hcut =>
    cases hlink : r.targetId with
    | none => exact hlink ▸ .same r.toReference
    | some i =>
      refine .cut (hlink ▸ redundant_of_reaches h hp ?_ (hc.uses r hr hcut))
      exact hlink ▸ h.linked.uses r hr
  · exact .same _

theorem sameTarget_cutEdge (h : s.Sound) (hc : c.Definite s) {r : RelationshipRow}
    (hr : r ∈ s.relationships) (hp : s.ownsFile p r.fileId = true) :
    SameTarget (s.ofProject p) r.toRelationship (c.cutEdge r).toRelationship := by
  refine ⟨rfl, rfl, ?_⟩
  simp only [LinkChoice.cutEdge]
  split
  · next hcut =>
    cases hlink : r.targetId with
    | none => exact .inl rfl
    | some i =>
      refine .inr ⟨rfl, redundant_of_reaches h hp ?_ (hc.targets r hr hcut)⟩
      exact hlink ▸ h.linked.targets r hr
  · exact .inl rfl

theorem referencesOf_alike (h : s.Sound) (hc : c.Definite s) (p : Int) :
    Alike (List.Forall₂ (SameUse (s.ofProject p))) (s.referencesOf p) ((s.cut c).referencesOf p) := by
  have heq : ∀ {t : Store}, t.Flawless → t.referencesOf p =
      .ok (useList (t.references.filter fun r => t.ownsFile p r.fileId)) := fun ht =>
    mapM_eq_ok fun r hr =>
      ReferenceRow.decode_eq (ht.references r (List.mem_of_mem_filter (mem_sortBy.mp hr)))
  have hrows : (s.cut c).references.filter (fun r => (s.cut c).ownsFile p r.fileId) =
      (s.references.filter fun r => s.ownsFile p r.fileId).map c.cutUse := List.filter_map
  have hsort : ∀ rows : List ReferenceRow,
      sortBy byPlace (rows.map c.cutUse) = (sortBy byPlace rows).map c.cutUse :=
    sortBy_map fun _ _ => rfl
  rw [heq h.flawless, heq (flawless_cut h.flawless c), hrows, useList, useList, hsort, List.map_map]
  refine .ok ?_
  rw [List.forall₂_map_left_iff, List.forall₂_map_right_iff, List.forall₂_same]
  intro r hr
  obtain ⟨hmem, hp⟩ := List.mem_filter.mp (mem_sortBy.mp hr)
  exact sameUse_cutUse h hc hmem hp

theorem relationshipsOf_alike (h : s.Sound) (hc : c.Definite s) (p : Int) :
    Alike (List.Forall₂ (SameTarget (s.ofProject p))) (s.relationshipsOf p)
      ((s.cut c).relationshipsOf p) := by
  rw [relationshipsOf, decodeEdges_eq h.flawless, relationshipsOf,
    decodeEdges_eq (flawless_cut h.flawless c)]
  exact .ok (forall₂_edgeList (fun _ _ => rfl) fun r hr hp => sameTarget_cutEdge h hc hr hp)

theorem symbolsOf_alike (h : s.Sound) (p : Int) :
    Alike (Same (· = s.ofProject p)) (s.symbolsOf p) ((s.cut c).symbolsOf p) := by
  refine .same fun ds hds => ?_
  rw [symbolsOf, decodeByPath_eq h] at hds
  exact (Except.ok.inj hds).symm

/-- **An audit finds the same.** -/
theorem audit_cut (h : s.Sound) (hc : c.Definite s) (rule : ImportRule) (p : Int) :
    (s.cut c).audit rule p = s.audit rule p := by
  refine (Alike.eq ?_).symm
  refine (Alike.of_eq (x := s.filesOf p) rfl).bind ?_
  rintro files _ rfl
  refine (symbolsOf_alike h p).bind ?_
  rintro _ _ ⟨rfl, rfl⟩
  refine (referencesOf_alike h hc p).bind fun us us' hus => ?_
  refine (relationshipsOf_alike h hc p).bind fun es es' hes => ?_
  refine (Alike.of_eq (x := s.importsOf p) rfl).bind ?_
  rintro imports _ rfl
  have hnd : ((s.ofProject p).map (·.id)).Nodup := listed_ids_nodup h _
  rw [unusedSymbols_eq hus hnd, undefinedReferences_eq hus, typeErrors_eq hes hnd,
    ambiguityWarnings_eq hus]
  exact .ok rfl

/-! ## Answers -/

/-- **Links and names give the same answers.** After any writes, and without any links whose names have
exactly one definition: graphs, dependencies, dependents, callers, callees and audits are the same; the
uses of a name are the same up to their links and the order of those at one file, line and column; and
so are what a change of a name touches and the report on it. -/
theorem Reachable.answers_survive_cut (h : s.Reachable) (hc : c.Definite s) :
    (∀ n depth, (s.cut c).dependencyGraph n depth = s.dependencyGraph n depth) ∧
    (∀ n, (s.cut c).dependenciesOf n = s.dependenciesOf n) ∧
    (∀ n, ((s.cut c).symbolsNamed n >>= (s.cut c).dependentsOf) =
      (s.symbolsNamed n >>= s.dependentsOf)) ∧
    (∀ n, (s.cut c).callersOf n = s.callersOf n) ∧
    (∀ n, (s.cut c).calleesOf n = s.calleesOf n) ∧
    (∀ n, ∃ us us', (s.symbolsNamed n >>= s.referencesToAll) = .ok us ∧
      ((s.cut c).symbolsNamed n >>= (s.cut c).referencesToAll) = .ok us' ∧ SameUses us us' ∧
      s.usesOf n = us.mapM s.useHit ∧ (s.cut c).usesOf n = us'.mapM s.useHit) ∧
    (∀ depth n, Alike Impact.Like (s.impact depth n) ((s.cut c).impact depth n)) ∧
    (∀ depth change, Alike ChangeReport.Like (s.changeReport depth change)
      ((s.cut c).changeReport depth change)) ∧
    ∀ rule p, (s.cut c).audit rule p = s.audit rule p := by
  have hs := h.sound
  refine ⟨dependencyGraph_cut hs hc, dependenciesOf_cut hs hc, dependentsNamed_cut hs hc,
    callersOf_cut hs hc, calleesOf_cut hs hc, fun n => ?_, impact_alike hs hc,
    changeReport_alike hs hc, audit_cut hs hc⟩
  have hlists : ∀ d ∈ s.named n, s.Lists d := fun d hd => lists_of_mem_listed hs.keyed hd
  have hus : (s.symbolsNamed n >>= s.referencesToAll) = .ok (s.usesOfAll (s.named n)) := by
    rw [symbolsNamed_eq hs]
    exact referencesToAll_eq hs.flawless _
  have hus' : ((s.cut c).symbolsNamed n >>= (s.cut c).referencesToAll) =
      .ok ((s.cut c).usesOfAll (s.named n)) := by
    have hnamed : (s.cut c).symbolsNamed n = .ok (s.named n) := symbolsNamed_eq hs n
    rw [hnamed]
    exact referencesToAll_eq (flawless_cut hs.flawless c) _
  refine ⟨_, _, hus, hus', usesOfAll_same hs hc hlists, ?_, ?_⟩
  · rw [usesOf_eq, hus]
    rfl
  · rw [usesOf_eq, hus']
    rfl

/-- All links. -/
def everyLink : LinkChoice := ⟨fun _ => true, fun _ => true, fun _ => true⟩

/-- The caller of a function in another file is found without any link. -/
theorem answers_survive_cut_crossFile :
    (run crossFile).references.map (·.targetId) = [some 1] ∧
    (run crossFile).relationships.map (fun r => (r.sourceId, r.targetId)) = [(some 2, some 1)] ∧
    everyLink.Definite (run crossFile) ∧
    ((run crossFile).cut everyLink).callersOf "f" = (run crossFile).callersOf "f" ∧
    ((run crossFile).callersOf "f").toOption.map (·.map (·.name)) = some ["g"] := by
  have hdefinite : everyLink.Definite (run crossFile) :=
    ⟨by decide +kernel, by decide +kernel, by decide +kernel⟩
  obtain ⟨-, -, -, hcallers, -⟩ := (reachable_run crossFile).answers_survive_cut hdefinite
  exact ⟨by decide +kernel, by decide +kernel, hdefinite, hcallers "f", by decide +kernel⟩

/-- A file that uses a function twice at one place. -/
def samePlace : List Write :=
  [.upsertProject 0 "/proj" "proj",
    .persist 0 1 { relativePath := "a.go" }
      { symbols := [{ name := "f" }]
        uses := [⟨.call, none, "f", none, 4, 1⟩, ⟨.use, none, "f", none, 4, 1⟩] }]

/-- The link of the first use. -/
def firstUse : LinkChoice := ⟨fun r => r.id == 1, fun _ => false, fun _ => false⟩

/-- **The order of uses at one place depends on their links.** Of two uses at one place, the one whose
link is cut comes last. -/
theorem order_lost_by_cut :
    (run samePlace).Reachable ∧ (run samePlace).projects.length = 1 ∧
    firstUse.Definite (run samePlace) ∧
    ((run samePlace).usesOf "f").toOption.map (·.map (·.kind)) = some [.use .call, .use .use] ∧
    (((run samePlace).cut firstUse).usesOf "f").toOption.map (·.map (·.kind)) =
      some [.use .use, .use .call] ∧
    ((run samePlace).cut firstUse).usesOf "f" ≠ (run samePlace).usesOf "f" := by
  have hkinds : ((run samePlace).usesOf "f").toOption.map (·.map (·.kind)) =
      some [.use .call, .use .use] := by decide +kernel
  have hcut : (((run samePlace).cut firstUse).usesOf "f").toOption.map (·.map (·.kind)) =
      some [.use .use, .use .call] := by decide +kernel
  refine ⟨reachable_run samePlace, by decide +kernel,
    ⟨by decide +kernel, by decide +kernel, by decide +kernel⟩, hkinds, hcut, fun he => ?_⟩
  rw [he, hkinds] at hcut
  exact absurd hcut (by decide)

end Store

end CodeAtlas
