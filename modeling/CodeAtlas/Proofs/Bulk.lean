import Mathlib.Algebra.GroupWithZero.Nat
import CodeAtlas.Proofs.Edits

/-!
# Several changes at once

* `Risk.isHighest_foldl`: a fold of levels of risk gives the highest of them.
* `Store.accepted?`, `Store.refused?`, `changeOutcomes_eq`: what becomes of each of several changes.
* `BulkReport.append`, `BulkReport.Sums`: reports on several changes put together, and their sums.
* `breakReason?`, `planned_broken`: which uses a change breaks, and why.
* `Objectless`, `objectless_of_canAutoFix`: nothing speaks against a change that needs no review.
* **`Reachable.bulk_consistent`**: a report on several changes is made of the reports on each, and
  changes that need no review are valid.
* `Change.mentions`, `errors_count`: how often the errors name a use that breaks.
* **`Reachable.broken_mentioned`**: once, but twice where a symbol is modified; `use_mentioned_twice`.
-/

namespace CodeAtlas

/-! ## The highest risk -/

namespace Risk

instance : Std.Associative Risk.max where
  assoc a b c := by cases a <;> cases b <;> cases c <;> rfl

/-- The highest of some levels; the lowest level if there is none. -/
structure IsHighest (risks : List Risk) (h : Risk) : Prop where
  bound : ∀ r ∈ risks, r.rank ≤ h.rank
  mem : h ∈ low :: risks

theorem max_low (a : Risk) : a.max low = a := by cases a <;> rfl

theorem max_cases (a b : Risk) : a.rank ≤ (a.max b).rank ∧ b.rank ≤ (a.max b).rank ∧
    (a.max b = a ∨ a.max b = b) := by
  cases a <;> cases b <;> decide

theorem isHighest_foldl (risks : List Risk) : IsHighest risks (risks.foldl max low) := by
  -- from any level on, that level counts as one of them
  suffices h : ∀ a, a.rank ≤ (risks.foldl max a).rank ∧
      (∀ r ∈ risks, r.rank ≤ (risks.foldl max a).rank) ∧ risks.foldl max a ∈ a :: risks from
    ⟨(h low).2.1, (h low).2.2⟩
  induction risks with
  | nil => simp
  | cons b risks ih =>
    intro a
    obtain ⟨hle, hbound, hmem⟩ := ih (a.max b)
    obtain ⟨ha, hb, hor⟩ := max_cases a b
    refine ⟨ha.trans hle, fun r hr => ?_, ?_⟩
    · rcases List.mem_cons.mp hr with rfl | hr
      · exact hb.trans hle
      · exact hbound r hr
    · rw [List.foldl_cons]
      rcases List.mem_cons.mp hmem with he | hmem
      · rcases hor with hor | hor <;> rw [he, hor] <;> simp
      · exact List.mem_cons_of_mem _ (List.mem_cons_of_mem _ hmem)

theorem foldl_append (xs ys : List Risk) :
    (xs ++ ys).foldl max low = (xs.foldl max low).max (ys.foldl max low) := by
  rw [List.foldl_append]
  conv_lhs => rw [← max_low (xs.foldl max low)]
  exact List.foldl_assoc

end Risk

theorem total_eq_sum (ns : List Nat) : total ns = ns.sum :=
  List.sum_eq_foldl.symm

/-! ## Reports put together -/

namespace BulkReport

/-- The report with some results and failures. -/
def of (results : List ChangeReport) (failures : List ChangeFailure) : BulkReport :=
  { results
    failures
    totalBroken := (results.map (·.consequences.broken.length)).sum
    totalUpdates := (results.map (·.consequences.updates.length)).sum
    highestRisk := (results.map (·.impact.risk)).foldl Risk.max .low
    canAutoFixAll := failures.isEmpty && results.all (·.canAutoFix) }

/-- The report on some changes and then on others. -/
def append (a b : BulkReport) : BulkReport :=
  { results := a.results ++ b.results
    failures := a.failures ++ b.failures
    totalBroken := a.totalBroken + b.totalBroken
    totalUpdates := a.totalUpdates + b.totalUpdates
    highestRisk := a.highestRisk.max b.highestRisk
    canAutoFixAll := a.canAutoFixAll && b.canAutoFixAll }

/-- **A report sums its results up**: in its totals, its risk, and whether no change needs a review. -/
structure Sums (b : BulkReport) : Prop where
  broken : b.totalBroken = (b.results.map (·.consequences.broken.length)).sum
  updates : b.totalUpdates = (b.results.map (·.consequences.updates.length)).sum
  risk : Risk.IsHighest (b.results.map (·.impact.risk)) b.highestRisk
  autoFix : b.canAutoFixAll = true ↔ b.failures = [] ∧ ∀ r ∈ b.results, r.canAutoFix = true

theorem of_sums (results : List ChangeReport) (failures : List ChangeFailure) :
    (of results failures).Sums :=
  ⟨rfl, rfl, Risk.isHighest_foldl _, by simp [of]⟩

theorem of_append (rs rs' : List ChangeReport) (fs fs' : List ChangeFailure) :
    of (rs ++ rs') (fs ++ fs') = (of rs fs).append (of rs' fs') := by
  have hauto : ((fs ++ fs').isEmpty && (rs ++ rs').all (·.canAutoFix)) =
      ((fs.isEmpty && rs.all (·.canAutoFix)) && (fs'.isEmpty && rs'.all (·.canAutoFix))) := by
    cases fs <;> cases fs' <;> simp
  simp only [of, append, List.map_append, List.sum_append, Risk.foldl_append, hauto]

end BulkReport

/-- The errors that speak against a change: its own, and one for each use that it breaks. -/
def ChangeReport.errors (r : ChangeReport) : List Objection :=
  r.consequences.objections.filter (·.severity == .error) ++
    (r.consequences.broken.filter (·.severity == .error)).map Store.brokenObjection

/-- Nothing speaks against a change, and it breaks no use. -/
structure ChangeReport.Objectless (r : ChangeReport) : Prop where
  objections : ∀ o ∈ r.consequences.objections, o.severity ≠ .error
  broken : r.consequences.broken = []

namespace Store

variable {s : Store} {depth : Nat} {change : SymbolChange} {r : ChangeReport}

/-! ## Outcomes -/

/-- The report on a change that can be analysed. -/
def accepted? (s : Store) (depth : Nat) (change : SymbolChange) : Option ChangeReport :=
  (s.changeReport depth change).toOption

/-- The failure of a change that cannot be analysed. -/
def refused? (s : Store) (depth : Nat) (change : SymbolChange) : Option ChangeFailure :=
  match s.changeReport depth change with
  | .ok _ => none
  | .error e => some (change.failure e)

theorem changeOutcomes_eq (s : Store) (depth : Nat) (changes : List SymbolChange) :
    s.changeOutcomes depth changes =
      (changes.filterMap (s.accepted? depth), changes.filterMap (s.refused? depth)) := by
  induction changes with
  | nil => rfl
  | cons change changes ih =>
    rw [changeOutcomes, List.foldr_cons, ← changeOutcomes, ih]
    cases h : s.changeReport depth change with
    | ok r => simp [accepted?, refused?, h, Except.toOption]
    | error e => simp [accepted?, refused?, h, Except.toOption]

theorem bulkReport_eq (s : Store) (depth : Nat) (changes : List SymbolChange) :
    s.bulkReport depth changes =
      .of (changes.filterMap (s.accepted? depth)) (changes.filterMap (s.refused? depth)) := by
  simp only [bulkReport, changeOutcomes_eq, total_eq_sum]
  rfl

/-- **Reports on several changes can be put together.** -/
theorem bulkReport_append (s : Store) (depth : Nat) (xs ys : List SymbolChange) :
    s.bulkReport depth (xs ++ ys) = (s.bulkReport depth xs).append (s.bulkReport depth ys) := by
  simp only [bulkReport_eq, List.filterMap_append, BulkReport.of_append]

/-! ## What is accepted -/

/-- On a sound store, a change is refused if nothing has its name. -/
theorem changeReport_undefined (h : s.Sound) (hn : ∀ x ∈ s.symbols, x.name ≠ change.symbol) :
    s.changeReport depth change = .error (.symbolNotFound change.symbol) := by
  unfold changeReport
  rw [symbolsNamed_eq h, (named_eq_nil_iff h).mpr hn]
  rfl

theorem isSome_accepted?_iff (h : s.Sound) :
    (s.accepted? depth change).isSome ↔ ∃ x ∈ s.symbols, x.name = change.symbol := by
  by_cases hn : ∃ x ∈ s.symbols, x.name = change.symbol
  · obtain ⟨d, ds, i, -, -, -, hr⟩ := changeReport_eq h hn depth change.change
    simp [accepted?, hr, hn, Except.toOption]
  · rw [accepted?, changeReport_undefined h (by simpa using hn)]
    simp [hn, Except.toOption]

/-- A refused change is told that nothing has its name. -/
theorem refused?_eq (h : s.Sound) : s.refused? depth change =
    if ∃ x ∈ s.symbols, x.name = change.symbol then none
    else some ⟨change.symbol, change.change.label, "symbol not found: " ++ change.symbol⟩ := by
  unfold refused?
  split_ifs with hn
  · obtain ⟨d, ds, i, -, -, -, hr⟩ := changeReport_eq h hn depth change.change
    simp [hr]
  · rw [changeReport_undefined h (by simpa using hn)]
    rfl

/-- What an accepted change has is planned from a definition and the uses in its impact. -/
theorem planned_of_changeReport (h : s.Sound) (hr : s.changeReport depth change = .ok r) :
    ∃ d, r.consequences = s.planned d r.impact.references change.change ∧
      r.canAutoFix = isAutoFixable change.change r.impact.references r.consequences := by
  by_cases hn : ∃ x ∈ s.symbols, x.name = change.symbol
  · obtain ⟨d, ds, i, -, -, -, heq⟩ := changeReport_eq h hn depth change.change
    obtain rfl := Except.ok.inj (hr.symm.trans heq)
    exact ⟨d, rfl, rfl⟩
  · rw [changeReport_undefined h (by simpa using hn)] at hr
    cases hr

/-! ## Errors -/

theorem validate_failures (s : Store) (depth : Nat) (changes : List SymbolChange) :
    (s.validate depth changes).failures = changes.filterMap (s.refused? depth) := by
  simp only [validate, changeOutcomes_eq]

theorem validate_errors (s : Store) (depth : Nat) (changes : List SymbolChange) :
    (s.validate depth changes).errors =
      (changes.filterMap (s.accepted? depth)).flatMap (·.errors) := by
  simp only [validate, changeOutcomes_eq]
  rfl

theorem validate_valid_iff (s : Store) (depth : Nat) (changes : List SymbolChange) :
    (s.validate depth changes).valid = true ↔
      (s.validate depth changes).errors = [] ∧ (s.validate depth changes).failures = [] := by
  simp only [validate, Bool.and_eq_true, List.isEmpty_iff]

section Planned

variable {d new : Symbol} {us : List Reference} {change : Change}

/-- Why a change of a symbol breaks a use of it, if it does. A deletion breaks every use, a rename none,
and a modification those in other files that are no longer allowed to see it. -/
def breakReason? (d : Symbol) (change : Change) (u : Reference) : Option String :=
  match change with
  | .delete => some ("references deleted symbol '" ++ d.name ++ "'")
  | .rename _ => none
  | .modify new =>
    if d.visibility == .visible && new.visibility != .visible && u.filePath != d.filePath then
      some ("'" ++ d.name ++ "' becomes " ++ new.visibility.label ++ " but is used from " ++ u.filePath)
    else none

/-- A use that breaks is an error. -/
def broken? (d : Symbol) (change : Change) (u : Reference) : Option BrokenReference :=
  (breakReason? d change u).map fun reason => ⟨u, reason, .error⟩

/-- **What a change breaks**, one use after the other. -/
theorem planned_broken (d : Symbol) (us : List Reference) (change : Change) :
    (s.planned d us change).broken = us.filterMap (broken? d change) := by
  cases change with
  | delete => exact (congrFun List.filterMap_eq_map us).symm
  | rename m =>
    have hnil : us.filterMap (broken? d (.rename m)) = [] :=
      List.filterMap_eq_nil_iff.mpr fun _ _ => rfl
    rw [hnil, planned]
    unfold renameConsequences
    dsimp only
    split <;> rfl
  | modify new =>
    rw [planned, modifyConsequences]
    unfold visibilityConsequences
    dsimp only
    split
    · next hhidden =>
      rw [← List.filterMap_eq_map, List.filterMap_filter]
      refine List.filterMap_congr fun u _ => ?_
      unfold broken? breakReason?
      simp only [hhidden, Bool.true_and]
      split <;> rfl
    · next hhidden =>
      refine (List.filterMap_eq_nil_iff.mpr fun u _ => ?_).symm
      unfold broken? breakReason?
      simp [Bool.eq_false_iff.mpr hhidden]

theorem eq_of_mem_broken {b : BrokenReference} (hb : b ∈ (s.planned d us change).broken) :
    breakReason? d change b.reference = some b.reason ∧ b.severity = .error := by
  rw [planned_broken] at hb
  obtain ⟨u, -, hu⟩ := List.mem_filterMap.mp hb
  obtain ⟨reason, hreason, rfl⟩ := Option.map_eq_some_iff.mp hu
  exact ⟨hreason, rfl⟩

/-- Each use breaks at most once. -/
theorem broken_sublist : ((s.planned d us change).broken.map (·.reference)).Sublist us := by
  have huse : ∀ u, (broken? d change u).map (·.reference) =
      Option.guard (fun u => (breakReason? d change u).isSome) u := by
    intro u
    rw [broken?, Option.guard]
    cases breakReason? d change u <;> rfl
  rw [planned_broken, List.map_filterMap, List.filterMap_congr fun u _ => huse u,
    List.filterMap_eq_filter]
  exact List.filter_sublist

/-- A change without review breaks no use: a deletion, since there is none, a rename in any case, and
a modification always needs review. -/
theorem broken_eq_nil_of_isAutoFixable
    (h : isAutoFixable change us (s.planned d us change) = true) :
    (s.planned d us change).broken = [] := by
  cases change with
  | delete =>
    obtain rfl := isAutoFixable_delete.mp h
    rfl
  | rename m =>
    rw [planned_broken]
    exact List.filterMap_eq_nil_iff.mpr fun _ _ => rfl
  | modify new => exact absurd h (by rw [planned, isAutoFixable_modify]; simp)

end Planned

theorem errors_eq (h : s.Sound) (hr : s.changeReport depth change = .ok r) :
    r.errors = r.consequences.objections.filter (·.severity == .error) ++
      r.consequences.broken.map brokenObjection := by
  obtain ⟨d, hk, -⟩ := planned_of_changeReport h hr
  have hsev : ∀ b ∈ r.consequences.broken, (b.severity == .error) = true := fun b hb => by
    rw [hk] at hb
    simp [(eq_of_mem_broken hb).2]
  rw [ChangeReport.errors, List.filter_eq_self.mpr hsev]

theorem errors_eq_nil_iff (h : s.Sound) (hr : s.changeReport depth change = .ok r) :
    r.errors = [] ↔ r.Objectless := by
  rw [errors_eq h hr, List.append_eq_nil_iff, List.map_eq_nil_iff]
  constructor
  · exact fun ⟨ho, hb⟩ => ⟨fun o hmem => by simpa using List.filter_eq_nil_iff.mp ho o hmem, hb⟩
  · exact fun ho => ⟨List.filter_eq_nil_iff.mpr (by simpa using ho.objections), ho.broken⟩

/-- **Nothing speaks against a change that needs no review.** -/
theorem objectless_of_canAutoFix (h : s.Sound) (hr : s.changeReport depth change = .ok r)
    (hauto : r.canAutoFix = true) : r.Objectless := by
  obtain ⟨d, hk, ha⟩ := planned_of_changeReport h hr
  rw [ha] at hauto
  constructor
  · simp only [isAutoFixable, Bool.and_eq_true] at hauto
    simpa using hauto.1.2
  · rw [hk] at hauto ⊢
    exact broken_eq_nil_of_isAutoFixable hauto

theorem exists_of_mem_accepted {changes : List SymbolChange}
    (hr : r ∈ changes.filterMap (s.accepted? depth)) :
    ∃ change ∈ changes, s.changeReport depth change = .ok r := by
  obtain ⟨change, hc, he⟩ := List.mem_filterMap.mp hr
  refine ⟨change, hc, ?_⟩
  unfold accepted? at he
  cases hreport : s.changeReport depth change with
  | ok r' => rw [hreport] at he; exact congrArg _ (Option.some.inj he)
  | error e => rw [hreport] at he; cases he

/-- Changes are valid if all are accepted and nothing speaks against any. -/
theorem valid_iff (h : s.Sound) (depth : Nat) (changes : List SymbolChange) :
    (s.validate depth changes).valid = true ↔ changes.filterMap (s.refused? depth) = [] ∧
      ∀ r ∈ changes.filterMap (s.accepted? depth), r.Objectless := by
  rw [validate_valid_iff, validate_failures, validate_errors, List.flatMap_eq_nil_iff, and_comm]
  refine and_congr_right fun _ => forall₂_congr fun r hr => ?_
  obtain ⟨change, -, hreport⟩ := exists_of_mem_accepted hr
  exact errors_eq_nil_iff h hreport

/-- **Reports on several changes are made of the reports on each.** After any writes, the changes of
names that are defined are accepted, in order, and all others refused; the report sums up what is
accepted, and reports on some changes and on others can be put together. A validation refuses the
same changes, it is passed if there are none and nothing speaks against any other, and so it is passed
if no change needs a review. -/
theorem Reachable.bulk_consistent (h : s.Reachable) (depth : Nat) (changes : List SymbolChange) :
    (s.bulkReport depth changes).results = changes.filterMap (s.accepted? depth) ∧
    (s.bulkReport depth changes).failures = changes.filterMap (s.refused? depth) ∧
    (∀ change, ((s.accepted? depth change).isSome ↔ ∃ x ∈ s.symbols, x.name = change.symbol) ∧
      s.refused? depth change = if ∃ x ∈ s.symbols, x.name = change.symbol then none
        else some ⟨change.symbol, change.change.label, "symbol not found: " ++ change.symbol⟩) ∧
    (s.bulkReport depth changes).Sums ∧
    (∀ others, s.bulkReport depth (changes ++ others) =
      (s.bulkReport depth changes).append (s.bulkReport depth others)) ∧
    (s.validate depth changes).failures = (s.bulkReport depth changes).failures ∧
    ((s.validate depth changes).valid = true ↔ (s.bulkReport depth changes).failures = [] ∧
      ∀ r ∈ (s.bulkReport depth changes).results, r.Objectless) ∧
    ((s.bulkReport depth changes).canAutoFixAll = true →
      (s.validate depth changes).valid = true) := by
  have hs := h.sound
  have hsums : (s.bulkReport depth changes).Sums := by
    rw [bulkReport_eq]
    exact BulkReport.of_sums _ _
  have hresults : (s.bulkReport depth changes).results = changes.filterMap (s.accepted? depth) := by
    rw [bulkReport_eq, BulkReport.of]
  have hfailures :
      (s.bulkReport depth changes).failures = changes.filterMap (s.refused? depth) := by
    rw [bulkReport_eq, BulkReport.of]
  have hvalid := valid_iff hs depth changes
  rw [← hresults, ← hfailures] at hvalid
  refine ⟨hresults, hfailures, fun change => ⟨isSome_accepted?_iff hs, refused?_eq hs⟩, hsums,
    bulkReport_append s depth changes, (validate_failures s depth changes).trans hfailures.symm,
    hvalid, fun hauto => ?_⟩
  obtain ⟨hnone, hall⟩ := hsums.autoFix.mp hauto
  refine hvalid.mpr ⟨hnone, fun r hr => ?_⟩
  rw [hresults] at hr
  obtain ⟨change, -, hreport⟩ := exists_of_mem_accepted hr
  exact objectless_of_canAutoFix hs hreport (hall r (hresults ▸ hr))

/-- A rename to a free name, the deletion of what nothing defines, and the deletion of what is used. -/
def mixed : List SymbolChange := [⟨"f", .rename "k"⟩, ⟨"h", .delete⟩, ⟨"f", .delete⟩]

/-- The function that is lent can be renamed, and the other changes do not stand in the way of that. -/
theorem bulk_consistent_lent :
    ((run lent).bulkReport 3 mixed).failures = [⟨"h", "delete", "symbol not found: h"⟩] ∧
    ((run lent).bulkReport 3 mixed).totalBroken = 2 ∧
    ¬ ((run lent).validate 3 mixed).valid = true ∧
    ((run lent).validate 3 (mixed.take 1)).valid = true := by
  obtain ⟨-, hfailures, hrefused, -, -, -, hvalid, -⟩ :=
    (reachable_run lent).bulk_consistent 3 mixed
  obtain ⟨-, -, -, -, -, -, -, hauto⟩ := (reachable_run lent).bulk_consistent 3 (mixed.take 1)
  have hf : ∃ x ∈ (run lent).symbols, x.name = "f" := by decide +kernel
  have hh : ¬ ∃ x ∈ (run lent).symbols, x.name = "h" := by decide +kernel
  have hone : ((run lent).bulkReport 3 mixed).failures =
      [⟨"h", "delete", "symbol not found: h"⟩] := by
    rw [hfailures]
    simp only [mixed, List.filterMap_cons, List.filterMap_nil, (hrefused _).2, if_pos hf,
      if_neg hh]
    rfl
  refine ⟨hone, by decide +kernel, fun hv => ?_, hauto (by decide +kernel)⟩
  rw [(hvalid.mp hv).1] at hone
  cases hone

end Store

/-! ## Uses that break -/

/-- An objection names a place and a reason. -/
def Objection.cites (reason file : String) (line : Nat) (o : Objection) : Bool :=
  o.message == reason && o.filePath == some file && o.line == some line

/-- A use at a place breaks for a reason. -/
def BrokenReference.cites (reason file : String) (line : Nat) (b : BrokenReference) : Bool :=
  b.reason == reason && b.reference.filePath == file && b.reference.line == line

/-- How often the errors of a change name each use that breaks. A modification objects to the use, and
then breaks it. -/
def Change.mentions : Change → Nat
  | .modify _ => 2
  | _ => 1

namespace Store

variable {s : Store} {depth : Nat} {change : SymbolChange} {r : ChangeReport} {reason file : String}
  {line : Nat}

theorem brokenObjection_cites (b : BrokenReference) :
    (brokenObjection b).cites reason file line = b.cites reason file line := by
  simp [Objection.cites, BrokenReference.cites, brokenObjection]

theorem countP_brokenObjection (bs : List BrokenReference) :
    (bs.map brokenObjection).countP (·.cites reason file line) =
      bs.countP (·.cites reason file line) := by
  rw [List.countP_map]
  exact List.countP_congr fun b _ => by rw [Function.comp_apply, brokenObjection_cites]

section Modify

variable {d new : Symbol} {us : List Reference}

/-- **A modification objects to each use that it breaks**, and to a loss of export. -/
theorem modify_objections (d new : Symbol) (us : List Reference) :
    (modifyConsequences d new us).objections.filter (·.severity == .error) =
      (modifyConsequences d new us).broken.map brokenObjection ++ exportObjections d new := by
  have hsignature :
      (signatureConsequences d new us).objections.filter (·.severity == .error) = [] := by
    unfold signatureConsequences
    split <;> rfl
  have hkind : (kindObjections d new).filter (·.severity == .error) = [] := by
    unfold kindObjections
    split <;> rfl
  have hexport : (exportObjections d new).filter (·.severity == .error) = exportObjections d new := by
    unfold exportObjections
    split <;> rfl
  have hvisibility :
      (visibilityConsequences d new us).objections.filter (·.severity == .error) =
        (visibilityConsequences d new us).broken.map brokenObjection := by
    unfold visibilityConsequences
    split
    · rw [List.map_map, List.filter_eq_self.mpr fun o ho => ?_]
      · rfl
      · obtain ⟨u, -, rfl⟩ := List.mem_map.mp ho
        rfl
    · rfl
  simp only [modifyConsequences, List.filter_append, hsignature, hkind, hexport, hvisibility,
    List.nil_append]

/-- The loss of export is named in other words than the uses. -/
theorem export_cites_false {b : BrokenReference} (hb : b ∈ (s.planned d us (.modify new)).broken)
    {o : Objection} (ho : o ∈ exportObjections d new) : o.cites b.reason file line = false := by
  obtain ⟨tail, htail⟩ : ∃ tail, b.reason = "'" ++ tail := by
    have hreason := (eq_of_mem_broken hb).1
    unfold breakReason? at hreason
    dsimp only at hreason
    split at hreason
    · exact ⟨_, by rw [← Option.some.inj hreason]; simp only [String.append_assoc]; rfl⟩
    · cases hreason
  unfold exportObjections at ho
  split at ho
  · rw [List.mem_singleton.mp ho]
    have hne : "breaking API change: '" ++ d.name ++ "' is no longer exported" ≠ "'" ++ tail := by
      intro he
      have := congrArg (fun t => t.toList.head?) he
      simp [String.toList_append] at this
    simp [Objection.cites, htail, hne]
  · cases ho

end Modify

/-- **How often the errors of a change name a use that breaks.** -/
theorem errors_count (h : s.Sound) (hr : s.changeReport depth change = .ok r)
    (hb : ∃ b ∈ r.consequences.broken, b.cites reason file line = true) :
    r.errors.countP (·.cites reason file line) =
      change.change.mentions * r.consequences.broken.countP (·.cites reason file line) := by
  obtain ⟨d, hk, -⟩ := planned_of_changeReport h hr
  rw [errors_eq h hr, List.countP_append, countP_brokenObjection]
  rw [hk] at hb ⊢
  obtain ⟨b, hmem, hcites⟩ := hb
  cases hc : change.change with
  | delete =>
    simp [Change.mentions, planned, deleteConsequences]
  | rename m =>
    rw [hc] at hmem
    cases (eq_of_mem_broken hmem).1
  | modify new =>
    rw [hc] at hmem
    have hreason : b.reason = reason := by
      simp only [BrokenReference.cites, Bool.and_eq_true, beq_iff_eq] at hcites
      exact hcites.1.1
    have hexport : (exportObjections d new).countP (·.cites reason file line) = 0 :=
      List.countP_eq_zero.mpr fun o ho => by
        rw [← hreason, export_cites_false hmem ho]
        exact Bool.false_ne_true
    rw [planned, modify_objections, List.countP_append, countP_brokenObjection, hexport,
      Change.mentions]
    omega

theorem validate_single_errors (hr : s.changeReport depth change = .ok r) :
    (s.validate depth [change]).errors = r.errors := by
  rw [validate_errors]
  simp [accepted?, hr, Except.toOption]

/-- The errors name each use that breaks once, unless a modification breaks it. -/
theorem mentioned_once_iff (h : s.Sound) (hr : s.changeReport depth change = .ok r) :
    (∀ reason file line, (∃ b ∈ r.consequences.broken, b.cites reason file line = true) →
      r.errors.countP (·.cites reason file line) =
        r.consequences.broken.countP (·.cites reason file line)) ↔
      ∀ new, change.change = .modify new → r.consequences.broken = [] := by
  constructor
  · intro hone new hnew
    refine List.eq_nil_iff_forall_not_mem.mpr fun b hb => ?_
    have hcites : ∃ b' ∈ r.consequences.broken,
        b'.cites b.reason b.reference.filePath b.reference.line = true :=
      ⟨b, hb, by simp [BrokenReference.cites]⟩
    have hpos : 0 < r.consequences.broken.countP
        (·.cites b.reason b.reference.filePath b.reference.line) := List.countP_pos_iff.mpr hcites
    have htwice := (hone _ _ _ hcites).symm.trans (errors_count h hr hcites)
    rw [hnew, Change.mentions] at htwice
    omega
  · intro hnone reason file line hb
    rw [errors_count h hr hb]
    cases hc : change.change with
    | delete => exact one_mul _
    | rename m => exact one_mul _
    | modify new =>
      obtain ⟨b, hb, -⟩ := hb
      rw [hnone new hc] at hb
      exact absurd hb List.not_mem_nil

/-- **How often a validation names a use that breaks.** After any writes, every change of a name that is
defined gives a report, in which each use breaks at most once. The errors of its validation name
whatever breaks as often as the report does where a symbol is deleted, and twice as often where it is
modified. So they name each broken use once if and only if the change is no modification or breaks
nothing. -/
theorem Reachable.broken_mentioned (h : s.Reachable)
    (hn : ∃ x ∈ s.symbols, x.name = change.symbol) (depth : Nat) :
    ∃ r, s.changeReport depth change = .ok r ∧
      (r.consequences.broken.map (·.reference)).Nodup ∧
      (∀ reason file line, (∃ b ∈ r.consequences.broken, b.cites reason file line = true) →
        (s.validate depth [change]).errors.countP (·.cites reason file line) =
          change.change.mentions * r.consequences.broken.countP (·.cites reason file line)) ∧
      ((∀ reason file line, (∃ b ∈ r.consequences.broken, b.cites reason file line = true) →
        (s.validate depth [change]).errors.countP (·.cites reason file line) =
          r.consequences.broken.countP (·.cites reason file line)) ↔
        ∀ new, change.change = .modify new → r.consequences.broken = []) := by
  have hs := h.sound
  obtain ⟨d, ds, i, -, -, hperm, hr⟩ := changeReport_eq hs hn depth change.change
  have hnodup : i.references.Nodup := hperm.nodup_iff.mpr (usesNamed_ids hs.keyed _).of_map
  refine ⟨_, hr, hnodup.sublist broken_sublist, ?_⟩
  rw [validate_single_errors hr]
  exact ⟨fun _ _ _ => errors_count hs hr, mentioned_once_iff hs hr⟩

/-- The function that is lent is no longer public. -/
def withdrawn : SymbolChange := ⟨"f", .modify { name := "f", visibility := .hidden }⟩

/-- Its first use is named twice. -/
theorem broken_mentioned_lent : ∃ r, (run lent).changeReport 3 withdrawn = .ok r ∧
    ((run lent).validate 3 [withdrawn]).errors.countP
      (·.cites "'f' becomes private but is used from b.go" "b.go" 2) =
      2 * r.consequences.broken.countP
        (·.cites "'f' becomes private but is used from b.go" "b.go" 2) := by
  have hn : ∃ x ∈ (run lent).symbols, x.name = withdrawn.symbol := by decide +kernel
  obtain ⟨r, hr, -, hcount, -⟩ := (reachable_run lent).broken_mentioned hn 3
  have hbroken : ((run lent).changeReport 3 withdrawn).toOption.map
      (fun r => r.consequences.broken.any
        (·.cites "'f' becomes private but is used from b.go" "b.go" 2)) = some true := by
    decide +kernel
  rw [hr] at hbroken
  exact ⟨r, hr, hcount _ _ _ (List.any_eq_true.mp (Option.some.inj hbroken))⟩

/-- **A use that breaks is named twice** by the validation of a modification, and once by that of a
deletion. -/
theorem use_mentioned_twice : (run lent).Reachable ∧
    ((run lent).changeReport 3 withdrawn).toOption.map (fun r => r.consequences.broken.countP
      (·.cites "'f' becomes private but is used from b.go" "b.go" 2)) = some 1 ∧
    ((run lent).validate 3 [withdrawn]).errors.countP
      (·.cites "'f' becomes private but is used from b.go" "b.go" 2) = 2 ∧
    ((run lent).changeReport 3 ⟨"f", .delete⟩).toOption.map (fun r =>
      r.consequences.broken.countP (·.cites "references deleted symbol 'f'" "b.go" 2)) = some 1 ∧
    ((run lent).validate 3 [⟨"f", .delete⟩]).errors.countP
      (·.cites "references deleted symbol 'f'" "b.go" 2) = 1 :=
  ⟨reachable_run lent, by decide +kernel, by decide +kernel, by decide +kernel, by decide +kernel⟩

end Store

end CodeAtlas
