import CodeAtlas.Change.Report
import CodeAtlas.Proofs.Affected
import CodeAtlas.Proofs.Cut
import CodeAtlas.Proofs.Direct

/-!
# What changes ask for

* `Store.planned`, `changeReport_eq`: a change of a name that is defined always gives a report.
* `Identifier`, `isAutoFixable_rename`: when a rename needs no review.
* `ChangeReport.Deletes`, `ChangeReport.Renames`, `ChangeReport.Modifies`: what a report says of each
  kind of change.
* **`Reachable.change_exact`**: these are exact for every name that is defined.
* `ChangeReport.Edits`, `ChangeReport.Completes`: the places that a rename rewrites.
* `renameReport_edits`: these are the uses and the first definition of the name.
* **`Reachable.rename_edits_exact`**: a rename rewrites all uses and the first definition;
  `definition_left_behind`: no other one.
-/

namespace CodeAtlas

/-! ## Updates -/

/-- A forced edit of a use: at its place, from one text to another. -/
structure UpdatesUse (oldText : String) (newText : Option String) (automatic : Bool) (u : Reference)
    (x : RequiredUpdate) : Prop where
  place : (x.filePath, x.line, x.column) = u.place
  oldText : x.oldText = oldText
  newText : x.newText = newText
  automatic : x.automatic = automatic

/-- A use that breaks, which is an error. -/
structure BreaksUse (u : Reference) (b : BrokenReference) : Prop where
  reference : b.reference = u
  severity : b.severity = .error

theorem forall₂_map_self {α β : Type} {R : α → β → Prop} {f : α → β} (h : ∀ a, R a (f a))
    (l : List α) : List.Forall₂ R l (l.map f) :=
  List.forall₂_map_right_iff.mpr (List.forall₂_same.mpr fun a _ => h a)

/-! ## Without review -/

/-- Names that languages accept: a letter or an underscore, and then letters, digits and
underscores. -/
def Identifier (n : String) : Prop :=
  ∃ c cs, n.toList = c :: cs ∧ (Text.isAlphabetic c = true ∨ c = '_') ∧
    ∀ x ∈ cs, Text.isAlphanumeric x = true ∨ x = '_'

theorem isIdentifier_iff {n : String} : isIdentifier n = true ↔ Identifier n := by
  unfold isIdentifier Identifier
  cases n.toList with
  | nil => simp
  | cons c cs => simp [List.all_eq_true]

section Rules

variable {d new : Symbol} {us : List Reference} {taken : List Symbol} {m : String}

/-- What follows from a rename to another name. -/
theorem renameConsequences_of_ne (hm : m ≠ d.name) : renameConsequences d m taken us =
    { objections := nameObjections m taken
      updates := us.map fun u =>
        { filePath := u.filePath
          line := u.line
          column := u.column
          description := "Rename '" ++ d.name ++ "' to '" ++ m ++ "'"
          oldText := d.name
          newText := some m
          automatic := true }
      fixes := us.map (fun u => renameFix u.filePath u.line u.column d.name m) ++
        [renameFix d.filePath d.range.startLine d.range.startColumn d.name m] } :=
  if_neg (by simpa using hm)

theorem isAutoFixable_delete :
    isAutoFixable .delete us (deleteConsequences d us) = true ↔ us = [] := by
  cases us with
  | nil => simp [isAutoFixable, deleteConsequences]
  | cons u us => simp [isAutoFixable]

theorem nameObjections_any_error :
    (nameObjections m taken).any (·.severity == .error) = (!isIdentifier m || !taken.isEmpty) := by
  unfold nameObjections
  cases isIdentifier m <;> cases taken <;> simp

/-- **A rename needs no review** if the new name is another one, an identifier, and not taken. -/
theorem isAutoFixable_rename : isAutoFixable (.rename m) us (renameConsequences d m taken us) = true ↔
    m ≠ d.name ∧ Identifier m ∧ taken = [] := by
  unfold renameConsequences
  by_cases hm : m = d.name
  · simp [isAutoFixable, hm]
  · simp [isAutoFixable, hm, nameObjections_any_error, isIdentifier_iff, renameFix]

/-- A modification always needs review, since it has no edits. -/
theorem isAutoFixable_modify :
    isAutoFixable (.modify new) us (modifyConsequences d new us) = false := by
  simp [isAutoFixable, modifyConsequences]

end Rules

/-! ## Reports -/

namespace ChangeReport

/-- **A report on a deletion**: every use breaks and has to be edited by hand, and it needs no review if
there is none. -/
structure Deletes (r : ChangeReport) (n : String) : Prop where
  broken : List.Forall₂ BreaksUse r.impact.references r.consequences.broken
  updates : List.Forall₂ (UpdatesUse n none false) r.impact.references r.consequences.updates
  autoFix : r.canAutoFix = true ↔ r.impact.references = []

/-- **A report on a rename**: it needs no review if the new name is another one, an identifier, and the
name of no symbol; every use has an update and an edit, and there is one edit more. -/
structure Renames (r : ChangeReport) (s : Store) (n m : String) : Prop where
  updates : m ≠ n →
    List.Forall₂ (UpdatesUse n (some m) true) r.impact.references r.consequences.updates
  fixes : m ≠ n → r.consequences.fixes.length = r.impact.references.length + 1
  autoFix : r.canAutoFix = true ↔ m ≠ n ∧ Identifier m ∧ ∀ x ∈ s.symbols, x.name ≠ m

/-- **A report on a modification** of a definition: where the signature changes, every call has to be
checked by hand, and it always needs review. -/
structure Modifies (r : ChangeReport) (d new : Symbol) : Prop where
  updates : d.signature ≠ new.signature →
    List.Forall₂ (UpdatesUse (d.signature.getD "") (some (new.signature.getD "")) false)
      (r.impact.references.filter (·.kind == .call)) r.consequences.updates
  unchanged : d.signature = new.signature → r.consequences.updates = []
  autoFix : r.canAutoFix = false

/-- What a report says of a change of a name, the first definition of which is given. -/
def Exact (r : ChangeReport) (s : Store) (n : String) (d : Symbol) : Change → Prop
  | .delete => r.Deletes n
  | .rename m => r.Renames s n m
  | .modify new => r.Modifies d new

end ChangeReport

/-- A read of the store that gives a value gives it in a question, too. -/
@[simp] theorem liftM_ok {α : Type} (a : α) : (liftM (.ok a : StoreM α) : LookupM α) = .ok a := rfl

namespace Store

variable {s : Store} {n m : String} {d : Symbol} {ds : List Symbol} {us : List Reference}

/-- What follows from a change in a store that is read without errors. -/
def planned (s : Store) (d : Symbol) (us : List Reference) : Change → Consequences
  | .delete => deleteConsequences d us
  | .rename m => renameConsequences d m (if m == d.name then [] else s.named m) us
  | .modify new => modifyConsequences d new us

theorem consequences_eq (h : s.Sound) (change : Change) :
    s.consequences change d us = .ok (s.planned d us change) := by
  cases change with
  | delete => rfl
  | modify new => rfl
  | rename m =>
    unfold consequences planned
    dsimp only
    split
    · rfl
    · rw [symbolsNamed_eq h]
      rfl

/-- The uses in the impact of a name are the uses of the name. -/
theorem Exact.references_perm {near : ReferenceRow → FileRow → Prop} {depth : Nat} {i : Impact}
    (hi : s.Exact near (s.named n) depth i) (h : s.Sound) (hn : ∃ r ∈ s.symbols, r.name = n) :
    i.references.Perm (s.usesNamed n) := by
  refine (List.perm_ext_iff_of_nodup hi.usesOnce.of_map (usesNamed_ids h.keyed n).of_map).mpr
    fun u => ?_
  rw [hi.uses, ← mem_usesOfAll h]
  exact (usesOfAll_named_perm h hn).mem_iff

/-- **A change of a name that is defined gives a report** on its first definition and all its uses. -/
theorem changeReport_eq (h : s.Sound) (hn : ∃ r ∈ s.symbols, r.name = n) (depth : Nat)
    (change : Change) : ∃ d ds i, s.named n = d :: ds ∧ d.name = n ∧
      i.references.Perm (s.usesNamed n) ∧
      s.changeReport depth ⟨n, change⟩ = .ok
        { change := ⟨n, change⟩
          impact := i
          consequences := s.planned d i.references change
          canAutoFix := isAutoFixable change i.references (s.planned d i.references change) } := by
  obtain ⟨d, ds, hnamed, -⟩ := exists_root h hn
  have hd : d ∈ s.named n := by rw [hnamed]; exact List.mem_cons_self
  obtain ⟨i, hi, hexact⟩ := impactOf_exact h (fun e he => shown_of_mem_named h he) depth n
  refine ⟨d, ds, i, hnamed, name_of_mem_named h.keyed hd, hexact.references_perm h hn, ?_⟩
  rw [hnamed] at hi
  unfold changeReport
  rw [symbolsNamed_eq h, hnamed]
  simp only [bind, Except.bind, liftM_ok, hi, consequences_eq h]
  rfl

theorem named_eq_nil_iff (h : s.Sound) : s.named n = [] ↔ ∀ x ∈ s.symbols, x.name ≠ n := by
  rw [List.eq_nil_iff_forall_not_mem]
  constructor
  · intro hnone x hx hxn
    obtain ⟨d, hd, -⟩ := exists_mem_named h hx hxn
    exact hnone d hd
  · intro hnone d hd
    obtain ⟨-, -, x, hx, -, hxn, -⟩ := (mem_named h.keyed).mp hd
    exact hnone x hx hxn

/-! ## Exact reports -/

section Reports

variable {r : ChangeReport}

theorem deletes_of_eq (hk : r.consequences = deleteConsequences d r.impact.references)
    (hauto : r.canAutoFix = isAutoFixable .delete r.impact.references r.consequences) :
    r.Deletes d.name where
  broken := by
    rw [hk]
    exact forall₂_map_self (fun _ => ⟨rfl, rfl⟩) _
  updates := by
    rw [hk]
    exact forall₂_map_self (fun _ => ⟨rfl, rfl, rfl, rfl⟩) _
  autoFix := by
    rw [hauto, hk]
    exact isAutoFixable_delete

theorem renames_of_eq (h : s.Sound)
    (hk : r.consequences =
      renameConsequences d m (if m == d.name then [] else s.named m) r.impact.references)
    (hauto : r.canAutoFix = isAutoFixable (.rename m) r.impact.references r.consequences) :
    r.Renames s d.name m where
  updates hm := by
    rw [hk, renameConsequences_of_ne hm]
    exact forall₂_map_self (fun _ => ⟨rfl, rfl, rfl, rfl⟩) _
  fixes hm := by
    rw [hk, renameConsequences_of_ne hm, List.length_append, List.length_map, List.length_singleton]
  autoFix := by
    rw [hauto, hk, isAutoFixable_rename, ← named_eq_nil_iff h]
    refine and_congr_right fun hm => ?_
    rw [if_neg (by simpa using hm)]

theorem modifies_of_eq {new : Symbol}
    (hk : r.consequences = modifyConsequences d new r.impact.references)
    (hauto : r.canAutoFix = isAutoFixable (.modify new) r.impact.references r.consequences) :
    r.Modifies d new where
  updates hsig := by
    rw [hk, modifyConsequences, signatureConsequences, if_neg (by simpa using hsig)]
    exact forall₂_map_self (fun _ => ⟨rfl, rfl, rfl, rfl⟩) _
  unchanged hsig := by
    rw [hk, modifyConsequences, signatureConsequences, if_pos (by simpa using hsig)]
  autoFix := by
    rw [hauto, hk]
    exact isAutoFixable_modify

/-- **What changes ask for is exact.** After any writes, every change of a name that is defined gives a
report, the impact of which holds the uses of the name, each once. A deletion breaks all of them and
needs no review if there is none; a rename updates all of them without review if the new name is free;
and a modification has its calls checked by hand if the signature of the first definition changes. -/
theorem Reachable.change_exact (h : s.Reachable) (hn : ∃ r ∈ s.symbols, r.name = n) (depth : Nat)
    (change : Change) :
    ∃ d ds r, s.symbolsNamed n = .ok (d :: ds) ∧ s.changeReport depth ⟨n, change⟩ = .ok r ∧
      r.impact.references.Perm ((s.references.filter (·.target == n)).map (·.toReference)) ∧
      r.Exact s n d change := by
  have hs := h.sound
  obtain ⟨d, ds, i, hnamed, rfl, hperm, hr⟩ := changeReport_eq hs hn depth change
  refine ⟨d, ds, _, by rw [symbolsNamed_eq hs, hnamed], hr, hperm, ?_⟩
  cases change with
  | delete => exact deletes_of_eq rfl rfl
  | rename m => exact renames_of_eq hs rfl rfl
  | modify new => exact modifies_of_eq rfl rfl

/-- A function in one file that a function in another one calls. -/
def lent : List Write :=
  [.upsertProject 0 "/p" "p",
    .persist 0 1 { relativePath := "a.go" }
      { symbols := [{ name := "f", range := { startLine := 1, endLine := 2 } }] },
    .persist 0 1 { relativePath := "b.go" }
      { symbols := [{ name := "g", range := { startLine := 1, endLine := 4 } }]
        uses := [⟨.call, some "g", "f", none, 2, 3⟩, ⟨.use, some "g", "f", none, 3, 3⟩] }]

/-- It is renamed to a free name without review, and not to one that is taken. -/
theorem change_exact_lent : ∃ r r', (run lent).changeReport 3 ⟨"f", .rename "k"⟩ = .ok r ∧
    r.canAutoFix = true ∧ r.consequences.fixes.length = 3 ∧
    (run lent).changeReport 3 ⟨"f", .rename "g"⟩ = .ok r' ∧ ¬ r'.canAutoFix = true := by
  have hn : ∃ r ∈ (run lent).symbols, r.name = "f" := by decide +kernel
  have huses : ((run lent).references.filter (·.target == "f")).length = 2 := by decide +kernel
  obtain ⟨_, _, r, -, hr, hperm, hexact⟩ :=
    (reachable_run lent).change_exact hn 3 (.rename "k")
  obtain ⟨_, _, r', -, hr', -, hexact'⟩ :=
    (reachable_run lent).change_exact hn 3 (.rename "g")
  have hfree : ∀ x ∈ (run lent).symbols, x.name ≠ "k" := by decide +kernel
  have htaken : ∃ x ∈ (run lent).symbols, x.name = "g" := by decide +kernel
  refine ⟨r, r', hr, ?_, ?_, hr', fun hauto => ?_⟩
  · exact hexact.autoFix.mpr ⟨by decide, isIdentifier_iff.mp (by decide +kernel), hfree⟩
  · rw [hexact.fixes (by decide), hperm.length_eq, List.length_map, huses]
  · obtain ⟨-, -, hfree'⟩ := hexact'.autoFix.mp hauto
    obtain ⟨x, hx, hxg⟩ := htaken
    exact hfree' x hx hxg

end Reports

end Store

/-! ## Complete renames -/

/-- The place of a declaration: its path, line and column. -/
def Symbol.site (d : Symbol) : String × Nat × Nat :=
  (d.filePath, d.range.startLine, d.range.startColumn)

/-- A report offers to put a new name in the place of an old one somewhere. -/
def ChangeReport.Edits (r : ChangeReport) (n m : String) (place : String × Nat × Nat) : Prop :=
  renameFix place.1 place.2.1 place.2.2 n m ∈ r.consequences.fixes

/-- **A rename is complete**: it rewrites every use in its impact and every definition. -/
structure ChangeReport.Completes (r : ChangeReport) (n m : String) (ds : List Symbol) : Prop where
  uses : ∀ u ∈ r.impact.references, r.Edits n m u.place
  definitions : ∀ d ∈ ds, r.Edits n m d.site

theorem renameFix_inj (place place' : String × Nat × Nat) {n m : String} :
    renameFix place.1 place.2.1 place.2.2 n m = renameFix place'.1 place'.2.1 place'.2.2 n m ↔
      place = place' := by
  constructor
  · intro he
    obtain ⟨hpath, hline, hcolumn, -⟩ := Fix.mk.inj he
    exact Prod.ext hpath (Prod.ext hline hcolumn)
  · rintro rfl
    rfl

namespace Store

variable {s : Store} {n m : String}

/-- The edits of a rename to another name are at the uses and at the definition that is given. -/
theorem edits_iff {r : ChangeReport} {d : Symbol} {taken : List Symbol} (hm : m ≠ d.name)
    (hk : r.consequences = renameConsequences d m taken r.impact.references)
    {place : String × Nat × Nat} : r.Edits d.name m place ↔
      (∃ u ∈ r.impact.references, u.place = place) ∨ d.site = place := by
  rw [ChangeReport.Edits, hk, renameConsequences_of_ne hm, List.mem_append, List.mem_map,
    List.mem_singleton]
  refine or_congr (exists_congr fun u => and_congr_right fun _ => ?_) ?_
  · exact renameFix_inj u.place place
  · exact (renameFix_inj place d.site).trans eq_comm

/-- A rename of a name that is defined gives a report that edits its uses and its first definition, and
needs no review if the new name is free. -/
theorem renameReport_edits (h : s.Sound) (hn : ∃ r ∈ s.symbols, r.name = n) (depth : Nat)
    (m : String) : ∃ d ds r, s.named n = d :: ds ∧
      s.changeReport depth ⟨n, .rename m⟩ = .ok r ∧
      r.impact.references.Perm (s.usesNamed n) ∧
      (r.canAutoFix = true ↔ m ≠ n ∧ Identifier m ∧ ∀ x ∈ s.symbols, x.name ≠ m) ∧
      (m ≠ n → ∀ place, r.Edits n m place ↔
        (∃ u ∈ r.impact.references, u.place = place) ∨ d.site = place) := by
  obtain ⟨d, ds, i, hnamed, rfl, hperm, hr⟩ := changeReport_eq h hn depth (.rename m)
  exact ⟨d, ds, _, hnamed, hr, hperm, (renames_of_eq h rfl rfl).autoFix, fun hm _ => edits_iff hm rfl⟩

/-- **A rename without review rewrites all uses and the first definition**, and nothing else. After any
writes, it rewrites every use in its impact, which are the uses of the name, each once, and the first
definition of the name. So it is complete exactly if every other definition stands at one of these
places; in particular, where the name has one definition. -/
theorem Reachable.rename_edits_exact (h : s.Reachable) (hn : ∃ r ∈ s.symbols, r.name = n)
    (depth : Nat) (m : String) :
    ∃ d ds r, s.symbolsNamed n = .ok (d :: ds) ∧ s.changeReport depth ⟨n, .rename m⟩ = .ok r ∧
      r.impact.references.Perm ((s.references.filter (·.target == n)).map (·.toReference)) ∧
      (r.canAutoFix = true →
        (∀ place, r.Edits n m place ↔
          (∃ u ∈ r.impact.references, u.place = place) ∨ d.site = place) ∧
        (r.Completes n m (d :: ds) ↔
          ∀ e ∈ ds, (∃ u ∈ r.impact.references, u.place = e.site) ∨ d.site = e.site) ∧
        (s.DefinedOnce n → r.Completes n m (d :: ds))) := by
  have hs := h.sound
  obtain ⟨d, ds, r, hnamed, hr, hperm, hfree, hplaces⟩ := renameReport_edits hs hn depth m
  refine ⟨d, ds, r, by rw [symbolsNamed_eq hs, hnamed], hr, hperm, fun hauto => ?_⟩
  have hedits := hplaces (hfree.mp hauto).1
  have hcomplete : r.Completes n m (d :: ds) ↔
      ∀ e ∈ ds, (∃ u ∈ r.impact.references, u.place = e.site) ∨ d.site = e.site := by
    constructor
    · exact fun hc e he => (hedits _).mp (hc.definitions e (List.mem_cons_of_mem _ he))
    · intro hall
      refine ⟨fun u hu => (hedits _).mpr (Or.inl ⟨u, hu, rfl⟩), fun e he => (hedits _).mpr ?_⟩
      rcases List.mem_cons.mp he with rfl | he
      · exact Or.inr rfl
      · exact hall e he
  refine ⟨hedits, hcomplete, fun hone => hcomplete.mpr fun e he => ?_⟩
  obtain ⟨x, hx, -⟩ := named_of_definedOnce hs hone
  rw [hnamed] at hx
  rw [(List.cons.inj hx).2] at he
  exact absurd he List.not_mem_nil

/-- The function that is lent has one definition, and its rename is complete. -/
theorem rename_edits_exact_lent : ∃ d r, (run lent).symbolsNamed "f" = .ok [d] ∧
    (run lent).changeReport 3 ⟨"f", .rename "k"⟩ = .ok r ∧ r.canAutoFix = true ∧
    r.Completes "f" "k" [d] := by
  have hn : ∃ r ∈ (run lent).symbols, r.name = "f" := by decide +kernel
  have hone : (run lent).DefinedOnce "f" := by decide +kernel
  obtain ⟨d, ds, r, hd, hr, -, hedits⟩ := (reachable_run lent).rename_edits_exact hn 3 "k"
  have hnone : ((run lent).symbolsNamed "f").toOption.map (·.length) = some 1 := by decide +kernel
  have hauto : ((run lent).changeReport 3 ⟨"f", .rename "k"⟩).toOption.map (·.canAutoFix) =
      some true := by decide +kernel
  rw [hd] at hnone
  rw [hr] at hauto
  obtain rfl : ds = [] := by simpa [Except.toOption] using hnone
  have hauto : r.canAutoFix = true := Option.some.inj hauto
  exact ⟨d, r, hd, hr, hauto, (hedits hauto).2.2 hone⟩

/-- Two files that define a function of the same name and call it. -/
def twice : List Write :=
  [.upsertProject 0 "/p" "p",
    .persist 0 1 { relativePath := "a.go" }
      { symbols := [{ name := "f", range := { startLine := 1, endLine := 2 } },
          { name := "g", range := { startLine := 4, endLine := 6 } }]
        uses := [⟨.call, some "g", "f", none, 5, 2⟩] },
    .persist 0 1 { relativePath := "b.go" }
      { symbols := [{ name := "f", range := { startLine := 1, endLine := 2 } },
          { name := "h", range := { startLine := 4, endLine := 6 } }]
        uses := [⟨.call, some "h", "f", none, 5, 2⟩] }]

/-- **A definition is left under its old name** by a rename without review, while its use is rewritten:
of two definitions of a name, the second one. -/
theorem definition_left_behind : (run twice).Reachable ∧ ∃ d e r,
    (run twice).symbolsNamed "f" = .ok [d, e] ∧
    (run twice).changeReport 3 ⟨"f", .rename "k"⟩ = .ok r ∧ r.canAutoFix = true ∧
    (∃ u ∈ r.impact.references, u.targetId = some e.id ∧ r.Edits "f" "k" u.place) ∧
    ¬ r.Edits "f" "k" e.site ∧ ¬ r.Completes "f" "k" [d, e] := by
  have hreach := reachable_run twice
  have hn : ∃ r ∈ (run twice).symbols, r.name = "f" := by decide +kernel
  obtain ⟨d, ds, r, hnamed, hr, hperm, hfree, hplaces⟩ :=
    renameReport_edits hreach.sound hn 3 "k"
  have hedits := hplaces (by decide)
  have hauto : r.canAutoFix = true :=
    hfree.mpr ⟨by decide, isIdentifier_iff.mp (by decide +kernel), by decide +kernel⟩
  -- the two definitions, and the two uses
  have hsites : ((run twice).named "f").map (fun e => (e.id, e.site)) =
      [(1, "a.go", 1, 0), (3, "b.go", 1, 0)] := by decide +kernel
  have huses : ((run twice).usesNamed "f").map (fun u => (u.targetId, u.place)) =
      [(some 1, "a.go", 5, 2), (some 3, "b.go", 5, 2)] := by decide +kernel
  have hmem : ∀ y, y ∈ r.impact.references.map (fun u => (u.targetId, u.place)) ↔
      y ∈ [(some 1, "a.go", 5, 2), (some 3, "b.go", 5, 2)] := fun y => by
    rw [(hperm.map _).mem_iff, huses]
  rw [hnamed] at hsites
  obtain ⟨e, rfl⟩ : ∃ e, ds = [e] :=
    List.length_eq_one_iff.mp (by simpa using congrArg List.length hsites)
  obtain ⟨⟨-, hd⟩, hid, he⟩ : (d.id = 1 ∧ d.site = ("a.go", 1, 0)) ∧ e.id = 3 ∧
      e.site = ("b.go", 1, 0) := by simpa using hsites
  obtain ⟨u, hu, hplace⟩ := List.mem_map.mp ((hmem (some 3, "b.go", 5, 2)).mpr (by simp))
  obtain ⟨htarget, -⟩ := Prod.mk.inj hplace
  -- the second definition is at none of the places that are rewritten
  have hleft : ¬ r.Edits "f" "k" e.site := by
    rw [hedits, he, hd]
    rintro (⟨v, hv, hsite⟩ | hsite)
    · have := (hmem _).mp (List.mem_map_of_mem hv)
      simp [hsite] at this
    · exact absurd hsite (by decide)
  exact ⟨hreach, d, e, r, by rw [symbolsNamed_eq hreach.sound, hnamed], hr, hauto,
    ⟨u, hu, by rw [htarget, hid], (hedits _).mpr (Or.inl ⟨u, hu, rfl⟩)⟩, hleft,
    fun hc => hleft (hc.definitions e (by simp))⟩

end Store

end CodeAtlas
