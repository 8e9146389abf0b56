import Mathlib.Data.List.Basic
import Mathlib.Tactic.Common
import CodeAtlas.Store.Search

/-!
# Terms of a search text

* `Text.MaximalRuns`: a list cut into gaps and runs, where each run goes as far as it can.
* **`Text.maximalRuns_iff`**: there is one way to cut a list, which `Text.runs` finds.
* `maximalRuns_quotedTerms`: the runs of terms in quotes are the terms.
* **`matchExpression_quotes_terms`**: the expression that a search text is turned into holds its terms in
  quotes and nothing else of it; it is its own expression.
* `Store.searchSymbols_matchExpression`: a text and its expression find the same.
-/

namespace CodeAtlas

namespace Text

variable {α : Type} {p : α → Bool} {c : α} {s run rest : List α} {rs : List (List α)}

/-- A list cut at the elements that do not satisfy `p`. Each run is not empty, and neither what stands
before it nor what comes next would belong to it. -/
inductive MaximalRuns (p : α → Bool) : List α → List (List α) → Prop where
  | none {gap : List α} (hgap : ∀ c ∈ gap, p c = false) : MaximalRuns p gap []
  | cons {gap run rest : List α} {rs : List (List α)} (hgap : ∀ c ∈ gap, p c = false)
      (hne : run ≠ []) (hrun : ∀ c ∈ run, p c = true) (hnext : ∀ c ∈ rest.head?, p c = false)
      (hrest : MaximalRuns p rest rs) : MaximalRuns p (gap ++ run ++ rest) (run :: rs)

namespace MaximalRuns

theorem skip (hc : p c = false) (h : MaximalRuns p s rs) : MaximalRuns p (c :: s) rs := by
  cases h with
  | none hgap => exact .none (List.forall_mem_cons.mpr ⟨hc, hgap⟩)
  | @cons gap run rest rs hgap hne hrun hnext hrest =>
    have hgap' : ∀ d ∈ c :: gap, p d = false := List.forall_mem_cons.mpr ⟨hc, hgap⟩
    exact .cons hgap' hne hrun hnext hrest

/-- A first run with nothing before it. -/
theorem first (hne : run ≠ []) (hrun : ∀ c ∈ run, p c = true) (hnext : ∀ c ∈ rest.head?, p c = false)
    (hrest : MaximalRuns p rest rs) : MaximalRuns p (run ++ rest) (run :: rs) := by
  have hnil : ∀ c ∈ ([] : List α), p c = false := fun c hc => absurd hc List.not_mem_nil
  exact .cons hnil hne hrun hnext hrest

/-- One more element makes the first run longer, or is a run of its own. -/
theorem extend (hc : p c = true) (h : MaximalRuns p s rs) : ∃ rs', MaximalRuns p (c :: s) rs' := by
  have hself : ∀ d ∈ [c], p d = true := by simpa using hc
  cases h with
  | none hgap =>
    have hnext : ∀ d ∈ s.head?, p d = false := fun d hd => hgap d (List.mem_of_mem_head? hd)
    exact ⟨[[c]], first (List.cons_ne_nil c []) hself hnext (.none hgap)⟩
  | @cons gap run rest rs hgap hne hrun hnext hrest =>
    cases gap with
    | nil =>
      have hrun' : ∀ d ∈ c :: run, p d = true := List.forall_mem_cons.mpr ⟨hc, hrun⟩
      exact ⟨(c :: run) :: rs, first (List.cons_ne_nil c run) hrun' hnext hrest⟩
    | cons g gap =>
      have hg : ∀ d ∈ (g :: gap ++ run ++ rest).head?, p d = false := by
        simpa using hgap g List.mem_cons_self
      exact ⟨[c] :: run :: rs, first (List.cons_ne_nil c []) hself hg
        (.cons hgap hne hrun hnext hrest)⟩

theorem spec (h : MaximalRuns p s rs) : ∀ run ∈ rs, run ≠ [] ∧ ∀ c ∈ run, p c = true := by
  induction h with
  | none hgap => exact fun run hrun => absurd hrun List.not_mem_nil
  | cons hgap hne hrun hnext hrest ih => exact List.forall_mem_cons.mpr ⟨⟨hne, hrun⟩, ih⟩

/-- There is no run if no element satisfies `p`. -/
theorem eq_nil_iff (h : MaximalRuns p s rs) : rs = [] ↔ ∀ c ∈ s, p c = false := by
  cases h with
  | none hgap => exact iff_of_true rfl hgap
  | @cons gap run rest rs hgap hne hrun hnext hrest =>
    refine iff_of_false (List.cons_ne_nil run rs) fun hnone => ?_
    obtain ⟨c, hc⟩ := List.exists_mem_of_ne_nil run hne
    have hfalse : p c = false := hnone c (by simp [hc])
    rw [hrun c hc] at hfalse
    cases hfalse

end MaximalRuns

/-! ## Finding the runs -/

theorem runs_cons_of_not (hc : p c = false) : runs p (c :: s) = runs p s := by
  rw [runs.eq_def]
  simp [hc]

theorem runs_gap (hgap : ∀ c ∈ s, p c = false) : runs p (s ++ rest) = runs p rest := by
  induction s with
  | nil => rfl
  | cons c s ih =>
    obtain ⟨hc, hs⟩ := List.forall_mem_cons.mp hgap
    rw [List.cons_append, runs_cons_of_not hc, ih hs]

theorem runs_run (hne : run ≠ []) (hrun : ∀ c ∈ run, p c = true)
    (hnext : ∀ c ∈ rest.head?, p c = false) : runs p (run ++ rest) = run :: runs p rest := by
  induction run with
  | nil => exact absurd rfl hne
  | cons c run ih =>
    obtain ⟨hc, hrun⟩ := List.forall_mem_cons.mp hrun
    rw [List.cons_append, runs.eq_def]
    simp only [hc, if_true]
    cases run with
    | nil =>
      -- the run ends here: what comes next does not satisfy `p`
      cases rest with
      | nil => rfl
      | cons d rest => simp [hnext d rfl]
    | cons d run =>
      have hd : p d = true := hrun d List.mem_cons_self
      have htail := ih (List.cons_ne_nil d run) hrun
      rw [List.cons_append] at htail ⊢
      simp only [hd, if_true, htail]

/-- **A list can be cut into maximal runs in one way**, which is the one that is found. -/
theorem maximalRuns_iff : MaximalRuns p s rs ↔ rs = runs p s := by
  have hfound : ∀ {rs}, MaximalRuns p s rs → rs = runs p s := by
    intro rs h
    induction h with
    | @none gap hgap => rw [← List.append_nil gap, runs_gap hgap, runs]
    | cons hgap hne hrun hnext hrest ih =>
      rw [List.append_assoc, runs_gap hgap, runs_run hne hrun hnext, ih]
  have hexists : ∃ rs, MaximalRuns p s rs := by
    clear hfound
    induction s with
    | nil => exact ⟨[], .none fun c hc => absurd hc List.not_mem_nil⟩
    | cons c s ih =>
      obtain ⟨rs, h⟩ := ih
      cases hc : p c with
      | false => exact ⟨rs, h.skip hc⟩
      | true => exact h.extend hc
  refine ⟨hfound, ?_⟩
  rintro rfl
  obtain ⟨rs, h⟩ := hexists
  rwa [← hfound h]

end Text

/-! ## Terms in quotes -/

/-- A term in quotes that may be continued. -/
def quotedTerm (t : String) : String := "\"" ++ t ++ "\"*"

theorem toList_quotedTerm (t : String) :
    (quotedTerm t).toList = '"' :: (t.toList ++ ['"', '*']) := by
  rw [quotedTerm, String.toList_append, String.toList_append]
  rfl

/-- **The runs of terms in quotes are the terms**: quotes, stars and spaces belong to no term. -/
theorem maximalRuns_quotedTerms {ts : List String}
    (hts : ∀ t ∈ ts, t.toList ≠ [] ∧ ∀ c ∈ t.toList, isTermChar c = true) :
    Text.MaximalRuns isTermChar (" ".intercalate (ts.map quotedTerm)).toList
      (ts.map String.toList) := by
  have hquote : isTermChar '"' = false := by decide
  have hstar : isTermChar '*' = false := by decide
  have hspace : isTermChar ' ' = false := by decide
  have hgap : ∀ c ∈ ['"'], isTermChar c = false := by simpa using hquote
  induction ts with
  | nil => exact .none (by simp)
  | cons t ts ih =>
    obtain ⟨⟨hne, hrun⟩, hts⟩ := List.forall_mem_cons.mp hts
    cases ts with
    | nil =>
      have hend : Text.MaximalRuns isTermChar ['"', '*'] [] := .none (by simp [hquote, hstar])
      have h := Text.MaximalRuns.cons hgap hne hrun (by simpa using hquote) hend
      simpa [toList_quotedTerm] using h
    | cons u us =>
      have hend := (((ih hts).skip hspace).skip hstar).skip hquote
      have h := Text.MaximalRuns.cons hgap hne hrun (by simpa using hquote) hend
      rw [List.map_cons, String.intercalate_cons_of_ne_nil (by simp)]
      simpa [toList_quotedTerm] using h

/-! ## Terms of a text -/

variable (input : String)

theorem map_toList_queryTerms :
    (queryTerms input).map String.toList = Text.runs isTermChar input.toList := by
  rw [queryTerms, List.map_map]
  simp [Function.comp_def]

theorem queryTerms_spec :
    Text.MaximalRuns isTermChar input.toList ((queryTerms input).map String.toList) :=
  Text.maximalRuns_iff.mpr (map_toList_queryTerms input)

theorem mem_queryTerms_spec :
    ∀ t ∈ queryTerms input, t.toList ≠ [] ∧ ∀ c ∈ t.toList, isTermChar c = true :=
  fun _ ht => (queryTerms_spec input).spec _ (List.mem_map_of_mem ht)

theorem matchExpression_eq :
    matchExpression input = " ".intercalate ((queryTerms input).map quotedTerm) := rfl

/-- The terms of the expression of a text are those of the text. -/
theorem queryTerms_matchExpression : queryTerms (matchExpression input) = queryTerms input := by
  have h := maximalRuns_quotedTerms (mem_queryTerms_spec input)
  rw [← matchExpression_eq] at h
  have hmap := (Text.maximalRuns_iff.mp h).trans (map_toList_queryTerms _).symm
  exact ((List.map_inj_right fun _ _ => String.toList_inj.mp).mp hmap).symm

/-- **Of a search text only its terms reach the expression**, each in quotes and with a star, and with one
space between them. They are the maximal runs of letters, digits and underscores, and there is no other
way to cut the text into such runs. The expression is empty if there are none, and it is its own
expression. -/
theorem matchExpression_quotes_terms : ∃ terms : List String,
    matchExpression input = " ".intercalate (terms.map fun t => "\"" ++ t ++ "\"*") ∧
    (∀ t ∈ terms, t ≠ "" ∧ ∀ c ∈ t.toList, isTermChar c = true) ∧
    (∀ runs, Text.MaximalRuns isTermChar input.toList runs ↔ runs = terms.map String.toList) ∧
    (matchExpression input = "" ↔ ∀ c ∈ input.toList, isTermChar c = false) ∧
    matchExpression (matchExpression input) = matchExpression input := by
  refine ⟨queryTerms input, rfl, fun t ht => ?_, fun runs => ?_, ?_, ?_⟩
  · obtain ⟨hne, hchars⟩ := mem_queryTerms_spec input t ht
    exact ⟨fun h => hne (by rw [h]; rfl), hchars⟩
  · rw [map_toList_queryTerms, Text.maximalRuns_iff]
  · rw [← (queryTerms_spec input).eq_nil_iff, List.map_eq_nil_iff]
    constructor
    · intro hempty
      rw [← queryTerms_matchExpression, hempty]
      rfl
    · intro hnone
      rw [matchExpression_eq, hnone]
      rfl
  · rw [matchExpression_eq (matchExpression input), queryTerms_matchExpression, matchExpression_eq]

example : matchExpression "a_1-\"b\" OR c*" = "\"a_1\"* \"b\"* \"OR\"* \"c\"*" := by decide

/-- **A text and its expression find the same symbols.** -/
theorem Store.searchSymbols_matchExpression (s : Store) (limit : Nat) :
    s.searchSymbols (matchExpression input) limit = s.searchSymbols input limit := by
  unfold searchSymbols
  rw [queryTerms_matchExpression]

end CodeAtlas
