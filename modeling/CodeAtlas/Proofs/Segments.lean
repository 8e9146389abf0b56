import Mathlib.Data.List.Infix
import Mathlib.Data.List.TakeWhile
import Mathlib.Tactic.Common
import CodeAtlas.Text.Segment

/-!
# Segments and affixes

* `Text.splitBy_eq_splitOnP`, `Text.segments_eq_splitOn`: pieces are those of the library.
* `Text.segments_append`: a slash splits a text into the segments on its two sides.
* `Text.segments_intercalate`, `Text.intercalate_segments`: segments can be put together again.
* `Text.stripStart?_eq_some`, `Text.stripEnd?_eq_some`: what is left of a text without an affix.
* `Text.startsWith_iff`, `Text.endsWith_iff`, `Text.contains_iff`: affixes as relations of lists.
* `Text.splitLast?_append`, `Text.exists_last`: the last separator of a text.
* **`Text.segments_suffix_iff`**: the segments of a text end with those of another if the text ends with
  it, with nothing or a slash in front.
* **`Text.segments_before_iff`**: they hold those of another, and more behind them, if the text holds it
  with a slash behind it, and with nothing or a slash in front.
-/

namespace CodeAtlas.Text

/-! ## Pieces -/

section Pieces

variable {α : Type} {p : α → Bool}

theorem splitBy_eq_splitOnP (p : α → Bool) (s : List α) : splitBy p s = s.splitOnP p := by
  induction s with
  | nil => rfl
  | cons c s ih =>
    rw [splitBy, ih, List.splitOnP_cons_eq_if_modifyHead]
    split
    · rfl
    · obtain ⟨r, rs, h⟩ := List.exists_cons_of_ne_nil (List.splitOnP_ne_nil p s)
      rw [h, List.modifyHead_cons]

/-- No piece holds a separator. -/
theorem not_of_mem_splitBy {s piece : List α} (h : piece ∈ splitBy p s) : ∀ c ∈ piece, p c = false := by
  induction s generalizing piece with
  | nil =>
    rw [splitBy, List.mem_singleton] at h
    simp [h]
  | cons d s ih =>
    rw [splitBy] at h
    split at h
    · rcases List.mem_cons.mp h with rfl | h
      · simp
      · exact ih h
    · next hd =>
      split at h
      · rw [List.mem_singleton.mp h]
        simpa using hd
      · next r rs hs =>
        rw [hs] at ih
        rcases List.mem_cons.mp h with rfl | h
        · intro c hc
          rcases List.mem_cons.mp hc with rfl | hc
          · simpa using hd
          · exact ih List.mem_cons_self c hc
        · exact ih (List.mem_cons_of_mem _ h)

end Pieces

/-! ## Segments -/

theorem segments_eq_splitOn (s : List Char) : segments s = s.splitOn '/' :=
  splitBy_eq_splitOnP _ s

theorem segments_ne_nil (s : List Char) : segments s ≠ [] := by
  rw [segments_eq_splitOn]
  exact List.splitOn_ne_nil _ s

theorem segments_append (a b : List Char) : segments (a ++ '/' :: b) = segments a ++ segments b := by
  simp only [segments_eq_splitOn]
  exact List.splitOn_append_cons_self ..

theorem segments_eq_singleton {s : List Char} (h : '/' ∉ s) : segments s = [s] := by
  rw [segments_eq_splitOn]
  exact List.splitOn_eq_singleton h

theorem noSlash_of_mem_segments {s piece : List Char} (h : piece ∈ segments s) : '/' ∉ piece :=
  fun hmem => by simpa using not_of_mem_splitBy h '/' hmem

theorem intercalate_append {xs ys : List (List Char)} (hx : xs ≠ []) (hy : ys ≠ []) :
    List.intercalate ['/'] (xs ++ ys) =
      List.intercalate ['/'] xs ++ '/' :: List.intercalate ['/'] ys := by
  induction xs with
  | nil => exact absurd rfl hx
  | cons x xs ih =>
    cases xs with
    | nil =>
      rw [List.singleton_append, List.intercalate_cons_of_ne_nil hy, List.intercalate_singleton]
      simp
    | cons x' xs =>
      rw [List.cons_append, List.intercalate_cons_of_ne_nil (by simp), ih (List.cons_ne_nil _ _),
        List.intercalate_cons_cons]
      simp

/-- Segments with slashes between them have these segments. -/
theorem segments_intercalate {ps : List (List Char)} (hne : ps ≠ []) (h : ∀ p ∈ ps, '/' ∉ p) :
    segments (List.intercalate ['/'] ps) = ps := by
  rw [segments_eq_splitOn]
  exact List.splitOn_intercalate '/' h hne

/-- A text is its segments with slashes between them. -/
theorem intercalate_segments (s : List Char) : List.intercalate ['/'] (segments s) = s := by
  rw [segments_eq_splitOn]
  exact List.intercalate_splitOn '/'

/-! ## Affixes -/

section Affixes

variable {p s r : List Char}

theorem stripStart?_eq_some : stripStart? p s = some r ↔ s = p ++ r := by
  induction p generalizing s with
  | nil => simp [stripStart?]
  | cons c p ih =>
    cases s with
    | nil => simp [stripStart?]
    | cons d s =>
      rw [stripStart?]
      split
      · next h => simp [h, ih]
      · next h =>
        refine iff_of_false (by simp) fun he => ?_
        exact h (List.cons.inj he).1.symm

theorem stripEnd?_eq_some : stripEnd? p s = some r ↔ s = r ++ p := by
  rw [stripEnd?, Option.map_eq_some_iff]
  constructor
  · rintro ⟨a, ha, rfl⟩
    rw [← List.reverse_reverse s, stripStart?_eq_some.mp ha]
    simp
  · rintro rfl
    exact ⟨r.reverse, stripStart?_eq_some.mpr (by simp), List.reverse_reverse r⟩

theorem startsWith_iff : startsWith p s = true ↔ p <+: s := by
  rw [startsWith, Option.isSome_iff_exists]
  simp only [stripStart?_eq_some]
  exact exists_congr fun r => eq_comm

theorem endsWith_iff : endsWith p s = true ↔ p <:+ s := by
  rw [endsWith, Option.isSome_iff_exists]
  simp only [stripEnd?_eq_some]
  exact exists_congr fun r => eq_comm

theorem contains_iff : contains p s = true ↔ p <:+: s := by
  induction s with
  | nil => rw [contains, startsWith_iff, List.prefix_nil, List.infix_nil]
  | cons c s ih => rw [contains, Bool.or_eq_true, startsWith_iff, ih, List.infix_cons_iff]

/-- A list without a character at its end, and with it once, starts the list with it once more. -/
theorem dropTail_append_prefix (c : Char) (s : List Char) :
    dropTail (· == c) s ++ [c] <+: s ++ [c] := by
  obtain ⟨tail, hs, hall⟩ : ∃ tail, s = dropTail (· == c) s ++ tail ∧ ∀ d ∈ tail, d = c := by
    refine ⟨(s.reverse.takeWhile (· == c)).reverse, ?_, fun d hd => ?_⟩
    · rw [dropTail, ← List.reverse_append, List.takeWhile_append_dropWhile, List.reverse_reverse]
    · simpa using List.mem_takeWhile_imp (List.mem_reverse.mp hd)
  cases tail with
  | nil =>
    rw [List.append_nil] at hs
    exact ⟨[], by rw [← hs, List.append_nil]⟩
  | cons d tail =>
    have hd : d = c := hall d List.mem_cons_self
    subst hd
    refine ⟨tail ++ [d], ?_⟩
    nth_rewrite 2 [hs]
    simp

end Affixes

/-! ## The last separator -/

section Last

variable {α : Type} {c : α}

/-- A list has no separator, or a last one. -/
theorem exists_last (c : α) (s : List α) : c ∉ s ∨ ∃ a b, s = a ++ c :: b ∧ c ∉ b := by
  refine or_iff_not_imp_left.mpr fun h => ?_
  obtain ⟨b, a, he, hb⟩ := List.eq_append_cons_of_mem (List.mem_reverse.mpr (not_not.mp h))
  exact ⟨a.reverse, b.reverse, by simpa using congrArg List.reverse he, by simpa using hb⟩

variable [BEq α] [LawfulBEq α]

theorem splitLast?_append (a : List α) {b : List α} (hb : c ∉ b) :
    splitLast? (· == c) (a ++ c :: b) = some (a, b) := by
  have hpos : ∀ x ∈ b.reverse, (!(x == c)) = true := fun x hx => by
    have hne : x ≠ c := fun he => hb (he ▸ List.mem_reverse.mp hx)
    simpa using hne
  unfold splitLast?
  rw [List.span_eq_takeWhile_dropWhile, List.reverse_append, List.reverse_cons, List.append_assoc,
    List.takeWhile_append_of_pos hpos, List.dropWhile_append_of_pos hpos]
  simp

theorem splitLast?_eq_none {s : List α} (h : c ∉ s) : splitLast? (· == c) s = none := by
  have hpos : ∀ x ∈ s.reverse, (!(x == c)) = true := fun x hx => by
    have hne : x ≠ c := fun he => h (he ▸ List.mem_reverse.mp hx)
    simpa using hne
  unfold splitLast?
  rw [List.span_eq_takeWhile_dropWhile, List.dropWhile_eq_nil_iff.mpr hpos]

end Last

/-! ## Segments at the end -/

/-- **The segments of a text end with those of another** if the text is the other, or ends with it
behind a slash. -/
theorem segments_suffix_iff {s t : List Char} :
    segments t <:+ segments s ↔ s = t ∨ ∃ r, s = r ++ '/' :: t := by
  constructor
  · rintro ⟨front, hfront⟩
    have hs := intercalate_segments s
    rw [← hfront] at hs
    cases front with
    | nil => exact Or.inl (by rw [← hs, List.nil_append, intercalate_segments])
    | cons x front =>
      rw [intercalate_append (List.cons_ne_nil _ _) (segments_ne_nil t), intercalate_segments] at hs
      exact Or.inr ⟨_, hs.symm⟩
  · rintro (rfl | ⟨r, rfl⟩)
    · exact List.suffix_refl _
    · rw [segments_append]
      exact List.suffix_append _ _

/-! ## Segments before others -/

/-- **The segments of a text hold those of another before others** if the text starts with the other and
a slash, or holds it between two slashes. -/
theorem segments_before_iff {s t : List Char} :
    (∃ front back, back ≠ [] ∧ segments s = front ++ segments t ++ back) ↔
      t ++ ['/'] <+: s ∨ '/' :: t ++ ['/'] <:+: s := by
  constructor
  · rintro ⟨front, back, hback, hs⟩
    have hrest : segments t ++ back ≠ [] := List.append_ne_nil_of_right_ne_nil _ hback
    have htext := intercalate_segments s
    rw [hs, List.append_assoc] at htext
    have htail : List.intercalate ['/'] (segments t ++ back) =
        t ++ '/' :: List.intercalate ['/'] back := by
      rw [intercalate_append (segments_ne_nil t) hback, intercalate_segments]
    cases front with
    | nil =>
      rw [List.nil_append, htail] at htext
      exact Or.inl ⟨List.intercalate ['/'] back, by simpa using htext⟩
    | cons x front =>
      rw [intercalate_append (List.cons_ne_nil _ _) hrest, htail] at htext
      exact Or.inr ⟨_, List.intercalate ['/'] back, by simpa using htext⟩
  · rintro (⟨r, rfl⟩ | ⟨l, r, rfl⟩)
    · refine ⟨[], segments r, segments_ne_nil r, ?_⟩
      rw [List.append_assoc, List.singleton_append, segments_append, List.nil_append]
    · refine ⟨segments l, segments r, segments_ne_nil r, ?_⟩
      have hshape : l ++ ('/' :: t ++ ['/']) ++ r = l ++ '/' :: (t ++ '/' :: r) := by simp
      rw [hshape, segments_append, segments_append, List.append_assoc]

end CodeAtlas.Text
