import CodeAtlas.Config.Pattern
import CodeAtlas.Proofs.Segments

/-!
# Patterns and segments

A pattern compares texts, but a path is only ever cut at its slashes.

* `Pattern.ofText_slash`, `Pattern.ofText_stars`, `Pattern.ofText_name`: how the forms are written.
* `Pattern.accepts_directory_iff`, `Pattern.accepts_name_iff`: which segments they ask for.
* **`matchesPattern_segments`**: so a pattern for a directory or a file matches whole segments.
-/

namespace CodeAtlas

namespace Pattern

variable {path dir : List Char}

/-! ## Writing patterns -/

theorem stripEnd?_slash_eq_none (h : dir.getLast? ≠ some '/') : Text.stripEnd? ['/'] dir = none := by
  refine Option.eq_none_iff_forall_ne_some.mpr fun r hr => h ?_
  rw [Text.stripEnd?_eq_some.mp hr, List.getLast?_concat]

/-- A text and a slash stand for a directory. -/
theorem ofText_slash (dir : List Char) : ofText (dir ++ ['/']) = .directory dir := by
  have hstrip : Text.stripEnd? ['/'] (dir ++ ['/']) = some dir := Text.stripEnd?_eq_some.mpr rfl
  unfold ofText
  rw [hstrip]

/-- So does a text between double stars. -/
theorem ofText_stars (dir : List Char) :
    ofText (['*', '*', '/'] ++ dir ++ ['/', '*', '*']) = .directory dir := by
  have hlast : (['*', '*', '/'] ++ dir ++ ['/', '*', '*']).getLast? ≠ some '/' := by
    rw [List.getLast?_append_of_ne_nil _ (List.cons_ne_nil _ _)]
    decide
  have hfront : Text.stripStart? ['*', '*', '/'] (['*', '*', '/'] ++ dir ++ ['/', '*', '*']) =
      some (dir ++ ['/', '*', '*']) := Text.stripStart?_eq_some.mpr (List.append_assoc _ _ _)
  have hback : Text.stripEnd? ['/', '*', '*'] (dir ++ ['/', '*', '*']) = some dir :=
    Text.stripEnd?_eq_some.mpr rfl
  unfold ofText
  rw [stripEnd?_slash_eq_none hlast, hfront, Option.bind_some, hback]

/-- Any other text that starts with no star stands for itself. -/
theorem ofText_name {s : List Char} (hlast : s.getLast? ≠ some '/') (hhead : s.head? ≠ some '*') :
    ofText s = .name s := by
  have hfront : Text.stripStart? ['*', '*', '/'] s = none := by
    refine Option.eq_none_iff_forall_ne_some.mpr fun r hr => hhead ?_
    rw [Text.stripStart?_eq_some.mp hr]
    rfl
  unfold ofText
  rw [stripEnd?_slash_eq_none hlast, hfront, Option.bind_none]
  dsimp only
  split
  · exact absurd rfl hhead
  · rfl

/-! ## Matching segments -/

/-- A directory is matched where its segments stand before others. -/
theorem accepts_directory_iff : (directory dir).accepts path = true ↔
    ∃ front back, back ≠ [] ∧ Text.segments path = front ++ Text.segments dir ++ back := by
  rw [accepts, Bool.or_eq_true, Text.startsWith_iff, Text.contains_iff, Text.segments_before_iff]

/-- A name is matched where its segments stand at the end. -/
theorem accepts_name_iff {name : List Char} : (Pattern.name name).accepts path = true ↔
    Text.segments name <:+ Text.segments path := by
  rw [accepts, Bool.or_eq_true, beq_iff_eq, Text.endsWith_iff, Text.segments_suffix_iff]
  exact or_congr_right (exists_congr fun r => eq_comm)

end Pattern

/-- **Patterns match whole segments.** A pattern for a directory, in either form, matches the paths that
have the segments of the directory before others. A pattern that is neither for a directory nor for an
ending matches the paths that end with its segments. -/
theorem matchesPattern_segments (p d : String) :
    (matchesPattern p (d ++ "/") = true ↔ ∃ front back, back ≠ [] ∧
      Text.segments p.toList = front ++ Text.segments d.toList ++ back) ∧
    matchesPattern p ("**/" ++ d ++ "/**") = matchesPattern p (d ++ "/") ∧
    (d.toList.getLast? ≠ some '/' → d.toList.head? ≠ some '*' →
      (matchesPattern p d = true ↔ Text.segments d.toList <:+ Text.segments p.toList)) := by
  have hslash : Pattern.ofText (d ++ "/").toList = .directory d.toList := by
    rw [String.toList_append]
    exact Pattern.ofText_slash d.toList
  have hstars : Pattern.ofText ("**/" ++ d ++ "/**").toList = .directory d.toList := by
    rw [String.toList_append, String.toList_append]
    exact Pattern.ofText_stars d.toList
  refine ⟨?_, ?_, fun hlast hhead => ?_⟩
  · rw [matchesPattern, hslash, Pattern.accepts_directory_iff]
  · rw [matchesPattern, matchesPattern, hstars, hslash]
  · rw [matchesPattern, Pattern.ofText_name hlast hhead, Pattern.accepts_name_iff]

/-- A directory is not matched by a longer name, a path that starts with a slash starts with an empty
segment, and a name with a slash is matched as two segments. -/
theorem matchesPattern_segments_vendored :
    matchesPattern "src/targets.rs" "target/" = false ∧
    matchesPattern "/a.go" "/" = true ∧
    "cmd/gen.go".toList.getLast? ≠ some '/' ∧ "cmd/gen.go".toList.head? ≠ some '*' ∧
    matchesPattern "tools/cmd/gen.go" "cmd/gen.go" = true := by
  have hlast : "cmd/gen.go".toList.getLast? ≠ some '/' := by decide
  have hhead : "cmd/gen.go".toList.head? ≠ some '*' := by decide
  refine ⟨by decide, ?_, hlast, hhead, ?_⟩
  · exact (matchesPattern_segments "/a.go" "").1.mpr
      ⟨[], ["a.go".toList], List.cons_ne_nil _ _, by decide⟩
  · exact ((matchesPattern_segments "tools/cmd/gen.go" "cmd/gen.go").2.2 hlast hhead).mpr
      ⟨["tools".toList], by decide⟩

end CodeAtlas
