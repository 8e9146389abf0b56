import CodeAtlas.ImportPath
import CodeAtlas.Proofs.Segments

/-!
# What imports mean

* `endsAtSlash_iff`: a path ends with another if its segments end with those of the other.
* `moduleSegments`, `homeSegments`, `Matches`, `fileMatches_iff`: which files match some segments.
* `target`, `named_normalize`: the segments that an import path names.
* `Means`: the files that match the longest front of some segments that any other file matches.
* **`resolve_means`**: these are the files of an import.
* `entry_at_root_matched`: an entry file at the root stands for itself, and the root is a directory.
-/

namespace CodeAtlas.ImportPath

open Text (segments)

variable {path file importer : List Char}

theorem endsAtSlash_iff {suffix : List Char} :
    endsAtSlash path suffix = true ↔ segments suffix <:+ segments path := by
  rw [Text.segments_suffix_iff, endsAtSlash, Bool.or_eq_true, beq_iff_eq]
  refine or_congr_right ?_
  constructor
  · intro h
    cases hstrip : Text.stripEnd? suffix path with
    | none => simp [hstrip] at h
    | some head =>
      rw [hstrip] at h
      obtain ⟨r, rfl⟩ := Text.endsWith_iff.mp h
      exact ⟨r, by simpa using Text.stripEnd?_eq_some.mp hstrip⟩
  · rintro ⟨r, rfl⟩
    have hstrip : Text.stripEnd? suffix (r ++ '/' :: suffix) = some (r ++ ['/']) :=
      Text.stripEnd?_eq_some.mpr (by simp)
    rw [hstrip]
    exact Text.endsWith_iff.mpr (List.suffix_append _ _)

/-! ## Files and segments -/

/-- The segments of the directory of a file. -/
def homeSegments (file : List Char) : List (List Char) := (segments file).dropLast

/-- A file name without its extension, which starts at the last dot. In a directory, a name that has no
other dot than one at its start keeps it. -/
def bareName (nested : Bool) (name : List Char) : List Char :=
  match Text.splitLast? (· == '.') name with
  | some (bare, _) => if nested && bare.isEmpty then name else bare
  | none => name

/-- The segments of a file without its extension. -/
def bareSegments (file : List Char) : List (List Char) :=
  homeSegments file ++
    [bareName (!(homeSegments file).isEmpty) ((segments file).getLastD [])]

/-- The files that stand for their directories. -/
def entryNames : List (List Char) := ["mod".toList, "__init__".toList, "index".toList]

/-- Segments without an entry file at their end. -/
def dropEntry (ps : List (List Char)) : List (List Char) :=
  if ps.getLastD [] ∈ entryNames then ps.dropLast else ps

/-- The segments of the module of a file. An entry file stands for the directory that it is in. -/
def moduleSegments (file : List Char) : List (List Char) :=
  if homeSegments file = [] then bareSegments file else dropEntry (bareSegments file)

example : moduleSegments "src/graph/mod.rs".toList = ["src".toList, "graph".toList] := by decide

/-- **A file matches some segments**: the segments of its module end with them, or those of its
directory, if it has a name, or they end with those. -/
def Matches (file : List Char) (ps : List (List Char)) : Prop :=
  ps <:+ moduleSegments file ∨
    (homeSegments file ≠ [] ∧ homeSegments file ≠ [[]]) ∧
      (ps <:+ homeSegments file ∨ homeSegments file <:+ ps)

instance (file : List Char) (ps : List (List Char)) : Decidable (Matches file ps) := by
  unfold Matches
  infer_instance

/-! ## Segments of modules

A file is a name alone, or a name in a directory. -/

section Name

variable {home name : List Char}

theorem segments_name (h : '/' ∉ name) : segments (home ++ '/' :: name) = segments home ++ [name] := by
  rw [Text.segments_append, Text.segments_eq_singleton h]

theorem homeSegments_alone (h : '/' ∉ name) : homeSegments name = [] := by
  rw [homeSegments, Text.segments_eq_singleton h]
  rfl

theorem homeSegments_name (h : '/' ∉ name) : homeSegments (home ++ '/' :: name) = segments home := by
  rw [homeSegments, segments_name h, List.dropLast_concat]

theorem bareSegments_alone (h : '/' ∉ name) : bareSegments name = [bareName false name] := by
  rw [bareSegments, homeSegments_alone h, Text.segments_eq_singleton h]
  rfl

theorem bareSegments_name (h : '/' ∉ name) :
    bareSegments (home ++ '/' :: name) = segments home ++ [bareName true name] := by
  have hne : (segments home).isEmpty = false := by
    simpa using Text.segments_ne_nil home
  rw [bareSegments, homeSegments_name h, segments_name h, hne, Bool.not_false]
  simp

theorem bareName_noSlash (h : '/' ∉ name) (nested : Bool) : '/' ∉ bareName nested name := by
  unfold bareName
  rcases Text.exists_last '.' name with hnone | ⟨bare, extension, rfl, hext⟩
  · rw [Text.splitLast?_eq_none hnone]
    exact h
  · rw [Text.splitLast?_append _ hext]
    dsimp only
    split
    · exact h
    · exact fun hmem => h (List.mem_append_left _ hmem)

theorem stem_alone (h : '/' ∉ name) : stem name = bareName false name := by
  unfold stem bareName
  rcases Text.exists_last '.' name with hnone | ⟨bare, extension, rfl, hext⟩
  · rw [Text.splitLast?_eq_none hnone]
  · rw [Text.splitLast?_append _ hext]
    have hslash : '/' ∉ extension := fun hmem =>
      h (List.mem_append_right _ (List.mem_cons_of_mem _ hmem))
    have hend : Text.endsWith ['/'] bare = false := by
      rw [Bool.eq_false_iff, ne_eq, Text.endsWith_iff]
      exact fun hend => h (List.mem_append_left _ (hend.subset (by simp)))
    simp [hslash, hend]

/-- The stem of a file keeps its directory. -/
theorem stem_name (h : '/' ∉ name) :
    stem (home ++ '/' :: name) = home ++ '/' :: bareName true name := by
  unfold stem bareName
  rcases Text.exists_last '.' name with hnone | ⟨bare, extension, rfl, hext⟩
  · rw [Text.splitLast?_eq_none hnone]
    -- the last dot, if there is one, is in the directory, so that a slash comes after it
    rcases Text.exists_last '.' home with hhome | ⟨before, after, rfl, hafter⟩
    · rw [Text.splitLast?_eq_none (by simp [hhome, hnone])]
    · rw [List.append_assoc, List.cons_append, Text.splitLast?_append _ (by simp [hafter, hnone])]
      simp
  · have hslash : '/' ∉ extension := fun hmem =>
      h (List.mem_append_right _ (List.mem_cons_of_mem _ hmem))
    have hassoc : home ++ '/' :: (bare ++ '.' :: extension) =
        (home ++ '/' :: bare) ++ '.' :: extension := by simp
    rw [hassoc, Text.splitLast?_append _ hext, Text.splitLast?_append _ hext]
    have hend : Text.endsWith ['/'] (home ++ '/' :: bare) = bare.isEmpty := by
      rw [Bool.eq_iff_iff, Text.endsWith_iff, List.isEmpty_iff]
      constructor
      · intro hend
        by_contra hne
        have hbare : ['/'] <:+ bare :=
          List.suffix_of_suffix_length_le hend
            ((List.suffix_cons _ _).trans (List.suffix_append _ _))
            (List.length_pos_iff.mpr hne)
        exact h (List.mem_append_left _ (hbare.subset (by simp)))
      · rintro rfl
        exact List.suffix_append _ _
    cases bare <;> simp [hslash, hend]

theorem eq_of_append_slash {home' name' : List Char} (h : '/' ∉ name) (h' : '/' ∉ name')
    (he : home ++ '/' :: name = home' ++ '/' :: name') : home = home' ∧ name = name' := by
  have hlast := congrArg (Text.splitLast? (· == '/')) he
  rw [Text.splitLast?_append _ h, Text.splitLast?_append _ h'] at hlast
  exact Prod.mk.inj (Option.some.inj hlast)

/-- What is left of a file if the name of an entry is taken off. -/
theorem stripEnd?_entry {entry : List Char} (h : '/' ∉ name) (he : '/' ∉ entry) :
    Text.stripEnd? ('/' :: entry) (home ++ '/' :: name) =
      if name = entry then some home else none := by
  split
  · next hname => rw [hname, Text.stripEnd?_eq_some]
  · next hname =>
    rw [Option.eq_none_iff_forall_ne_some]
    intro r hr
    exact hname (eq_of_append_slash h he (Text.stripEnd?_eq_some.mp hr)).2

theorem stripEnd?_alone {entry : List Char} (h : '/' ∉ name) :
    Text.stripEnd? ('/' :: entry) name = none := by
  rw [Option.eq_none_iff_forall_ne_some]
  intro r hr
  rw [Text.stripEnd?_eq_some.mp hr] at h
  exact h (by simp)

theorem directoryOf_alone (h : '/' ∉ name) : directoryOf name = [] := by
  rw [directoryOf, Text.splitLast?_eq_none h]

theorem directoryOf_name (h : '/' ∉ name) : directoryOf (home ++ '/' :: name) = home := by
  rw [directoryOf, Text.splitLast?_append _ h]

end Name

/-- The segments of the module of a file. -/
theorem segments_moduleOf (file : List Char) : segments (moduleOf file) = moduleSegments file := by
  have hmod : "/mod".toList = '/' :: "mod".toList := by decide
  have hinit : "/__init__".toList = '/' :: "__init__".toList := by decide
  have hindex : "/index".toList = '/' :: "index".toList := by decide
  unfold moduleOf moduleSegments
  simp only [List.findSome?_cons, List.findSome?_nil, hmod, hinit, hindex]
  rcases Text.exists_last '/' file with halone | ⟨home, name, rfl, hname⟩
  · have hbare := bareName_noSlash halone false
    rw [stem_alone halone, if_pos (homeSegments_alone halone), bareSegments_alone halone]
    simp only [stripEnd?_alone hbare, Option.getD_none]
    exact Text.segments_eq_singleton hbare
  · have hbare := bareName_noSlash hname true
    rw [stem_name hname, if_neg (by rw [homeSegments_name hname]; exact Text.segments_ne_nil home),
      bareSegments_name hname, dropEntry, List.getLastD_concat, List.dropLast_concat]
    rw [stripEnd?_entry hbare (by decide), stripEnd?_entry hbare (by decide),
      stripEnd?_entry hbare (by decide), ← segments_name hbare]
    generalize bareName true name = bare
    simp only [entryNames, List.mem_cons, List.not_mem_nil, or_false]
    split_ifs <;> simp_all

theorem fileMatches_iff :
    fileMatches file path = true ↔ Matches file (segments path) := by
  unfold fileMatches Matches
  simp only [Bool.or_eq_true, Bool.and_eq_true, endsAtSlash_iff, segments_moduleOf]
  refine or_congr_right ?_
  rcases Text.exists_last '/' file with halone | ⟨home, name, rfl, hname⟩
  · simp [directoryOf_alone halone, homeSegments_alone halone]
  · have hhome : segments home = [[]] ↔ home = [] := by
      constructor
      · intro h
        rw [← Text.intercalate_segments home, h]
        rfl
      · rintro rfl
        rfl
    rw [directoryOf_name hname, homeSegments_name hname]
    simp [hhome, Text.segments_ne_nil]

/-! ## The segments that an import names -/

/-- The segments of a path that are not empty. -/
def named (path : List Char) : List (List Char) := (segments path).filter (!·.isEmpty)

/-- The number of dots at the start of an import path. -/
def leadingDots (path : List Char) : Nat := (path.takeWhile (· == '.')).length

/-- **The segments that an import path names.** With dots in front, it starts in a directory of the
importer: one dot is the importer's own, and each further one goes up by one, as far as the root. -/
def target (path importer : List Char) : List (List Char) :=
  let home := homeSegments importer
  let dots := leadingDots path
  let rest := modulePath (path.drop dots)
  if dots = 0 then named rest
  else if home.length + 1 < dots then []
  else (home.take (home.length + 1 - dots)).filter (!·.isEmpty) ++ named rest

theorem named_append (a b : List Char) : named (a ++ '/' :: b) = named a ++ named b := by
  rw [named, Text.segments_append, List.filter_append]
  rfl

theorem named_joinSegments {ps : List (List Char)} (h : ∀ p ∈ ps, '/' ∉ p) :
    named (joinSegments ps) = ps.filter (!·.isEmpty) := by
  cases ps with
  | nil => rfl
  | cons p ps => rw [named, joinSegments, Text.segments_intercalate (List.cons_ne_nil _ _) h]

theorem noSlash_of_mem_homeSegments {p : List Char} (h : p ∈ homeSegments file) : '/' ∉ p :=
  Text.noSlash_of_mem_segments (List.mem_of_mem_dropLast h)

theorem anchor?_eq {dots : Nat} (h : dots ≠ 0) : anchor? importer dots =
    if (homeSegments importer).length + 1 < dots then none
    else some (joinSegments
      ((homeSegments importer).take ((homeSegments importer).length + 1 - dots))) := by
  have hup : (homeSegments importer).length - (dots - 1) =
      (homeSegments importer).length + 1 - dots := by omega
  unfold anchor?
  change (if dots - 1 ≤ (homeSegments importer).length then some (joinSegments
    ((homeSegments importer).take ((homeSegments importer).length - (dots - 1)))) else none) = _
  rw [hup]
  split_ifs <;> first | rfl | omega

/-- A path, if it is not empty, with its segments; an empty one has none. -/
theorem named_getD (path : List Char) :
    ((if path.isEmpty then none else some path).map named).getD [] = named path := by
  cases path <;> rfl

/-- The path that an import means has the segments that it names; a path that names none means
nothing. -/
theorem named_normalize (path importer : List Char) :
    ((normalize path importer).map named).getD [] = target path importer := by
  unfold normalize target leadingDots
  generalize (path.takeWhile (· == '.')).length = dots
  dsimp only
  generalize modulePath (path.drop dots) = rest
  by_cases hdots : dots = 0
  · simp only [hdots, beq_self_eq_true, if_true, Option.bind_eq_bind, Option.bind_some]
    exact named_getD rest
  · rw [if_neg (by simpa using hdots), if_neg hdots, anchor?_eq hdots]
    split
    · rfl
    · generalize (homeSegments importer).length + 1 - dots = up
      have hbase : named (joinSegments ((homeSegments importer).take up)) =
          ((homeSegments importer).take up).filter (!·.isEmpty) :=
        named_joinSegments fun p hp => noSlash_of_mem_homeSegments (List.mem_of_mem_take hp)
      rw [← hbase]
      generalize joinSegments ((homeSegments importer).take up) = base
      simp only [Option.bind_eq_bind, Option.bind_some]
      cases rest with
      | nil => simpa [show named [] = [] from rfl] using named_getD base
      | cons c rest =>
        cases base with
        | nil => exact named_getD (c :: rest)
        | cons d base =>
          simp only [List.isEmpty_cons, Bool.false_eq_true, if_false]
          exact (named_getD _).trans (named_append _ _)

/-! ## The files of an import -/

/-- Another file matches some segments. -/
def Found (importer : String) (files : List String) (ps : List (List Char)) : Prop :=
  ∃ f ∈ files, f ≠ importer ∧ Matches f.toList ps

/-- **The files that some segments mean**: all other files that match the longest front of the segments
that any other file matches, in their order; none, if no front is matched. -/
inductive Means (importer : String) (files : List String) (ps : List (List Char)) :
    List String → Prop
  | nothing (hnone : ∀ c, c ≠ [] → c <+: ps → ¬ Found importer files c) : Means importer files ps []
  | front (c : List (List Char)) (hne : c ≠ []) (hc : c <+: ps) (hfound : Found importer files c)
    (hlongest : ∀ c', c' <+: ps → c.length < c'.length → ¬ Found importer files c') :
    Means importer files ps (files.filter fun f => f ≠ importer ∧ Matches f.toList c)

theorem longestMatch_means {importer : String} {files : List String} {ps : List (List Char)}
    (hps : ∀ p ∈ ps, '/' ∉ p) {n : Nat} (hn : n ≤ ps.length)
    (hlong : ∀ c, c <+: ps → n < c.length → ¬ Found importer files c) :
    Means importer files ps (longestMatch importer files n ps) := by
  induction n with
  | zero => exact .nothing fun c hne hc => hlong c hc (List.length_pos_iff.mpr hne)
  | succ n ih =>
    have hlength : (ps.take (n + 1)).length = n + 1 := by
      rw [List.length_take]
      omega
    have hne : ps.take (n + 1) ≠ [] := List.length_pos_iff.mp (by omega)
    have hmatch : ∀ f : String, (f != importer && fileMatches f.toList (joinSegments (ps.take (n + 1))))
        = decide (f ≠ importer ∧ Matches f.toList (ps.take (n + 1))) := by
      intro f
      rw [Bool.eq_iff_iff, Bool.and_eq_true, fileMatches_iff, joinSegments,
        Text.segments_intercalate hne fun p hp => hps p (List.mem_of_mem_take hp)]
      simp
    unfold longestMatch
    simp only [hmatch]
    split
    · next hnone =>
      -- the front of this length is not matched, and so no longer one either
      refine ih (by omega) fun c hc hlt => ?_
      rcases Nat.lt_or_ge (n + 1) c.length with hmore | hle
      · exact hlong c hc hmore
      · rintro ⟨f, hf, hfound⟩
        rw [List.prefix_iff_eq_take.mp hc, show c.length = n + 1 by omega] at hfound
        have := List.filter_eq_nil_iff.mp (List.isEmpty_iff.mp hnone) f hf
        simp [hfound] at this
    · next hsome =>
      refine .front (ps.take (n + 1)) hne (List.take_prefix _ _) ?_ fun c hc hlt =>
        hlong c hc (by omega)
      obtain ⟨f, hf⟩ := List.exists_mem_of_ne_nil _ fun he => hsome (List.isEmpty_iff.mpr he)
      obtain ⟨hmem, hfound⟩ := List.mem_filter.mp hf
      exact ⟨f, hmem, of_decide_eq_true hfound⟩

/-- **An import means the files that match the segments it names.** -/
theorem resolve_means (path importer : String) (files : List String) :
    ((normalize path.toList importer.toList).map named).getD [] =
      target path.toList importer.toList ∧
    Means importer files (target path.toList importer.toList) (resolve path importer files) := by
  have htarget := named_normalize path.toList importer.toList
  refine ⟨htarget, ?_⟩
  rw [← htarget]
  unfold resolve
  cases normalize path.toList importer.toList with
  | none => exact .nothing fun c hne hc => absurd (List.prefix_nil.mp hc) hne
  | some full =>
    refine longestMatch_means (fun p hp => ?_) le_rfl fun c hc hlt => ?_
    · exact Text.noSlash_of_mem_segments (List.mem_of_mem_filter hp)
    · exact absurd hc.length_le (Nat.not_le.mpr hlt)

/-- **An entry file at the root stands for itself**: it is matched by its own name, though nothing of
its path is left without the entry. **And the root is a directory of every importer**: an import that
goes up from the only directory with a name starts there. -/
theorem entry_at_root_matched :
    resolve "mod" "main.rs" ["mod.rs"] = ["mod.rs"] ∧
    dropEntry (bareSegments "mod.rs".toList) = [] ∧ homeSegments "mod.rs".toList = [] ∧
    resolve "..x" "a/b.py" ["x.py"] = ["x.py"] ∧
    (homeSegments "a/b.py".toList).length < leadingDots "..x".toList := by
  decide +kernel

end CodeAtlas.ImportPath
