import CodeAtlas.Proofs.Flow
import CodeAtlas.Proofs.Paths

/-!
# Pruned walks

A walk does not enter excluded directories, and asks of every other file whether it is indexed.
Entering them would bring up nothing more.

* `Pattern.exists_directory`: only patterns for directories exclude a directory.
* **`Config.not_shouldIndexFile_below`**: no file below an excluded directory is indexed.
* `Job.HasFile`, `Entry.mem_leaves_iff`: the files of a tree are those found at their names.
* **`walkEntries_eq_filter`**: a walk comes upon the files that are indexed, whatever it prunes.
* **`Pipeline.Reaches.sent_eq_filter`**: so does the walk of a run.
-/

namespace CodeAtlas

/-! ## Excluded directories -/

namespace Pattern

variable {path s dir : List Char}

/-- A pattern that is not for directories does not end with a slash. -/
theorem ofText_cases (s : List Char) :
    (∃ dir, ofText s = .directory dir) ∨
      (¬ ['/'] <:+ s) ∧ ((∃ tail, s = '*' :: tail ∧ ofText s = .ending tail) ∨
        ofText s = .name s) := by
  unfold ofText
  split
  · exact Or.inl ⟨_, rfl⟩
  · next hslash =>
    split
    · exact Or.inl ⟨_, rfl⟩
    · refine Or.inr ⟨?_, ?_⟩
      · rintro ⟨r, hr⟩
        rw [Text.stripEnd?_eq_some.mpr hr.symm] at hslash
        cases hslash
      · split
        · exact Or.inl ⟨_, rfl, rfl⟩
        · exact Or.inr rfl

/-- The last character of a list that ends with a nonempty one is the last of that one. -/
theorem slash_suffix_of_suffix {tail : List Char} (h : tail <:+ path ++ ['/']) (hne : tail ≠ []) :
    ['/'] <:+ tail := by
  obtain ⟨r, hr⟩ := h
  rw [← List.dropLast_append_getLast hne, ← List.append_assoc] at hr
  have hlast : [tail.getLast hne] = ['/'] := (List.append_inj' hr rfl).2
  exact ⟨tail.dropLast, by rw [← hlast, List.dropLast_append_getLast hne]⟩

/-- **Only patterns for directories exclude a directory.** -/
theorem exists_directory (hform : ['/'] <:+ s ∨ ['*', '*'] <:+: s)
    (h : (ofText s).accepts (path ++ ['/']) = true) : ∃ dir, ofText s = .directory dir := by
  rcases ofText_cases s with hdir | ⟨hslash, hrest⟩
  · exact hdir
  -- any other pattern holds two stars, so that it compares something with the slash at the end
  have hstars : ['*', '*'] <:+: s := hform.resolve_left hslash
  exfalso
  rcases hrest with ⟨tail, rfl, hof⟩ | hof
  · have hne : tail ≠ [] := by
      rintro rfl
      exact absurd hstars.length_le (by simp)
    rw [hof] at h
    have hend : ['/'] <:+ tail := slash_suffix_of_suffix (Text.endsWith_iff.mp h) hne
    exact hslash (hend.trans (List.suffix_cons _ _))
  · have hne : s ≠ [] := by
      rintro rfl
      exact absurd hstars.length_le (by simp)
    rw [hof, accepts, Bool.or_eq_true, beq_iff_eq] at h
    rcases h with h | h
    · exact hslash ⟨path, h⟩
    · have hend := slash_suffix_of_suffix
        ((List.suffix_cons _ _).trans (Text.endsWith_iff.mp h)) hne
      exact hslash hend

/-- A pattern for directories that matches a path matches every longer one. -/
theorem accepts_directory_of_prefix {long : List Char} (hpre : path <+: long)
    (h : (directory dir).accepts path = true) : (directory dir).accepts long = true := by
  rw [accepts, Bool.or_eq_true, Text.startsWith_iff, Text.contains_iff] at h ⊢
  exact h.imp (·.trans hpre) (·.trans hpre.isInfix)

end Pattern

namespace Config

variable {c : Config} {dir : String}

/-- **No file below an excluded directory is indexed.** -/
theorem not_shouldIndexFile_below (h : c.isExcludedDir dir = true) (rest : String) :
    c.shouldIndexFile (dir ++ "/" ++ rest) = false := by
  unfold isExcludedDir at h
  obtain ⟨p, hp, hmatch⟩ := List.any_eq_true.mp h
  rw [Bool.and_eq_true, Bool.or_eq_true, Text.endsWith_iff, Text.contains_iff] at hmatch
  obtain ⟨hform, hacc⟩ := hmatch
  have hlist : (Text.trimTail (· == '/') dir ++ "/").toList =
      Text.dropTail (· == '/') dir.toList ++ ['/'] := by
    rw [String.toList_append, Text.trimTail, String.toList_ofList]
    rfl
  rw [matchesPattern, hlist] at hacc
  obtain ⟨name, hname⟩ := Pattern.exists_directory hform hacc
  have hpre : Text.dropTail (· == '/') dir.toList ++ ['/'] <+: (dir ++ "/" ++ rest).toList := by
    rw [String.toList_append, String.toList_append]
    exact (Text.dropTail_append_prefix '/' dir.toList).trans (List.prefix_append _ _)
  have hfile : matchesPattern (dir ++ "/" ++ rest) p = true := by
    rw [hname] at hacc
    rw [matchesPattern, hname]
    exact Pattern.accepts_directory_of_prefix hpre hacc
  have hany : c.exclude.any (matchesPattern (dir ++ "/" ++ rest)) = true :=
    List.any_eq_true.mpr ⟨p, hp, hfile⟩
  rw [shouldIndexFile, hany]
  rfl

end Config

/-! ## Files of a tree -/

mutual

theorem allFiles_eq_map (path : String) :
    ∀ e : Entry, allFiles path e = e.leaves.map (Path.below path)
  | .directory entries => by
    rw [allFiles, Entry.leaves, allFilesIn_eq_map (path ++ "/") entries]
    exact List.map_congr_left fun ns hns => (if_neg (Entry.leavesIn_ne_nil hns)).symm
  | .file .. => by rw [allFiles, Entry.leaves]; rfl
  | .locked => by rw [allFiles, Entry.leaves]; rfl
  | .index _ => by rw [allFiles, Entry.leaves]; rfl
  | .special => by rw [allFiles, Entry.leaves]; rfl

/-- The path of a file is that of its directory with the names that lead from there to it. -/
theorem allFilesIn_eq_map (base : String) : ∀ entries : List (String × Entry),
    allFilesIn base entries = (Entry.leavesIn entries).map fun ns => base ++ Text.join "/" ns
  | [] => by rw [allFilesIn, Entry.leavesIn, List.map_nil]
  | (name, e) :: rest => by
    rw [allFilesIn, Entry.leavesIn, List.map_append, List.map_map, allFiles_eq_map (base ++ name) e,
      allFilesIn_eq_map base rest]
    congr 1
    exact List.map_congr_left fun ns _ => (Path.below_cons base name ns).symm

end

namespace Entry

theorem lookup_of_mem {entries : List (String × Entry)} (h : TidyIn entries) {name : String}
    {e : Entry} (he : (name, e) ∈ entries) : entries.lookup name = some e := by
  induction entries with
  | nil => cases he
  | cons x entries ih =>
    obtain ⟨other, y⟩ := x
    rw [TidyIn] at h
    rcases List.mem_cons.mp he with heq | hmem
    · cases heq
      rw [List.lookup_cons_self]
    · have hne : (name == other) = false := by
        rw [beq_eq_false_iff_ne]
        rintro rfl
        exact h.2.1 (List.mem_map.mpr ⟨_, hmem, rfl⟩)
      rw [List.lookup_cons, hne]
      exact ih h.2.2.2 hmem

/-- **The names that lead to a file** of a tidy tree are those at whose end there is one. -/
theorem mem_leaves_iff {ns : List String} : ∀ {e : Entry}, e.Tidy →
    (ns ∈ e.leaves ↔ ∃ x, e.get? ns = some x ∧ x.isFile = true) := by
  induction ns with
  | nil =>
    intro e _
    cases e with
    | directory entries =>
      rw [leaves]
      exact iff_of_false (fun h => leavesIn_ne_nil h rfl) (by simp [get?, isFile])
    | file content modified => simp [leaves, get?, isFile]
    | locked => simp [leaves, get?, isFile]
    | index store => simp [leaves, get?, isFile]
    | special => simp [leaves, get?, isFile]
  | cons n ns ih =>
    intro e h
    cases e with
    | directory entries =>
      rw [Tidy] at h
      rw [leaves, mem_leavesIn, get?]
      constructor
      · rintro ⟨⟨name, e⟩, hx, ms, hms, heq⟩
        cases heq
        rw [lookup_of_mem h hx]
        exact (ih (tidy_of_mem h _ hx).2).mp hms
      · rintro ⟨x, hget, hfile⟩
        cases hl : entries.lookup n with
        | none => rw [hl] at hget; cases hget
        | some e =>
          rw [hl] at hget
          obtain ⟨l, r, rfl, -⟩ := List.lookup_eq_some_iff.mp hl
          exact ⟨(n, e), by simp, ns, (ih (tidy_of_lookup h hl)).mpr ⟨x, hget, hfile⟩, rfl⟩
    | file content modified => simp [leaves, get?]
    | locked => simp [leaves, get?]
    | index store => simp [leaves, get?]
    | special => simp [leaves, get?]

end Entry

/-! ## Walks -/

mutual

theorem walkEntry_eq_filter (c : Config) (path : String) :
    ∀ e : Entry, walkEntry c path e = (allFiles path e).filter c.shouldIndexFile
  | .directory entries => by
    rw [walkEntry, allFiles]
    split
    · next hdir =>
      -- what is below a pruned directory would have been refused file by file
      symm
      rw [List.filter_eq_nil_iff]
      intro f hf
      rw [allFilesIn_eq_map] at hf
      obtain ⟨ns, -, rfl⟩ := List.mem_map.mp hf
      simp [Config.not_shouldIndexFile_below hdir]
    · exact walkEntries_eq_filter c (path ++ "/") entries
  | .file .. => by
    rw [walkEntry, allFiles, List.filter_cons, List.filter_nil]
  | .locked => by
    rw [walkEntry, allFiles, List.filter_cons, List.filter_nil]
  | .index _ => by
    rw [walkEntry, allFiles, List.filter_cons, List.filter_nil]
  | .special => by rw [walkEntry, allFiles, List.filter_nil]

/-- **A walk comes upon the files that are indexed**, whatever it prunes. -/
theorem walkEntries_eq_filter (c : Config) (base : String) :
    ∀ entries : List (String × Entry),
      walkEntries c base entries = (allFilesIn base entries).filter c.shouldIndexFile
  | [] => by rw [walkEntries, allFilesIn, List.filter_nil]
  | (name, e) :: rest => by
    rw [walkEntries, allFilesIn, List.filter_append, walkEntry_eq_filter c (base ++ name) e,
      walkEntries_eq_filter c base rest]

end

/-! ## The walk of a run -/

/-- Whether there is a file at a path, as seen from the root of a project. -/
def Job.HasFile (j : Job) (f : String) : Prop :=
  ∃ ns x, Text.join "/" ns = f ∧ (Entry.directory j.entries).get? ns = some x ∧ x.isFile = true

theorem Job.hasFile_iff {j : Job} (h : j.disk.Tidy) {f : String} :
    j.HasFile f ↔ f ∈ allFilesIn "" j.entries := by
  have htidy : (Entry.directory j.entries).Tidy := by
    rw [Entry.Tidy]
    exact tidy_entries h
  rw [HasFile, allFilesIn_eq_map, List.mem_map]
  simp only [String.empty_append]
  constructor
  · rintro ⟨ns, x, rfl, hget, hfile⟩
    have hns := (Entry.mem_leaves_iff htidy).mpr ⟨x, hget, hfile⟩
    rw [Entry.leaves] at hns
    exact ⟨ns, hns, rfl⟩
  · rintro ⟨ns, hns, rfl⟩
    rw [← Entry.leaves] at hns
    obtain ⟨x, hget, hfile⟩ := (Entry.mem_leaves_iff htidy).mp hns
    exact ⟨ns, x, rfl, hget, hfile⟩

/-- **One file is refused by the check that a walk makes.** -/
theorem Indexer.indexFile_unsupported (ix : Indexer) (now : Int) (disk : Disk) {ns : List String}
    (hplain : ∀ n ∈ ns, Path.Plain n) (hne : ns ≠ [])
    (h : ix.config.shouldIndexFile (Text.join "/" ns) = false) :
    ix.indexFile now disk (Text.join "/" ns) = .ok (.unsupported (Text.join "/" ns), disk) := by
  have hpath : ix.absolute disk (Text.join "/" ns) = Path.join ix.root (Text.join "/" ns) := by
    rw [absolute, Path.isAbsolute_join hplain hne]
    rfl
  unfold indexFile readFile
  simp only [hpath, Path.relative_join _ hplain hne, h]
  rfl

namespace Pipeline

variable {j : Job} {n : Nat} {q : Pipeline}

/-- **A pruned walk and the check of single files agree.** As long as there is a worker that has not
crashed, the paths that a run enqueues are those of the files of the project that are indexed, each
once. No file below an excluded directory is: indexing it alone refuses it too. -/
theorem Reaches.sent_eq_filter (h : Reaches j n q) (htidy : j.disk.Tidy) (hdone : q.walk = .done)
    (hc : q.cancelled = false) (hl : ¬ q.Lost) :
    q.sent.map j.relative = (allFilesIn "" j.entries).filter j.indexer.config.shouldIndexFile ∧
    (∀ f, f ∈ q.sent.map j.relative ↔ j.HasFile f ∧ j.indexer.config.shouldIndexFile f = true) ∧
      ∀ dir : String, j.indexer.config.isExcludedDir dir = true →
        (∀ rest, j.indexer.config.shouldIndexFile (dir ++ "/" ++ rest) = false) ∧
          ∀ ns : List String, ns ≠ [] → (∀ m ∈ ns, Path.Plain m) →
            (∃ rest, Text.join "/" ns = dir ++ "/" ++ rest) →
            j.indexer.indexFile j.now j.disk (Text.join "/" ns) =
              .ok (.unsupported (Text.join "/" ns), j.disk) := by
  have hsent : q.sent = j.candidates :=
    (h.flow.done hdone).resolve_right fun hor => hor.elim (by simp [hc]) hl
  have hrelative : q.sent.map j.relative =
      (allFilesIn "" j.entries).filter j.indexer.config.shouldIndexFile := by
    calc q.sent.map j.relative
        = (walkEntries j.indexer.config "" j.entries).map
            (j.relative ∘ Path.join j.indexer.root) := by
          rw [hsent, Job.candidates, Indexer.walk, List.map_map]
          rfl
      _ = (walkEntries j.indexer.config "" j.entries).map id :=
          List.map_congr_left fun f hf => Job.relative_of_mem htidy hf
      _ = _ := by rw [List.map_id, walkEntries_eq_filter]
  refine ⟨hrelative, fun f => ?_, fun dir hdir => ?_⟩
  · rw [hrelative, List.mem_filter, Job.hasFile_iff htidy]
  · refine ⟨Config.not_shouldIndexFile_below hdir, fun ns hne hplain hbelow => ?_⟩
    obtain ⟨rest, hrest⟩ := hbelow
    refine Indexer.indexFile_unsupported _ _ _ hplain hne ?_
    rw [hrest]
    exact Config.not_shouldIndexFile_below hdir rest

end Pipeline

/-- A project with a file, one that cannot be read, a file in an excluded directory, and a socket. -/
def Job.layered : Job where
  indexer := { root := "/p", config := {}, project := ⟨1, "/p", "p", [], 0, none⟩ }
  now := 1
  disk := ⟨.directory [("p", .directory [("run.rs", .special),
    ("src", .directory [("lib.rs", .file .empty 0), ("own.rs", .locked)]),
    ("target", .directory [("debug", .directory [("gen.rs", .file .empty 0)])])])]⟩
  store := .empty
  force := false
  capacity := 1
  faulty := false

namespace Pipeline

theorem sent_eq_filter_layered : ∃ q, Reaches .layered 1 q ∧ q.walk = .done ∧
    q.cancelled = false ∧ q.sent.map Job.layered.relative = ["src/lib.rs", "src/own.rs"] ∧
    Job.layered.HasFile "target/debug/gen.rs" ∧
    "target/debug/gen.rs" ∉ q.sent.map Job.layered.relative := by
  obtain ⟨q, hq, hc, hw, -⟩ := @Reaches.exists_sequential .layered (by decide) (by decide +kernel)
  have htidy : Job.layered.disk.Tidy := by decide +kernel
  have hlost : ¬ q.Lost := hq.flow.not_lost (by decide) (hq.manned rfl)
  obtain ⟨hsent, hmem, -⟩ := Reaches.sent_eq_filter hq htidy hw hc hlost
  have hfiles : q.sent.map Job.layered.relative = ["src/lib.rs", "src/own.rs"] := by
    rw [hsent]
    decide +kernel
  refine ⟨q, hq, hw, hc, hfiles, (Job.hasFile_iff htidy).mpr (by decide +kernel), ?_⟩
  rw [hfiles]
  decide

end Pipeline

end CodeAtlas
