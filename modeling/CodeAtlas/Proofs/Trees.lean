import CodeAtlas.Proofs.Paths

/-!
# Where the index lies

* `Disk.locate_pathOf`, `Disk.plainNames_pathOf`: a path made of plain names leads to them.
* `Indexer.Rooted`: the root of a project is a directory. **`Rooted.store_save`**: what is kept there
  is found again. **`Indexer.openAt_spec`**: a project that was opened is rooted.
* `Disk.SameTree`: two trees that differ in their indexes only. `SameTree.opened`: they still do while
  an index is open. `SameTree.read_eq`, `Job.candidates_eq`: they have the same files.
-/

namespace CodeAtlas

namespace Entry

variable {e : Entry} {entries : List (String × Entry)} {name : String} {ns ms : List String}

theorem get?_append : e.get? (ns ++ ms) = (e.get? ns).bind (·.get? ms) := by
  induction ns generalizing e with
  | nil => cases e <;> rfl
  | cons n ns ih =>
    cases e with
    | file content modified => rfl
    | locked => rfl
    | index store => rfl
    | special => rfl
    | directory entries =>
      rw [List.cons_append, get?, get?]
      cases entries.lookup n with
      | none => rfl
      | some e => exact ih

/-- What has something below it is a directory. -/
theorem exists_directory {x : Entry} (h : e.get? (ns ++ [name]) = some x) :
    ∃ entries, e.get? ns = some (.directory entries) ∧ entries.lookup name = some x := by
  rw [get?_append] at h
  obtain ⟨e', he, hx⟩ := Option.bind_eq_some_iff.mp h
  cases e' with
  | file content modified => cases hx
  | locked => cases hx
  | index store => cases hx
  | special => cases hx
  | directory entries =>
    refine ⟨entries, he, ?_⟩
    rw [get?] at hx
    cases hl : entries.lookup name with
    | none => rw [hl] at hx; cases hx
    | some y =>
      rw [hl] at hx
      cases y <;> exact hx

theorem lookup_setEntry (name : String) (x : Entry) (entries : List (String × Entry)) :
    (setEntry name (some x) entries).lookup name = some x := by
  induction entries with
  | nil => simp [setEntry]
  | cons y entries ih =>
    obtain ⟨other, old⟩ := y
    rw [setEntry]
    split
    · simp
    · next hne =>
      split
      · simp
      · have hbeq : (name == other) = false := by simpa using hne
        simp only [List.lookup_cons, hbeq, ih]

/-- **What is put in a directory is found there.** -/
theorem exists_alter (x : Entry) (h : e.get? ns = some (.directory entries)) :
    ∃ e', alter (fun _ => .ok (some x)) (ns ++ [name]) (some e) = .ok (some e') ∧
      e'.get? (ns ++ [name]) = some x := by
  induction ns generalizing e with
  | nil =>
    cases e <;> cases h
    refine ⟨_, rfl, ?_⟩
    rw [List.nil_append, get?, lookup_setEntry]
    cases x <;> rfl
  | cons n ns ih =>
    cases e with
    | file content modified => cases h
    | locked => cases h
    | index store => cases h
    | special => cases h
    | directory rest =>
      rw [get?] at h
      cases hl : rest.lookup n with
      | none => rw [hl] at h; cases h
      | some e₁ =>
        rw [hl] at h
        obtain ⟨e', he, hget⟩ := ih h
        refine ⟨.directory (setEntry n (some e') rest), ?_, ?_⟩
        · rw [List.cons_append, alter]
          simp only [hl, he, pure, Except.pure, bind, Except.bind]
        · rw [List.cons_append, get?, lookup_setEntry]
          exact hget

end Entry

/-! ## Paths made of names -/

namespace Path

variable {ns : List String} {f : String}

theorem join_append_singleton (h : ns ≠ []) (f : String) :
    Text.join "/" (ns ++ [f]) = Text.join "/" ns ++ "/" ++ f := by
  induction ns with
  | nil => exact absurd rfl h
  | cons n ns ih =>
    cases ns with
    | nil => rfl
    | cons m ms =>
      rw [List.cons_append, @join_cons (m :: ms ++ [f]) n (by simp), ih (List.cons_ne_nil m ms),
        join_cons (List.cons_ne_nil m ms)]
      simp only [String.append_assoc]

/-- Names with slashes between them do not end with one. -/
theorem getLast?_join_ne (h : ∀ n ∈ ns, Plain n) (hne : ns ≠ []) :
    (Text.join "/" ns).toList.getLast? ≠ some '/' := by
  intro hlast
  obtain ⟨a, ha⟩ := List.getLast?_eq_some_iff.mp hlast
  have hseg := segments_join h hne
  rw [ha, Text.segments_append] at hseg
  have hmem : ([] : List Char) ∈ ns.map String.toList := by
    rw [← hseg]
    exact List.mem_append_right _ List.mem_cons_self
  obtain ⟨n, hn, hnil⟩ := List.mem_map.mp hmem
  exact (h n hn).nonempty (String.toList_eq_nil_iff.mp hnil)

theorem join_pathOf (h : ∀ n ∈ ns, Plain n) (hf : Plain f) :
    join (Disk.pathOf ns) f = Disk.pathOf (ns ++ [f]) := by
  have habs : isAbsolute f = false := @isAbsolute_join [f] (by simpa using hf) (List.cons_ne_nil _ _)
  have hempty : f.isEmpty = false := by simpa using hf.nonempty
  unfold join
  rw [if_neg (by simp [habs]), if_neg (by simp [hempty])]
  by_cases hne : ns = []
  · subst hne
    rfl
  · have hcs : (Disk.pathOf ns).toList = '/' :: (Text.join "/" ns).toList := by
      rw [Disk.pathOf, String.toList_append]
      rfl
    have hcons : (Text.join "/" ns).toList ≠ [] := fun he =>
      join_ne_empty h hne (String.toList_eq_nil_iff.mp he)
    have hlast : (Disk.pathOf ns).toList.getLast? ≠ some '/' := by
      rw [hcs, List.getLast?_cons_of_ne_nil hcons]
      exact getLast?_join_ne h hne
    have hroot : (Disk.pathOf ns).isEmpty = false := by
      rw [← Bool.not_eq_true, String.isEmpty_iff, ← String.toList_eq_nil_iff, hcs]
      simp
    rw [if_neg (by simp [hlast, hroot]), Disk.pathOf, Disk.pathOf, join_append_singleton hne]
    simp only [String.append_assoc]

theorem components_pathOf (h : ∀ n ∈ ns, Plain n) : components (Disk.pathOf ns) = "/" :: ns := by
  by_cases hne : ns = []
  · subst hne
    decide
  · have hroot : Disk.pathOf ns = join "/" (Text.join "/" ns) := by
      unfold join
      have hempty : (Text.join "/" ns).isEmpty = false := by simpa using join_ne_empty h hne
      rw [if_neg (by simp [isAbsolute_join h hne]), if_neg (by simp [hempty]), if_pos (by decide)]
      rfl
    rw [hroot, components_join "/" h hne]
    rfl

end Path

namespace Disk

variable {d : Disk} {ns ms : List String} {e : Entry}

theorem foldlM_step (h : ∀ n ∈ ns, Path.Plain n) (he : d.entry? (ms ++ ns) = some e) :
    ns.foldlM d.step ms = .ok (ms ++ ns) := by
  induction ns generalizing ms with
  | nil => rw [List.append_nil]; rfl
  | cons n ns ih =>
    have hn := h n List.mem_cons_self
    have hrest : d.entry? ((ms ++ [n]) ++ ns) = some e := by simpa using he
    have hdir : ∃ entries, d.entry? ms = some (.directory entries) ∧
        (entries.lookup n).isSome = true := by
      have hpre := hrest
      unfold entry? at hpre
      rw [Entry.get?_append] at hpre
      obtain ⟨x, hx, -⟩ := Option.bind_eq_some_iff.mp hpre
      obtain ⟨entries, hentries, hl⟩ := Entry.exists_directory hx
      exact ⟨entries, hentries, by rw [hl]; rfl⟩
    obtain ⟨entries, hentries, hl⟩ := hdir
    have hstep : d.step ms n = .ok (ms ++ [n]) := by
      unfold step
      rw [hentries]
      simp [hn.nonempty, hn.noDot, hn.noDots, hl]
    rw [List.foldlM_cons, hstep]
    change ns.foldlM d.step (ms ++ [n]) = _
    rw [ih (fun k hk => h k (List.mem_cons_of_mem _ hk)) hrest, List.append_assoc]
    rfl

theorem segments_pathOf (h : ∀ n ∈ ns, Path.Plain n) (hne : ns ≠ []) :
    (Text.segments (pathOf ns).toList).map String.ofList = "" :: ns := by
  rw [pathOf, String.toList_append]
  change (Text.segments ([] ++ '/' :: (Text.join "/" ns).toList)).map String.ofList = _
  rw [Text.segments_append, Path.segments_join h hne, List.map_append, List.map_map]
  simp [Text.segments, Text.splitBy, Function.comp_def]

/-- **A path made of plain names leads to them.** -/
theorem locate_pathOf (h : ∀ n ∈ ns, Path.Plain n) (hne : ns ≠ []) (he : d.entry? ns = some e) :
    d.locate (pathOf ns) = .ok ns := by
  obtain ⟨n, rest, rfl⟩ := List.exists_cons_of_ne_nil hne
  have htop : ∃ entries, d.entry? [] = some (.directory entries) := by
    have hget : d.top.get? ([] ++ [n] ++ rest) = some e := he
    rw [Entry.get?_append] at hget
    obtain ⟨x, hx, -⟩ := Option.bind_eq_some_iff.mp hget
    obtain ⟨entries, hentries, -⟩ := Entry.exists_directory hx
    exact ⟨entries, hentries⟩
  obtain ⟨entries, htop⟩ := htop
  have hstep : d.step [] "" = .ok [] := by
    unfold step
    rw [htop]
    simp
  unfold locate
  rw [segments_pathOf h hne, List.foldlM_cons, hstep]
  exact foldlM_step h he

theorem plain_of_step {segment : String} (h : d.step ms segment = .ok ns)
    (hs : '/' ∉ segment.toList) (hms : ∀ n ∈ ms, Path.Plain n) : ∀ n ∈ ns, Path.Plain n := by
  unfold step at h
  split at h
  · split at h
    · cases h
      exact hms
    · next hname =>
      push Not at hname
      split at h
      · cases h
        exact fun n hn => hms n (List.dropLast_subset _ hn)
      · next hdots =>
        split at h
        · cases h
          intro n hn
          rcases List.mem_append.mp hn with hn | hn
          · exact hms n hn
          · rw [List.mem_singleton.mp hn]
            exact ⟨hname.1, hs, hname.2, hdots⟩
        · cases h
  · cases h
  · cases h

/-- The names that lead to what a path means are plain, however the path is written. -/
theorem plain_of_locate {path : String} (h : d.locate path = .ok ns) : ∀ n ∈ ns, Path.Plain n := by
  have hfold : ∀ (segments : List String) (ms : List String),
      (∀ s ∈ segments, '/' ∉ s.toList) → (∀ n ∈ ms, Path.Plain n) →
      segments.foldlM d.step ms = .ok ns → ∀ n ∈ ns, Path.Plain n := by
    intro segments
    induction segments with
    | nil =>
      intro ms _ hms h
      cases h
      exact hms
    | cons s segments ih =>
      intro ms hs hms h
      rw [List.foldlM_cons] at h
      cases hstep : d.step ms s with
      | error e => rw [hstep] at h; cases h
      | ok ms' =>
        rw [hstep] at h
        exact ih ms' (fun s' hs' => hs s' (List.mem_cons_of_mem _ hs'))
          (plain_of_step hstep (hs s List.mem_cons_self) hms) h
  refine hfold _ [] ?_ (fun n hn => by cases hn) h
  intro s hs hslash
  obtain ⟨piece, hpiece, rfl⟩ := List.mem_map.mp hs
  rw [String.toList_ofList] at hslash
  exact Text.noSlash_of_mem_segments hpiece hslash

theorem eq_of_step {n : String} (hn : n = "" ∨ Path.Plain n) (h : d.step ms n = .ok ns) :
    ns = ms ++ [n].filter (· != "") := by
  unfold step at h
  split at h
  · rcases hn with rfl | hn
    · cases h
      simp
    · rw [if_neg (by simp [hn.nonempty, hn.noDot]), if_neg hn.noDots] at h
      split at h
      · cases h
        simp [hn.nonempty]
      · cases h
  · cases h
  · cases h

/-- If a path made of plain names leads anywhere, it leads to them. -/
theorem eq_of_locate_pathOf (h : ∀ n ∈ ns, Path.Plain n) (hl : d.locate (pathOf ns) = .ok ms) :
    ms = ns := by
  have hfold : ∀ rest before : List String, (∀ n ∈ rest, n = "" ∨ Path.Plain n) →
      rest.foldlM d.step before = .ok ms → ms = before ++ rest.filter (· != "") := by
    intro rest
    induction rest with
    | nil =>
      intro before _ h
      cases h
      simp
    | cons n rest ih =>
      intro before hn h
      rw [List.foldlM_cons] at h
      cases hstep : d.step before n with
      | error e => rw [hstep] at h; cases h
      | ok next =>
        rw [hstep] at h
        rw [ih next (fun k hk => hn k (List.mem_cons_of_mem _ hk)) h,
          eq_of_step (hn n List.mem_cons_self) hstep, List.append_assoc, ← List.filter_append]
        rfl
  unfold locate at hl
  by_cases hne : ns = []
  · subst hne
    exact hfold ["", ""] [] (by simp) hl
  · rw [segments_pathOf h hne] at hl
    rw [hfold _ [] (fun n hn => (List.mem_cons.mp hn).imp_right (h n)) hl, List.nil_append,
      List.filter_cons_of_neg (by decide), List.filter_eq_self]
    intro n hn
    simpa using (h n hn).nonempty

/-- A directory is found by the names on its path without detours. -/
theorem exists_names_of_canonical {path root : String} (h : d.canonical path = .ok root)
    (hdir : (d.find? root).any Entry.isDirectory = true) :
    ∃ names, (∀ n ∈ names, Path.Plain n) ∧ root = pathOf names ∧
      ∃ entries, d.entry? names = some (.directory entries) := by
  unfold canonical at h
  cases hl : d.locate path with
  | error e => rw [hl] at h; cases h
  | ok names =>
    rw [hl] at h
    cases h
    have hplain := plain_of_locate hl
    refine ⟨names, hplain, rfl, ?_⟩
    unfold find? at hdir
    split at hdir
    · next names' hl' =>
      rw [eq_of_locate_pathOf hplain hl', Option.any_eq_true] at hdir
      obtain ⟨e, he, hdir⟩ := hdir
      cases e with
      | directory entries => exact ⟨entries, he⟩
      | file content modified => cases hdir
      | locked => cases hdir
      | index store => cases hdir
      | special => cases hdir
    · cases hdir

theorem plainNames_pathOf (h : ∀ n ∈ ns, Path.Plain n) : plainNames (pathOf ns) = ns := by
  have hslash : ∀ n ∈ ns, n ≠ "/" := fun n hn he => (h n hn).noSlash (by rw [he]; decide)
  have hfilter : (("/" :: ns).filter fun c => c != "/" && c != ".") = ns := by
    rw [List.filter_cons_of_neg (by decide), List.filter_eq_self]
    intro n hn
    simp [hslash n hn, (h n hn).noDot]
  have hfold : ∀ ms : List String, ns.foldl (fun names c =>
      if c == ".." then names.dropLast else names ++ [c]) ms = ms ++ ns := by
    clear hfilter hslash
    induction ns with
    | nil => simp
    | cons n ns ih =>
      intro ms
      have hn : (n == "..") = false := by simpa using (h n List.mem_cons_self).noDots
      rw [List.foldl_cons, hn, ih fun k hk => h k (List.mem_cons_of_mem _ hk)]
      simp
  unfold plainNames
  rw [Path.components_pathOf h, hfilter, hfold, List.nil_append]

end Disk

/-! ## The index of a project -/

namespace Indexer

variable {ix : Indexer} {d : Disk}

/-- **The root of a project is a directory**, and its path has no detours. -/
def Rooted (ix : Indexer) (d : Disk) : Prop :=
  ∃ names, (∀ n ∈ names, Path.Plain n) ∧ ix.root = Disk.pathOf names ∧
    ∃ entries, d.entry? names = some (.directory entries)

theorem plain_indexFile : Path.Plain CodeAtlas.indexFile :=
  ⟨by decide, by decide, by decide, by decide⟩

theorem plain_append {names : List String} (h : ∀ n ∈ names, Path.Plain n) :
    ∀ n ∈ names ++ [CodeAtlas.indexFile], Path.Plain n := by
  intro n hn
  rcases List.mem_append.mp hn with hn | hn
  · exact h n hn
  · rw [List.mem_singleton.mp hn]
    exact plain_indexFile

/-- The store of a project is what lies in its root. -/
theorem store_eq {names : List String} (hplain : ∀ n ∈ names, Path.Plain n)
    (hroot : ix.root = Disk.pathOf names) {s : Store}
    (hs : d.entry? (names ++ [CodeAtlas.indexFile]) = some (.index s)) : ix.store d = s := by
  unfold store Disk.storeAt? Disk.find?
  rw [hroot, Path.join_pathOf hplain plain_indexFile,
    Disk.locate_pathOf (plain_append hplain) (by simp) hs]
  dsimp only
  rw [hs]
  rfl

/-- **What is kept at the root of a project is found again.** -/
theorem Rooted.store_save (h : ix.Rooted d) (s : Store) :
    ix.store (ix.save d s) = s ∧ ix.Rooted (ix.save d s) := by
  obtain ⟨names, hplain, hroot, entries, hdir⟩ := h
  obtain ⟨top, halter, hget⟩ :=
    @Entry.exists_alter d.top entries CodeAtlas.indexFile names (.index s) hdir
  have hsave : ix.save d s = ⟨top⟩ := by
    unfold save Disk.putStore Disk.alter
    rw [hroot, Path.join_pathOf hplain plain_indexFile,
      Disk.plainNames_pathOf (plain_append hplain), halter]
    rfl
  rw [hsave]
  obtain ⟨entries', hdir', -⟩ := Entry.exists_directory hget
  exact ⟨store_eq hplain hroot hget, names, hplain, hroot, entries', hdir'⟩

/-- **Opening a project** puts its record into its store. -/
theorem openAt_spec {now : Int} {directory shown : String} {d' : Disk}
    (h : openAt now d directory shown = .ok (ix, d')) :
    ix.Rooted d' ∧ (ix.store d).upsertProject now ix.root (projectName ix.config ix.root) =
      .ok (ix.project, ix.store d') := by
  unfold openAt Disk.projectRoot at h
  simp only [bind, Except.bind, pure, Except.pure] at h
  cases hcan : d.canonical directory with
  | error e => rw [hcan] at h; cases h
  | ok root =>
    rw [hcan] at h
    dsimp only at h
    cases hdir : (d.find? root).any Entry.isDirectory with
    | false => rw [hdir] at h; cases h
    | true =>
      rw [hdir] at h
      simp only [Bool.not_true, Bool.false_eq_true, if_false] at h
      split at h
      · cases h
      next project s hs =>
      split at h
      · cases h
      next d'' hput =>
      cases h
      have hrooted : Rooted ⟨root, d.configAt directory, project, .grammars⟩ d :=
        Disk.exists_names_of_canonical hcan hdir
      obtain ⟨hstore, hroot⟩ := hrooted.store_save s
      have hsave : save ⟨root, d.configAt directory, project, .grammars⟩ d s = d' := by
        unfold save
        rw [hput]
        rfl
      rw [hsave] at hstore hroot
      exact ⟨hroot, by rw [hstore]; exact hs⟩

end Indexer

/-! ## Trees that differ in their indexes only -/

mutual

/-- An entry with empty indexes. -/
def Entry.blank : Entry → Entry
  | .directory entries => .directory (Entry.blankIn entries)
  | .file content modified => .file content modified
  | .locked => .locked
  | .index _ => .index .empty
  | .special => .special

/-- Some entries with empty indexes. -/
def Entry.blankIn : List (String × Entry) → List (String × Entry)
  | [] => []
  | (name, e) :: rest => (name, e.blank) :: Entry.blankIn rest

end

namespace Entry

theorem lookup_blankIn (name : String) (entries : List (String × Entry)) :
    (blankIn entries).lookup name = (entries.lookup name).map blank := by
  induction entries with
  | nil => rw [blankIn]; rfl
  | cons x entries ih =>
    obtain ⟨other, e⟩ := x
    rw [blankIn, List.lookup_cons, List.lookup_cons]
    cases name == other with
    | true => rfl
    | false => exact ih

theorem get?_blank (e : Entry) (ns : List String) : e.blank.get? ns = (e.get? ns).map blank := by
  induction ns generalizing e with
  | nil => cases e <;> rfl
  | cons n ns ih =>
    cases e with
    | file content modified => rw [blank]; rfl
    | locked => rw [blank]; rfl
    | index store => rw [blank]; rfl
    | special => rw [blank]; rfl
    | directory entries =>
      rw [blank, get?, get?, lookup_blankIn]
      cases entries.lookup n with
      | none => rfl
      | some e => exact ih e

theorem map_fst_blankIn (entries : List (String × Entry)) :
    (blankIn entries).map (·.1) = entries.map (·.1) := by
  induction entries with
  | nil => rw [blankIn]
  | cons x entries ih => rw [blankIn, List.map_cons, List.map_cons, ih]

theorem blankIn_append (entries rest : List (String × Entry)) :
    blankIn (entries ++ rest) = blankIn entries ++ blankIn rest := by
  induction entries with
  | nil => rw [blankIn]; rfl
  | cons x entries ih => rw [List.cons_append, blankIn, blankIn, ih, List.cons_append]

theorem setEntry_blankIn (name : String) (e : Option Entry) (entries : List (String × Entry)) :
    setEntry name (e.map blank) (blankIn entries) = blankIn (setEntry name e entries) := by
  have hmap : blankIn (e.map fun e => (name, e)).toList =
      ((e.map blank).map fun e => (name, e)).toList := by
    cases e <;> simp [blankIn]
  induction entries with
  | nil => rw [setEntry, hmap, blankIn, setEntry]
  | cons x entries ih =>
    obtain ⟨other, old⟩ := x
    rw [blankIn, setEntry, setEntry]
    split_ifs with heq hlt
    · rw [blankIn_append, hmap]
    · rw [blankIn_append, hmap, blankIn]
    · rw [blankIn, ih]

/-- **A change that does not look into indexes is the same for empty ones.** -/
theorem alter_blank {change : Option Entry → Except DiskError (Option Entry)}
    (hc : ∀ e, change (e.map blank) = (change e).map (Option.map blank)) (ns : List String)
    (e : Option Entry) :
    alter change ns (e.map blank) = (alter change ns e).map (Option.map blank) := by
  induction ns generalizing e with
  | nil => exact hc e
  | cons n ns ih =>
    have hbelow : ∀ entries : List (String × Entry),
        alter change (n :: ns) (some (.directory (blankIn entries))) =
          (alter change (n :: ns) (some (.directory entries))).map (Option.map blank) := by
      intro entries
      simp only [alter, pure_bind, lookup_blankIn, ih]
      cases alter change ns (entries.lookup n) with
      | error err => rfl
      | ok x =>
        change Except.ok _ = Except.ok _
        rw [setEntry_blankIn, Option.map_some, blank]
    cases e with
    | none =>
      have hempty := hbelow []
      rw [blankIn] at hempty
      exact hempty
    | some e =>
      cases e with
      | file content modified => rw [Option.map_some, blank]; rfl
      | locked => rw [Option.map_some, blank]; rfl
      | index store => rw [Option.map_some, blank]; rfl
      | special => rw [Option.map_some, blank]; rfl
      | directory entries => rw [Option.map_some, blank]; exact hbelow entries

end Entry

mutual

theorem walkEntry_blank (c : Config) (path : String) :
    ∀ e : Entry, walkEntry c path e.blank = walkEntry c path e
  | .directory entries => by
    rw [Entry.blank, walkEntry, walkEntry, walkEntries_blankIn c (path ++ "/") entries]
  | .file content modified => by rw [Entry.blank]
  | .locked => by rw [Entry.blank]
  | .index store => by rw [Entry.blank, walkEntry, walkEntry]
  | .special => by rw [Entry.blank]

theorem walkEntries_blankIn (c : Config) (base : String) : ∀ entries : List (String × Entry),
    walkEntries c base (Entry.blankIn entries) = walkEntries c base entries
  | [] => by rw [Entry.blankIn]
  | (name, e) :: rest => by
    rw [Entry.blankIn, walkEntries, walkEntries, walkEntry_blank c (base ++ name) e,
      walkEntries_blankIn c base rest]

end

mutual

theorem Entry.tidy_blank : ∀ e : Entry, e.blank.Tidy ↔ e.Tidy
  | .directory entries => by
    rw [Entry.blank, Entry.Tidy, Entry.Tidy]
    exact Entry.tidyIn_blankIn entries
  | .file content modified => by rw [Entry.blank]
  | .locked => by rw [Entry.blank]
  | .index store => by rw [Entry.blank, Entry.Tidy, Entry.Tidy]
  | .special => by rw [Entry.blank]

theorem Entry.tidyIn_blankIn : ∀ entries : List (String × Entry),
    Entry.TidyIn (Entry.blankIn entries) ↔ Entry.TidyIn entries
  | [] => by rw [Entry.blankIn]
  | (name, e) :: rest => by
    rw [Entry.blankIn, Entry.TidyIn, Entry.TidyIn, Entry.map_fst_blankIn, Entry.tidy_blank e,
      Entry.tidyIn_blankIn rest]

end

namespace Disk

variable {d d' : Disk}

/-- A disk with empty indexes. -/
def blank (d : Disk) : Disk := ⟨d.top.blank⟩

/-- **Two trees differ in their indexes only.** -/
def SameTree (d d' : Disk) : Prop := d.blank = d'.blank

theorem entry?_blank (d : Disk) (ns : List String) :
    d.blank.entry? ns = Option.map Entry.blank ( d.entry? ns) :=
  Entry.get?_blank d.top ns

theorem step_blank (d : Disk) (ns : List String) (segment : String) :
    d.blank.step ns segment = d.step ns segment := by
  unfold step
  rw [entry?_blank]
  cases d.entry? ns with
  | none => rfl
  | some e =>
    cases e with
    | file content modified => rw [Option.map_some, Entry.blank]
    | locked => rw [Option.map_some, Entry.blank]
    | index store => rw [Option.map_some, Entry.blank]
    | special => rw [Option.map_some, Entry.blank]
    | directory entries =>
      rw [Option.map_some, Entry.blank]
      simp only [Entry.lookup_blankIn, Option.isSome_map]

theorem locate_blank (d : Disk) (path : String) : d.blank.locate path = d.locate path := by
  unfold locate
  congr 1
  funext ns segment
  exact step_blank d ns segment

theorem read_blank (d : Disk) (path : String) : d.blank.read path = d.read path := by
  unfold read
  rw [locate_blank]
  cases d.locate path with
  | error e => rfl
  | ok ns =>
    simp only [bind, Except.bind, entry?_blank]
    cases d.entry? ns with
    | none => rfl
    | some e =>
      cases e with
      | file content modified => rw [Option.map_some, Entry.blank]
      | locked => rw [Option.map_some, Entry.blank]
      | index store => rw [Option.map_some, Entry.blank]
      | special => rw [Option.map_some, Entry.blank]
      | directory entries => rw [Option.map_some, Entry.blank]

theorem find?_blank (d : Disk) (path : String) :
    d.blank.find? path = (d.find? path).map Entry.blank := by
  unfold find?
  rw [locate_blank]
  cases d.locate path with
  | error e => rfl
  | ok ns => exact entry?_blank d ns

theorem alter_blank (d : Disk) (path : String)
    {change : Option Entry → Except DiskError (Option Entry)}
    (hc : ∀ e, change (e.map Entry.blank) = (change e).map (Option.map Entry.blank)) :
    d.blank.alter path change = (d.alter path change).map blank := by
  have htop := Entry.alter_blank hc (plainNames path) (some d.top)
  rw [Option.map_some] at htop
  unfold alter
  simp only [blank, htop]
  cases Entry.alter change (plainNames path) (some d.top) with
  | error e => rfl
  | ok top => cases top <;> rfl

theorem SameTree.read_eq (h : d.SameTree d') (path : String) : d.read path = d'.read path := by
  rw [← read_blank, ← read_blank d', h]

/-- Trees that differ in their indexes only still do while an index is open. -/
theorem SameTree.opened {d d' : Disk} (h : d.SameTree d') (ix : Indexer) :
    (ix.opened d).SameTree (ix.opened d') := by
  have hblank : ∀ d : Disk, (ix.opened d).blank = ix.opened d.blank := by
    intro d
    unfold Indexer.opened
    refine (List.foldl_hom blank fun d name => ?_).symm
    rw [alter_blank]
    · cases d.alter (Path.join ix.root name) _ <;> rfl
    · rintro (_ | e)
      · simp [Entry.blank, Except.map]
      · rfl
  rw [SameTree, hblank, hblank, show d.blank = d'.blank from h]

end Disk

/-- **Trees that differ in their indexes only have the same files.** -/
theorem Job.candidates_eq {j k : Job} (h : j.disk.SameTree k.disk)
    (hroot : k.indexer.root = j.indexer.root) (hconfig : k.indexer.config = j.indexer.config) :
    k.candidates = j.candidates := by
  have hblank : ∀ i : Job, i.candidates = ({ i with disk := i.disk.blank } : Job).candidates := by
    intro i
    unfold Job.candidates Indexer.walk Indexer.entries
    dsimp only
    rw [Disk.find?_blank]
    cases i.disk.find? i.indexer.root with
    | none => rfl
    | some e =>
      cases e with
      | file content modified => rw [Option.map_some, Entry.blank]
      | locked => rw [Option.map_some, Entry.blank]
      | index store => rw [Option.map_some, Entry.blank]
      | special => rw [Option.map_some, Entry.blank]
      | directory entries =>
        rw [Option.map_some, Entry.blank]
        dsimp only
        rw [walkEntries_blankIn]
  have hdisk : j.disk.blank = k.disk.blank := h
  rw [hblank k, hblank j]
  unfold Job.candidates Indexer.walk Indexer.entries
  dsimp only
  rw [hroot, hconfig, hdisk]

end CodeAtlas
