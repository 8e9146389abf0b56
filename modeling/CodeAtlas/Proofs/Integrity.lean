import CodeAtlas.Proofs.Reconcile

/-!
# The store is sound

* `Store.Keyed`: ids grow behind their counters, and paths are unique.
* `Store.Owned`: every row has its owner.
* `Store.Linked`: a link leads to a symbol of its name in the project of its file, and a use lies in a
  symbol of its file.
* `Store.Flawless`: no cell has a flaw.
* `Store.Sound`: all of these.
* `Sound.upsertProject`, `Sound.upsertFile`, `Sound.dropSymbols`, `Sound.dropFiles`,
  `Sound.resolveLinks`: what keeps a store sound.
-/

namespace CodeAtlas.Store

variable {s : Store}

/-- Some file has an id. -/
def HasFile (s : Store) (id : Int) : Prop := ∃ f ∈ s.files, f.id = id

/-- A link of a file leads nowhere, or to a symbol of its name in the same project. -/
def Reaches (s : Store) (fileId : Int) (name : String) (link : Option Int) : Prop :=
  ∀ i, link = some i → ∃ x ∈ s.symbols, x.id = i ∧ x.name = name ∧
    ∃ p, s.ownsFile p x.fileId = true ∧ s.ownsFile p fileId = true

/-- Ids grow behind their counters, and paths are unique. -/
structure Keyed (s : Store) : Prop where
  projects : Issued s.last.projects (s.projects.map (·.id))
  files : Issued s.last.files (s.files.map (·.id))
  symbols : Issued s.last.symbols (s.symbols.map (·.id))
  imports : Issued s.last.imports (s.imports.map (·.id))
  relationships : Issued s.last.relationships (s.relationships.map (·.id))
  references : Issued s.last.references (s.references.map (·.id))
  projectPaths : (s.projects.map (·.path)).Nodup
  filePaths : (s.files.map fun f => (f.projectId, f.relativePath)).Nodup

/-- Every row has its owner. -/
structure Owned (s : Store) : Prop where
  files : ∀ f ∈ s.files, ∃ p ∈ s.projects, p.id = f.projectId
  symbols : ∀ r ∈ s.symbols, s.HasFile r.fileId
  imports : ∀ r ∈ s.imports, s.HasFile r.fileId
  relationships : ∀ r ∈ s.relationships, s.HasFile r.fileId
  references : ∀ r ∈ s.references, s.HasFile r.fileId

/-- Links lead to symbols of their names, and uses lie in symbols of their files. -/
structure Linked (s : Store) : Prop where
  sources : ∀ r ∈ s.relationships, s.Reaches r.fileId r.source r.sourceId
  targets : ∀ r ∈ s.relationships, s.Reaches r.fileId r.target r.targetId
  uses : ∀ r ∈ s.references, s.Reaches r.fileId r.target r.targetId
  users : ∀ r ∈ s.references, ∀ i, r.sourceId = some i →
    ∃ x ∈ s.symbols, x.id = i ∧ x.fileId = r.fileId

/-- No cell has a flaw. -/
structure Flawless (s : Store) : Prop where
  projects : ∀ r ∈ s.projects, r.flaws = []
  files : ∀ r ∈ s.files, r.flaws = []
  symbols : ∀ r ∈ s.symbols, r.flaws = []
  imports : ∀ r ∈ s.imports, r.flaws = []
  relationships : ∀ r ∈ s.relationships, r.flaws = []
  references : ∀ r ∈ s.references, r.flaws = []

/-- **A sound store.** -/
structure Sound (s : Store) : Prop where
  keyed : s.Keyed
  owned : s.Owned
  linked : s.Linked
  flawless : s.Flawless

theorem ownsFile_iff {p i : Int} :
    s.ownsFile p i = true ↔ ∃ f ∈ s.files, f.id = i ∧ f.projectId = p := by
  simp [ownsFile]

theorem Keyed.file_eq (h : s.Keyed) {f g : FileRow} (hf : f ∈ s.files) (hg : g ∈ s.files)
    (he : f.id = g.id) : f = g := List.inj_on_of_nodup_map h.files.nodup hf hg he

theorem Keyed.symbol_eq (h : s.Keyed) {x y : SymbolRow} (hx : x ∈ s.symbols) (hy : y ∈ s.symbols)
    (he : x.id = y.id) : x = y := List.inj_on_of_nodup_map h.symbols.nodup hx hy he

/-- The file of a project at a path is one. -/
theorem Keyed.file_eq_of_path (h : s.Keyed) {f g : FileRow} (hf : f ∈ s.files) (hg : g ∈ s.files)
    (hp : f.projectId = g.projectId) (hr : f.relativePath = g.relativePath) : f = g :=
  List.inj_on_of_nodup_map h.filePaths hf hg (Prod.ext hp hr)

/-- A file belongs to one project. -/
theorem Keyed.owner_unique (h : s.Keyed) {p q i : Int} (hp : s.ownsFile p i = true)
    (hq : s.ownsFile q i = true) : p = q := by
  obtain ⟨f, hf, hfi, rfl⟩ := ownsFile_iff.mp hp
  obtain ⟨g, hg, hgi, rfl⟩ := ownsFile_iff.mp hq
  rw [h.file_eq hf hg (hfi.trans hgi.symm)]

/-- A link keeps leading to its symbol as long as the symbol and the owners of files stay. -/
theorem Reaches.mono {t : Store} {fileId : Int} {name : String} {link link' : Option Int}
    (h : s.Reaches fileId name link) (hlink : ∀ i, link' = some i → link = some i)
    (hsym : ∀ x ∈ s.symbols, link' = some x.id → ∃ y ∈ t.symbols, y.id = x.id ∧ y.name = x.name ∧
      ∀ p, s.ownsFile p x.fileId = true → t.ownsFile p y.fileId = true)
    (hown : ∀ p, s.ownsFile p fileId = true → t.ownsFile p fileId = true) :
    t.Reaches fileId name link' := by
  intro i hi
  obtain ⟨x, hx, rfl, hname, p, hp, hp'⟩ := h i (hlink i hi)
  obtain ⟨y, hy, hyi, hyn, hyo⟩ := hsym x hx hi
  exact ⟨y, hy, hyi, hyn.trans hname, p, hyo p hp, hown p hp'⟩

theorem sound_empty : Sound .empty where
  keyed := ⟨.nil _, .nil _, .nil _, .nil _, .nil _, .nil _, List.nodup_nil, List.nodup_nil⟩
  owned := ⟨by simp [empty], by simp [empty], by simp [empty], by simp [empty], by simp [empty]⟩
  linked := ⟨by simp [empty], by simp [empty], by simp [empty], by simp [empty]⟩
  flawless := ⟨by simp [empty], by simp [empty], by simp [empty], by simp [empty], by simp [empty],
    by simp [empty]⟩

/-! ## The rows of one file -/

/-- The symbols of a file. -/
def symbolsIn (s : Store) (i : Int) : List SymbolRow := s.symbols.filter (·.fileId == i)

/-- The imports of a file. -/
def importsIn (s : Store) (i : Int) : List ImportRow := s.imports.filter (·.fileId == i)

/-- The edges of a file. -/
def relationshipsIn (s : Store) (i : Int) : List RelationshipRow :=
  s.relationships.filter (·.fileId == i)

/-- The uses in a file. -/
def referencesIn (s : Store) (i : Int) : List ReferenceRow := s.references.filter (·.fileId == i)

theorem mem_symbolsIn {i : Int} {r : SymbolRow} :
    r ∈ s.symbolsIn i ↔ r ∈ s.symbols ∧ r.fileId = i := by
  rw [symbolsIn, List.mem_filter, beq_iff_eq]

theorem mem_importsIn {i : Int} {r : ImportRow} :
    r ∈ s.importsIn i ↔ r ∈ s.imports ∧ r.fileId = i := by
  rw [importsIn, List.mem_filter, beq_iff_eq]

theorem mem_relationshipsIn {i : Int} {r : RelationshipRow} :
    r ∈ s.relationshipsIn i ↔ r ∈ s.relationships ∧ r.fileId = i := by
  rw [relationshipsIn, List.mem_filter, beq_iff_eq]

theorem mem_referencesIn {i : Int} {r : ReferenceRow} :
    r ∈ s.referencesIn i ↔ r ∈ s.references ∧ r.fileId = i := by
  rw [referencesIn, List.mem_filter, beq_iff_eq]

theorem filter_fileId_map {ρ : Type} {file : ρ → Int} {g : ρ → ρ} (hg : ∀ r, file (g r) = file r)
    (rows : List ρ) (i : Int) :
    (rows.map g).filter (file · == i) = (rows.filter (file · == i)).map g := by
  rw [List.filter_map]
  congr 1
  exact List.filter_congr fun r _ => by rw [Function.comp, hg]

theorem filter_fileId_filter {ρ : Type} {file : ρ → Int} {keep : Int → Bool} {i : Int}
    (hi : keep i = true) (rows : List ρ) :
    (rows.filter fun r => keep (file r)).filter (file · == i) = rows.filter (file · == i) := by
  rw [List.filter_filter]
  refine List.filter_congr fun r _ => ?_
  by_cases hr : file r = i
  · simp [hr, hi]
  · simp [hr]

/-! ## Projects -/

/-- Projects that stay, with the rest of the store as it was. -/
theorem Sound.withProjects (h : s.Sound) {projects : List ProjectRow} {last : Int}
    (hids : Issued last (projects.map (·.id))) (hpaths : (projects.map (·.path)).Nodup)
    (hflaws : ∀ r ∈ projects, r.flaws = [])
    (hsub : ∀ r ∈ s.projects, ∃ r' ∈ projects, r'.id = r.id) :
    Sound { s with projects, last := { s.last with projects := last } } where
  keyed := { h.keyed with projects := hids, projectPaths := hpaths }
  owned :=
    { h.owned with
      files := fun f hf => by
        obtain ⟨r, hr, he⟩ := h.owned.files f hf
        obtain ⟨r', hr', he'⟩ := hsub r hr
        exact ⟨r', hr', he'.trans he⟩ }
  linked := ⟨h.linked.sources, h.linked.targets, h.linked.uses, h.linked.users⟩
  flawless := { h.flawless with projects := hflaws }

/-- A project that is new. -/
def newProject (s : Store) (now : Int) (path name : String) : ProjectRow where
  id := s.last.projects + 1
  path := path
  name := name
  languageStats := []
  createdAt := now
  lastIndexed := none

/-- The projects after one was inserted or renamed. -/
def projectsAfter (s : Store) (now : Int) (path name : String) : List ProjectRow :=
  if s.projects.any (·.path == path) then
    s.projects.map fun r => if r.path == path then { r with name } else r
  else s.projects ++ [s.newProject now path name]

theorem upsertProject_state {now : Int} {path name : String} {x : Project} {t : Store}
    (h : s.upsertProject now path name = .ok (x, t)) :
    t = { s with
      projects := s.projectsAfter now path name
      last := { s.last with projects := s.last.projects + 1 } } := by
  unfold upsertProject at h
  simp only [bind, Except.bind] at h
  split at h
  · cases h
  · split at h
    · cases h
      rfl
    · cases h

theorem Sound.upsertProject (h : s.Sound) {now : Int} {path name : String} {x : Project} {t : Store}
    (ht : s.upsertProject now path name = .ok (x, t)) : t.Sound := by
  rw [upsertProject_state ht]
  by_cases hany : s.projects.any (·.path == path) = true
  · have hp : s.projectsAfter now path name =
        s.projects.map fun r => if r.path == path then { r with name } else r := if_pos hany
    have hids : (s.projectsAfter now path name).map (·.id) = s.projects.map (·.id) := by
      rw [hp, List.map_map]
      exact List.map_congr_left fun r _ => by simp only [Function.comp]; split <;> rfl
    have hpaths : (s.projectsAfter now path name).map (·.path) = s.projects.map (·.path) := by
      rw [hp, List.map_map]
      exact List.map_congr_left fun r _ => by simp only [Function.comp]; split <;> rfl
    refine h.withProjects (by rw [hids]; exact h.keyed.projects.mono (by omega))
      (by rw [hpaths]; exact h.keyed.projectPaths) ?_ ?_
    · rw [hp, List.forall_mem_map]
      intro r hr
      split <;> exact h.flawless.projects r hr
    · intro r hr
      have : r.id ∈ (s.projectsAfter now path name).map (·.id) := by
        rw [hids]; exact List.mem_map_of_mem hr
      exact List.mem_map.mp this
  · have hp : s.projectsAfter now path name = s.projects ++ [s.newProject now path name] :=
      if_neg hany
    rw [hp]
    refine h.withProjects ?_ ?_ ?_ fun r hr => ⟨r, List.mem_append_left _ hr, rfl⟩
    · rw [List.map_append]
      exact h.keyed.projects.snoc
    · rw [List.map_append]
      refine h.keyed.projectPaths.append (List.nodup_singleton _) ?_
      intro q hq hq'
      obtain ⟨r, hr, rfl⟩ := List.mem_map.mp hq
      exact hany (List.any_eq_true.mpr ⟨r, hr, by simpa [newProject] using hq'⟩)
    · intro r hr
      rcases List.mem_append.mp hr with hr | hr
      · exact h.flawless.projects r hr
      · rw [List.mem_singleton.mp hr]
        rfl

/-- Counting a project stores the count, and gives back what can then be read. -/
theorem refresh_spec {now p : Int} {x : Project} {t : Store} :
    s.refresh now p = .ok (x, t) ↔ (s.stamp now p).stamped p = .ok x ∧ t = s.stamp now p := by
  unfold Store.refresh
  simp only [bind, Except.bind]
  cases (s.stamp now p).stamped p with
  | error e => simp
  | ok y => simp [pure, Except.pure, eq_comm]

theorem refresh_state {now p : Int} {x : Project} {t : Store}
    (h : s.refresh now p = .ok (x, t)) :
    t = { s with projects := s.projects.map fun r =>
      if r.id == p then
        { r with languageStats := s.languageCounts p, lastIndexed := some now
                 flaws := mend ["last_indexed"] r.flaws }
      else r } :=
  (refresh_spec.mp h).2

theorem Sound.refresh (h : s.Sound) {now p : Int} {x : Project} {t : Store}
    (ht : s.refresh now p = .ok (x, t)) : t.Sound := by
  rw [refresh_state ht]
  have hids : ∀ g : ProjectRow → ProjectRow, (∀ r, (g r).id = r.id) →
      (s.projects.map g).map (·.id) = s.projects.map (·.id) := by
    intro g hg
    rw [List.map_map]
    exact List.map_congr_left fun r _ => hg r
  refine @Sound.withProjects s h _ s.last.projects ?_ ?_ ?_ ?_
  · rw [hids _ fun r => by split <;> rfl]
    exact h.keyed.projects
  · rw [List.map_map]
    convert h.keyed.projectPaths using 1
    exact List.map_congr_left fun r _ => by simp only [Function.comp]; split <;> rfl
  · rw [List.forall_mem_map]
    intro r hr
    split
    · simp [mend, h.flawless.projects r hr]
    · exact h.flawless.projects r hr
  · exact fun r hr => ⟨_, List.mem_map_of_mem hr, by split <;> rfl⟩

/-! ## Files -/

/-- The owners of files stay when files are rewritten in place or appended. -/
theorem Sound.withFiles (h : s.Sound) {files : List FileRow} {last : Int}
    (hids : Issued last (files.map (·.id)))
    (hpaths : (files.map fun f => (f.projectId, f.relativePath)).Nodup)
    (howner : ∀ f ∈ files, ∃ p ∈ s.projects, p.id = f.projectId)
    (hflaws : ∀ r ∈ files, r.flaws = [])
    (hsub : ∀ f ∈ s.files, ∃ f' ∈ files, f'.id = f.id ∧ f'.projectId = f.projectId) :
    Sound { s with files, last := { s.last with files := last } } := by
  have hhas : ∀ i, s.HasFile i →
      HasFile { s with files, last := { s.last with files := last } } i := by
    rintro i ⟨f, hf, rfl⟩
    obtain ⟨f', hf', he, -⟩ := hsub f hf
    exact ⟨f', hf', he⟩
  have hown : ∀ p i, s.ownsFile p i = true →
      ownsFile { s with files, last := { s.last with files := last } } p i = true := by
    intro p i hp
    obtain ⟨f, hf, hi, hpr⟩ := ownsFile_iff.mp hp
    obtain ⟨f', hf', he, he'⟩ := hsub f hf
    exact ownsFile_iff.mpr ⟨f', hf', he.trans hi, he'.trans hpr⟩
  have hreach : ∀ i n l, s.Reaches i n l →
      Reaches { s with files, last := { s.last with files := last } } i n l := fun i n l hr =>
    hr.mono (fun _ h => h) (fun x hx _ => ⟨x, hx, rfl, rfl, fun p => hown p _⟩) fun p => hown p i
  exact {
    keyed := { h.keyed with files := hids, filePaths := hpaths }
    owned := {
      files := howner
      symbols := fun r hr => hhas _ (h.owned.symbols r hr)
      imports := fun r hr => hhas _ (h.owned.imports r hr)
      relationships := fun r hr => hhas _ (h.owned.relationships r hr)
      references := fun r hr => hhas _ (h.owned.references r hr) }
    linked := {
      sources := fun r hr => hreach _ _ _ (h.linked.sources r hr)
      targets := fun r hr => hreach _ _ _ (h.linked.targets r hr)
      uses := fun r hr => hreach _ _ _ (h.linked.uses r hr)
      users := h.linked.users }
    flawless := { h.flawless with files := hflaws } }

/-- What becomes of the files when one is stored: the row at its path is rewritten, or a row is
appended. -/
inductive FileUpsert (s : Store) (now p : Int) (f : SourceFile) : Int → List FileRow → Prop where
  | rewritten {old : FileRow} (hold : old ∈ s.files) (hp : old.projectId = p)
      (hr : old.relativePath = f.relativePath) :
      FileUpsert s now p f old.id
        (s.files.map fun r => if r.id == old.id then fileRow now p old.id f else r)
  | appended (hnew : ∀ r ∈ s.files, ¬ (r.projectId = p ∧ r.relativePath = f.relativePath)) :
      FileUpsert s now p f (s.last.files + 1) (s.files ++ [fileRow now p (s.last.files + 1) f])

theorem upsertFile_spec (h : s.Keyed) {now p : Int} {f : SourceFile} {i : Int} {t : Store}
    (ht : s.upsertFile now p f = .ok (i, t)) :
    (∃ r ∈ s.projects, r.id = p) ∧ ∃ files, s.FileUpsert now p f i files ∧
      t = { s with files, last := { s.last with files := s.last.files + 1 } } := by
  unfold upsertFile at ht
  simp only [bind, Except.bind] at ht
  split at ht
  · cases ht
  next hproj =>
  refine ⟨by simpa using hproj, ?_⟩
  split at ht
  · next old hold =>
    cases ht
    have hmem := List.mem_of_find?_eq_some hold
    have hold' := List.find?_some hold
    simp only [Bool.and_eq_true, beq_iff_eq] at hold'
    refine ⟨_, .rewritten hmem hold'.1 hold'.2, ?_⟩
    congr 1
    refine List.map_congr_left fun r hr => ?_
    by_cases hro : r = old
    · subst hro
      simp [hold'.1, hold'.2]
    · have h1 : ¬ (r.projectId = p ∧ r.relativePath = f.relativePath) := fun ⟨h1, h2⟩ =>
        hro (h.file_eq_of_path hr hmem (h1.trans hold'.1.symm) (h2.trans hold'.2.symm))
      have h2 : r.id ≠ old.id := fun he => hro (h.file_eq hr hmem he)
      rw [if_neg (by simpa using h1), if_neg (by simpa using h2)]
  · next hnone =>
    cases ht
    refine ⟨_, .appended fun r hr => ?_, rfl⟩
    simpa using List.find?_eq_none.mp hnone r hr

theorem FileUpsert.id_mem {now p i : Int} {f : SourceFile} {files : List FileRow}
    (h : s.FileUpsert now p f i files) : fileRow now p i f ∈ files := by
  cases h with
  | @rewritten old hold hp hr =>
    exact List.mem_map.mpr ⟨old, hold, by simp⟩
  | appended hnew => exact List.mem_append_right _ (List.mem_singleton_self _)

theorem FileUpsert.mem_iff (hs : s.Keyed) {now p i : Int} {f : SourceFile} {files : List FileRow}
    (h : s.FileUpsert now p f i files) {g : FileRow} :
    g ∈ files ↔ g = fileRow now p i f ∨ (g ∈ s.files ∧ g.id ≠ i) := by
  cases h with
  | @rewritten old hold hp hr =>
    constructor
    · intro hg
      obtain ⟨r, hr', rfl⟩ := List.mem_map.mp hg
      by_cases he : r.id = old.id
      · rw [if_pos (by simpa using he)]
        exact Or.inl rfl
      · rw [if_neg (by simpa using he)]
        exact Or.inr ⟨hr', he⟩
    · rintro (rfl | ⟨hg, hne⟩)
      · exact List.mem_map.mpr ⟨old, hold, by simp⟩
      · exact List.mem_map.mpr ⟨g, hg, if_neg (by simpa using hne)⟩
  | appended hnew =>
    rw [List.mem_append, List.mem_singleton]
    constructor
    · rintro (hg | rfl)
      · have := hs.files.bound _ (List.mem_map_of_mem hg)
        exact Or.inr ⟨hg, by omega⟩
      · exact Or.inl rfl
    · rintro (rfl | ⟨hg, -⟩)
      · exact Or.inr rfl
      · exact Or.inl hg

/-- The row of a file that is stored is the one it had, or a new one. -/
theorem FileUpsert.old_or_new {now p i : Int} {f : SourceFile} {files : List FileRow}
    (h : s.FileUpsert now p f i files) :
    (∃ old ∈ s.files, old.id = i ∧ old.projectId = p ∧ old.relativePath = f.relativePath) ∨
      i = s.last.files + 1 ∧
        ∀ r ∈ s.files, ¬ (r.projectId = p ∧ r.relativePath = f.relativePath) := by
  cases h with
  | @rewritten old hold hp hr => exact Or.inl ⟨old, hold, rfl, hp, hr⟩
  | appended hnew => exact Or.inr ⟨rfl, hnew⟩

/-- Another file has another path. -/
theorem FileUpsert.path_ne (hs : s.Keyed) {now p i : Int} {f : SourceFile} {files : List FileRow}
    (h : s.FileUpsert now p f i files) {g : FileRow} (hg : g ∈ s.files) (hne : g.id ≠ i) :
    ¬ (g.projectId = p ∧ g.relativePath = f.relativePath) := by
  cases h with
  | @rewritten old hold hp hr =>
    rintro ⟨h1, h2⟩
    exact hne (congrArg (·.id) (hs.file_eq_of_path hg hold (h1.trans hp.symm) (h2.trans hr.symm)))
  | appended hnew => exact hnew g hg

theorem Sound.upsertFile (h : s.Sound) {now p i : Int} {f : SourceFile} {t : Store}
    (ht : s.upsertFile now p f = .ok (i, t)) : t.Sound := by
  obtain ⟨hproj, files, hup, rfl⟩ := upsertFile_spec h.keyed ht
  have hmem := @FileUpsert.mem_iff s h.keyed _ _ _ _ _ hup
  refine h.withFiles ?_ ?_ ?_ ?_ ?_
  · cases hup with
    | @rewritten old hold hp hr =>
      rw [List.map_map]
      refine @Issued.mono s.last.files _ _ ?_ (by omega)
      convert h.keyed.files using 1
      refine List.map_congr_left fun r _ => ?_
      simp only [Function.comp]
      split
      · next he => exact (by simpa using he : r.id = old.id).symm
      · rfl
    | appended hnew =>
      rw [List.map_append]
      exact h.keyed.files.snoc
  · cases hup with
    | @rewritten old hold hp hr =>
      rw [List.map_map]
      convert h.keyed.filePaths using 1
      refine List.map_congr_left fun r hr' => ?_
      simp only [Function.comp]
      split
      · next he =>
        rw [h.keyed.file_eq hr' hold (by simpa using he), hp, hr]
        rfl
      · rfl
    | appended hnew =>
      rw [List.map_append]
      refine h.keyed.filePaths.append (List.nodup_singleton _) ?_
      intro q hq hq'
      obtain ⟨r, hr, rfl⟩ := List.mem_map.mp hq
      have he := List.mem_singleton.mp hq'
      exact hnew r hr ⟨congrArg Prod.fst he, congrArg Prod.snd he⟩
  · intro g hg
    rcases hmem.mp hg with rfl | ⟨hg, -⟩
    · exact hproj
    · exact h.owned.files g hg
  · intro g hg
    rcases hmem.mp hg with rfl | ⟨hg, -⟩
    · rfl
    · exact h.flawless.files g hg
  · intro g hg
    by_cases he : g.id = i
    · refine ⟨fileRow now p i f, hmem.mpr (Or.inl rfl), he.symm, ?_⟩
      cases hup with
      | @rewritten old hold hp hr => rw [h.keyed.file_eq hg hold he, hp]; rfl
      | appended hnew =>
        have := h.keyed.files.bound _ (List.mem_map_of_mem hg)
        omega
    · exact ⟨g, hmem.mpr (Or.inr ⟨hg, he⟩), rfl, rfl⟩

/-! ## Symbols that go -/

section DropSymbols

variable (gone : SymbolRow → Bool)

/-- A link that does not lead to a symbol that is gone. -/
def cleared (s : Store) (gone : SymbolRow → Bool) (link : Option Int) : Option Int :=
  link.filter fun i => !((s.symbols.filter gone).map (·.id)).contains i

theorem cleared_eq_some {link : Option Int} {i : Int} :
    s.cleared gone link = some i ↔ link = some i ∧ i ∉ (s.symbols.filter gone).map (·.id) := by
  simp only [cleared, Option.filter_eq_some_iff, Bool.not_eq_eq_eq_not, Bool.not_true,
    List.contains_eq_mem, decide_eq_false_iff_not]

/-- An edge whose links to symbols that are gone are cleared. -/
def clearEdge (s : Store) (gone : SymbolRow → Bool) (r : RelationshipRow) : RelationshipRow :=
  { r with sourceId := s.cleared gone r.sourceId, targetId := s.cleared gone r.targetId }

/-- A use whose links to symbols that are gone are cleared. -/
def clearUse (s : Store) (gone : SymbolRow → Bool) (r : ReferenceRow) : ReferenceRow :=
  { r with sourceId := s.cleared gone r.sourceId, targetId := s.cleared gone r.targetId }

theorem dropSymbols_eq : s.dropSymbols gone =
    { s with
      symbols := s.symbols.filter fun r => !gone r
      relationships := s.relationships.map (s.clearEdge gone)
      references := s.references.map (s.clearUse gone) } := rfl

theorem mem_dropSymbols {x : SymbolRow} :
    x ∈ (s.dropSymbols gone).symbols ↔ x ∈ s.symbols ∧ gone x = false := by
  rw [dropSymbols_eq, List.mem_filter, Bool.not_eq_eq_eq_not, Bool.not_true]

/-- A symbol that a link still leads to is still there. -/
theorem mem_dropSymbols_of_cleared {link : Option Int} {x : SymbolRow} (hx : x ∈ s.symbols)
    (h : s.cleared gone link = some x.id) : x ∈ (s.dropSymbols gone).symbols := by
  obtain ⟨-, hx'⟩ := (cleared_eq_some gone).mp h
  refine (mem_dropSymbols gone).mpr ⟨hx, ?_⟩
  by_contra hg
  exact hx' (List.mem_map_of_mem (List.mem_filter.mpr ⟨hx, by simpa using hg⟩))

theorem Sound.dropSymbols (h : s.Sound) : (s.dropSymbols gone).Sound := by
  have hreach : ∀ i n l, s.Reaches i n l → (s.dropSymbols gone).Reaches i n (s.cleared gone l) :=
    fun i n l hr => hr.mono (fun j hj => ((cleared_eq_some gone).mp hj).1)
      (fun x hx hl => ⟨x, mem_dropSymbols_of_cleared gone hx hl, rfl, rfl, fun _ hp => hp⟩)
      fun _ hp => hp
  rw [dropSymbols_eq] at hreach ⊢
  exact {
    keyed := {
      h.keyed with
      symbols := h.keyed.symbols.sublist (List.Sublist.map _ List.filter_sublist)
      relationships := by rw [List.map_map]; exact h.keyed.relationships
      references := by rw [List.map_map]; exact h.keyed.references }
    owned := {
      h.owned with
      symbols := fun r hr => h.owned.symbols r (List.mem_of_mem_filter hr)
      relationships := List.forall_mem_map.mpr h.owned.relationships
      references := List.forall_mem_map.mpr h.owned.references }
    linked := {
      sources := List.forall_mem_map.mpr fun r hr => hreach _ _ _ (h.linked.sources r hr)
      targets := List.forall_mem_map.mpr fun r hr => hreach _ _ _ (h.linked.targets r hr)
      uses := List.forall_mem_map.mpr fun r hr => hreach _ _ _ (h.linked.uses r hr)
      users := List.forall_mem_map.mpr fun r hr i hi => by
        obtain ⟨x, hx, rfl, hf⟩ := h.linked.users r hr i ((cleared_eq_some gone).mp hi).1
        exact ⟨x, mem_dropSymbols_of_cleared gone hx hi, rfl, hf⟩ }
    flawless := {
      h.flawless with
      symbols := fun r hr => h.flawless.symbols r (List.mem_of_mem_filter hr)
      relationships := List.forall_mem_map.mpr h.flawless.relationships
      references := List.forall_mem_map.mpr h.flawless.references } }

end DropSymbols

/-! ## Files that go -/

section DropFiles

variable (gone : FileRow → Bool)

/-- The ids of the files that go. -/
def goneIds (s : Store) : List Int := (s.files.filter gone).map (·.id)

theorem dropFiles_eq : s.dropFiles gone =
    { s.dropSymbols (fun r => (goneIds gone s).contains r.fileId) with
      files := s.files.filter fun f => !gone f
      imports := s.imports.filter fun r => !(goneIds gone s).contains r.fileId
      relationships := (s.dropSymbols (fun r => (goneIds gone s).contains r.fileId)).relationships.filter
        fun r => !(goneIds gone s).contains r.fileId
      references := (s.dropSymbols (fun r => (goneIds gone s).contains r.fileId)).references.filter
        fun r => !(goneIds gone s).contains r.fileId } := rfl

theorem mem_dropFiles {f : FileRow} : f ∈ (s.dropFiles gone).files ↔ f ∈ s.files ∧ gone f = false := by
  rw [dropFiles_eq, List.mem_filter, Bool.not_eq_eq_eq_not, Bool.not_true]

theorem mem_goneIds (h : s.Keyed) {f : FileRow} (hf : f ∈ s.files) :
    f.id ∈ goneIds gone s ↔ gone f = true := by
  constructor
  · intro hi
    obtain ⟨g, hg, he⟩ := List.mem_map.mp hi
    obtain ⟨hg, hgone⟩ := List.mem_filter.mp hg
    rwa [← h.file_eq hg hf he]
  · exact fun hg => List.mem_map_of_mem (List.mem_filter.mpr ⟨hf, hg⟩)

theorem Sound.dropFiles (h : s.Sound) : (s.dropFiles gone).Sound := by
  set t := s.dropSymbols (fun r => (goneIds gone s).contains r.fileId) with ht
  have h' : t.Sound := h.dropSymbols _
  have hhas : ∀ i, i ∉ goneIds gone s → t.HasFile i → (s.dropFiles gone).HasFile i := by
    rintro i hi ⟨f, hf, rfl⟩
    refine ⟨f, (mem_dropFiles gone).mpr ⟨hf, ?_⟩, rfl⟩
    simpa using fun hg => hi ((mem_goneIds gone h.keyed hf).mpr hg)
  have hown : ∀ p i, i ∉ goneIds gone s → t.ownsFile p i = true →
      (s.dropFiles gone).ownsFile p i = true := by
    intro p i hi hp
    obtain ⟨f, hf, rfl, hpr⟩ := ownsFile_iff.mp hp
    refine ownsFile_iff.mpr ⟨f, (mem_dropFiles gone).mpr ⟨hf, ?_⟩, rfl, hpr⟩
    simpa using fun hg => hi ((mem_goneIds gone h.keyed hf).mpr hg)
  have hkept : ∀ {i : Int}, (!(goneIds gone s).contains i) = true → i ∉ goneIds gone s := by
    intro i hi
    simpa using hi
  have hsym : ∀ x ∈ t.symbols, x.fileId ∉ goneIds gone s := by
    intro x hx
    obtain ⟨-, hg⟩ := (mem_dropSymbols _).mp hx
    simpa using hg
  have hreach : ∀ i n l, i ∉ goneIds gone s → t.Reaches i n l →
      (s.dropFiles gone).Reaches i n l := fun i n l hi hr =>
    hr.mono (fun _ hl => hl)
      (fun x hx _ => ⟨x, hx, rfl, rfl, fun p => hown p _ (hsym x hx)⟩) fun p => hown p i hi
  rw [dropFiles_eq] at hhas hreach ⊢
  exact {
    keyed := {
      h'.keyed with
      files := h.keyed.files.sublist (List.Sublist.map _ List.filter_sublist)
      imports := h.keyed.imports.sublist (List.Sublist.map _ List.filter_sublist)
      relationships := h'.keyed.relationships.sublist (List.Sublist.map _ List.filter_sublist)
      references := h'.keyed.references.sublist (List.Sublist.map _ List.filter_sublist)
      filePaths := h.keyed.filePaths.sublist (List.Sublist.map _ List.filter_sublist) }
    owned := {
      files := fun f hf => h.owned.files f (List.mem_of_mem_filter hf)
      symbols := fun r hr => hhas _ (hsym r hr) (h'.owned.symbols r hr)
      imports := fun r hr => by
        obtain ⟨hr, hk⟩ := List.mem_filter.mp hr
        exact hhas _ (hkept hk) (h.owned.imports r hr)
      relationships := fun r hr => by
        obtain ⟨hr, hk⟩ := List.mem_filter.mp hr
        exact hhas _ (hkept hk) (h'.owned.relationships r hr)
      references := fun r hr => by
        obtain ⟨hr, hk⟩ := List.mem_filter.mp hr
        exact hhas _ (hkept hk) (h'.owned.references r hr) }
    linked := {
      sources := fun r hr => by
        obtain ⟨hr, hk⟩ := List.mem_filter.mp hr
        exact hreach _ _ _ (hkept hk) (h'.linked.sources r hr)
      targets := fun r hr => by
        obtain ⟨hr, hk⟩ := List.mem_filter.mp hr
        exact hreach _ _ _ (hkept hk) (h'.linked.targets r hr)
      uses := fun r hr => by
        obtain ⟨hr, hk⟩ := List.mem_filter.mp hr
        exact hreach _ _ _ (hkept hk) (h'.linked.uses r hr)
      users := fun r hr => h'.linked.users r (List.mem_of_mem_filter hr) }
    flawless := {
      h'.flawless with
      files := fun f hf => h.flawless.files f (List.mem_of_mem_filter hf)
      imports := fun r hr => h.flawless.imports r (List.mem_of_mem_filter hr)
      relationships := fun r hr => h'.flawless.relationships r (List.mem_of_mem_filter hr)
      references := fun r hr => h'.flawless.references r (List.mem_of_mem_filter hr) } }

end DropFiles

/-! ## Links of the files that stay -/

section Frames

theorem relationshipsIn_dropSymbols (gone : SymbolRow → Bool) (i : Int) :
    (s.dropSymbols gone).relationshipsIn i = (s.relationshipsIn i).map (s.clearEdge gone) :=
  @filter_fileId_map _ RelationshipRow.fileId (s.clearEdge gone) (fun _ => rfl) _ _

theorem referencesIn_dropSymbols (gone : SymbolRow → Bool) (i : Int) :
    (s.dropSymbols gone).referencesIn i = (s.referencesIn i).map (s.clearUse gone) :=
  @filter_fileId_map _ ReferenceRow.fileId (s.clearUse gone) (fun _ => rfl) _ _

variable {gone : FileRow → Bool} {i : Int}

/-- Whether a symbol goes with its file. -/
def goesWith (s : Store) (gone : FileRow → Bool) (r : SymbolRow) : Bool :=
  (goneIds gone s).contains r.fileId

theorem importsIn_dropFiles (hi : i ∉ goneIds gone s) :
    (s.dropFiles gone).importsIn i = s.importsIn i :=
  @filter_fileId_filter _ _ (fun j => !(goneIds gone s).contains j) i (by simpa using hi) _

theorem relationshipsIn_dropFiles (hi : i ∉ goneIds gone s) :
    (s.dropFiles gone).relationshipsIn i =
      (s.relationshipsIn i).map (s.clearEdge (s.goesWith gone)) :=
  (@filter_fileId_filter _ _ (fun j => !(goneIds gone s).contains j) i (by simpa using hi) _).trans
    (relationshipsIn_dropSymbols _ _)

theorem referencesIn_dropFiles (hi : i ∉ goneIds gone s) :
    (s.dropFiles gone).referencesIn i =
      (s.referencesIn i).map (s.clearUse (s.goesWith gone)) :=
  (@filter_fileId_filter _ _ (fun j => !(goneIds gone s).contains j) i (by simpa using hi) _).trans
    (referencesIn_dropSymbols _ _)

theorem mem_symbols_dropFiles {x : SymbolRow} :
    x ∈ (s.dropFiles gone).symbols ↔ x ∈ s.symbols ∧ x.fileId ∉ goneIds gone s := by
  have h := @mem_dropSymbols s (s.goesWith gone) x
  rw [dropFiles_eq]
  refine h.trans (and_congr_right fun _ => ?_)
  simp [goesWith]

end Frames

/-! ## Names and links -/

section Links

variable {p : Int} {n : String}

theorem mem_idsNamed {j : Int} :
    j ∈ s.idsNamed p n ↔ ∃ x ∈ s.symbols, x.id = j ∧ x.name = n ∧ s.ownsFile p x.fileId = true := by
  simp only [idsNamed, List.mem_map, List.mem_filter, Bool.and_eq_true, beq_iff_eq]
  constructor
  · rintro ⟨x, ⟨hx, hn, ho⟩, hj⟩
    exact ⟨x, hx, hj, hn, ho⟩
  · rintro ⟨x, hx, hj, hn, ho⟩
    exact ⟨x, ⟨hx, hn, ho⟩, hj⟩

theorem uniqueId?_eq_only? (p : Int) (n : String) : s.uniqueId? p n = only? (s.idsNamed p n) := by
  unfold uniqueId?
  cases s.idsNamed p n with
  | nil => rfl
  | cons i ids => cases ids <;> rfl

theorem uniqueId?_eq_some {j : Int} : s.uniqueId? p n = some j ↔ s.idsNamed p n = [j] := by
  unfold uniqueId?
  split
  · next i hi => simp [hi]
  · next hne =>
    constructor
    · intro h; cases h
    · intro h; exact absurd h (hne j)

theorem reaches_uniqueId? {i : Int} (hi : s.ownsFile p i = true) :
    s.Reaches i n (s.uniqueId? p n) := by
  intro j hj
  have hmem : j ∈ s.idsNamed p n := by
    rw [uniqueId?_eq_some.mp hj]
    exact List.mem_singleton_self j
  obtain ⟨x, hx, hxj, hn, ho⟩ := mem_idsNamed.mp hmem
  exact ⟨x, hx, hxj, hn, p, ho, hi⟩

end Links

/-! ## Links brought in line -/

section ResolveLinks

variable (p : Int)

theorem relink_eq_some {i j : Int} {n : String} {link : Option Int}
    (h : s.relink p i n link = some j) : link = some j ∨ s.uniqueId? p n = some j := by
  simp only [relink, Option.or_eq_some_iff] at h
  rcases h with h | ⟨-, h⟩
  · exact Or.inl (Option.filter_eq_some_iff.mp h).1
  · exact Or.inr h

/-- A use whose link is in line. -/
def relinkUse (s : Store) (p : Int) (r : ReferenceRow) : ReferenceRow :=
  if s.ownsFile p r.fileId then
    { r with targetId := s.relink p r.fileId r.target r.targetId } else r

/-- An edge whose links are in line. -/
def relinkEdge (s : Store) (p : Int) (r : RelationshipRow) : RelationshipRow :=
  if s.ownsFile p r.fileId then
    { r with
      targetId := s.relink p r.fileId r.target r.targetId
      sourceId := s.relink p r.fileId r.source r.sourceId } else r

theorem resolveLinks_eq : (s.resolveLinks p).2 =
    { s with
      references := s.references.map (s.relinkUse p)
      relationships := s.relationships.map (s.relinkEdge p) } := rfl

theorem Sound.resolveLinks (h : s.Sound) : (s.resolveLinks p).2.Sound := by
  have hreach : ∀ {i n l}, s.ownsFile p i = true → s.Reaches i n l →
      s.Reaches i n (s.relink p i n l) := by
    intro i n l hi hr j hj
    rcases relink_eq_some p hj with hl | hu
    · exact hr j hl
    · exact reaches_uniqueId? hi j hu
  rw [resolveLinks_eq]
  exact {
    keyed := {
      h.keyed with
      relationships := by
        rw [List.map_map]
        convert h.keyed.relationships using 1
        exact List.map_congr_left fun r _ => by
          simp only [Function.comp, relinkEdge]; split <;> rfl
      references := by
        rw [List.map_map]
        convert h.keyed.references using 1
        exact List.map_congr_left fun r _ => by
          simp only [Function.comp, relinkUse]; split <;> rfl }
    owned := {
      h.owned with
      relationships := List.forall_mem_map.mpr fun r hr => by
        unfold relinkEdge; split <;> exact h.owned.relationships r hr
      references := List.forall_mem_map.mpr fun r hr => by
        unfold relinkUse; split <;> exact h.owned.references r hr }
    linked := {
      sources := List.forall_mem_map.mpr fun r hr => by
        unfold relinkEdge
        split
        · next ho => exact hreach ho (h.linked.sources r hr)
        · exact h.linked.sources r hr
      targets := List.forall_mem_map.mpr fun r hr => by
        unfold relinkEdge
        split
        · next ho => exact hreach ho (h.linked.targets r hr)
        · exact h.linked.targets r hr
      uses := List.forall_mem_map.mpr fun r hr => by
        unfold relinkUse
        split
        · next ho => exact hreach ho (h.linked.uses r hr)
        · exact h.linked.uses r hr
      users := List.forall_mem_map.mpr fun r hr => by
        unfold relinkUse; split <;> exact h.linked.users r hr }
    flawless := {
      h.flawless with
      relationships := List.forall_mem_map.mpr fun r hr => by
        unfold relinkEdge; split <;> exact h.flawless.relationships r hr
      references := List.forall_mem_map.mpr fun r hr => by
        unfold relinkUse; split <;> exact h.flawless.references r hr } }

end ResolveLinks

/-! ## What people keep on symbols -/

section SetWorkflow

variable (id : Int) (w : Workflow)

/-- A symbol on which people may have set something. -/
def worked (id : Int) (w : Workflow) (r : SymbolRow) : SymbolRow :=
  if r.id == id then { r with workflow := w, flaws := mend ["priority"] r.flaws } else r

theorem setWorkflow_eq : (s.setWorkflow id w).2 = { s with symbols := s.symbols.map (worked id w) } :=
  rfl

theorem worked_stays (r : SymbolRow) : (worked id w r).id = r.id ∧ (worked id w r).fileId = r.fileId ∧
    (worked id w r).toDeclaration.shape = r.toDeclaration.shape := by
  unfold worked
  split <;> exact ⟨rfl, rfl, rfl⟩

theorem Sound.setWorkflow (h : s.Sound) : (s.setWorkflow id w).2.Sound := by
  have hreach : ∀ i n l, s.Reaches i n l → (s.setWorkflow id w).2.Reaches i n l := fun i n l hr =>
    hr.mono (fun _ hl => hl) (fun x hx _ => by
      obtain ⟨h1, h2, h3⟩ := worked_stays id w x
      exact ⟨worked id w x, List.mem_map_of_mem hx, h1, Declaration.name_eq_of_shape h3,
        fun q hq => by rw [h2]; exact hq⟩) fun _ hq => hq
  rw [setWorkflow_eq] at hreach ⊢
  exact {
    keyed := {
      h.keyed with
      symbols := by
        rw [List.map_map]
        convert h.keyed.symbols using 1
        exact List.map_congr_left fun r _ => (worked_stays id w r).1 }
    owned := {
      h.owned with
      symbols := List.forall_mem_map.mpr fun r hr => by
        rw [(worked_stays id w r).2.1]; exact h.owned.symbols r hr }
    linked := {
      sources := fun r hr => hreach _ _ _ (h.linked.sources r hr)
      targets := fun r hr => hreach _ _ _ (h.linked.targets r hr)
      uses := fun r hr => hreach _ _ _ (h.linked.uses r hr)
      users := fun r hr i hi => by
        obtain ⟨x, hx, hxi, hxf⟩ := h.linked.users r hr i hi
        obtain ⟨h1, h2, -⟩ := worked_stays id w x
        exact ⟨_, List.mem_map_of_mem hx, h1.trans hxi, h2.trans hxf⟩ }
    flawless := {
      h.flawless with
      symbols := List.forall_mem_map.mpr fun r hr => by
        unfold worked
        split
        · simp [mend, h.flawless.symbols r hr]
        · exact h.flawless.symbols r hr } }

end SetWorkflow

end CodeAtlas.Store
