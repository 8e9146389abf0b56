import CodeAtlas.Proofs.Collect
import CodeAtlas.Proofs.Mates

/-!
# What a full run leaves behind

* `Archive.fullRun`: some files are stored, and the run ends.
* `fullRun_cases`: each file that is left was stored by the run or left alone by it.
* `settled_finished`: the links of the project are in line.
* `matched_fullRun`: **two runs that store the same files in different orders leave files behind that
  are mates**. `fullRun_last`, `removed_logged`, `refresh_congr`: counters, the number of files that
  go, and projects are the same.
-/

namespace CodeAtlas

namespace Archive

variable {a : Archive} {t : RunTarget} {log log' : List Parsed} {keep keep' : List String}
  {g h : FileRow} {x : Parsed}

/-- Some files are stored, and the run ends. -/
def fullRun (a : Archive) (t : RunTarget) (log : List Parsed) (keep : List String) : Archive :=
  (a.logged t log).finished t keep

theorem Faithful.fullRun (ha : a.Faithful) (t : RunTarget) (log : List Parsed)
    (keep : List String) : (a.fullRun t log keep).Faithful :=
  (ha.logged t log).finished t keep

/-- A file that was not stored is left alone if it is to be kept. -/
theorem Stays.fullRun (ha : a.Faithful) (hg : g ∈ a.store.files) (hne : ¬ Touched t log g)
    (hk : g.projectId = t.project → g.relativePath ∈ keep) :
    Stays t.project a (a.fullRun t log keep) g := by
  have hlog := Stays.logged ha hg hne
  exact hlog.trans (.finished (ha.logged t log) hlog.mem hk)

/-- A file of the log was stored if it is to be kept. -/
theorem exists_rewritten_fullRun (ha : a.Faithful) (hp : ∃ r ∈ a.store.projects, r.id = t.project)
    (hnd : (logPaths log).Nodup) (hkeep : ∀ path ∈ logPaths log, path ∈ keep) (hx : x ∈ log) :
    ∃ i last, Rewritten t a (a.fullRun t log keep) x i last := by
  obtain ⟨i, last, hr⟩ := exists_rewritten ha hp hnd hx
  exact ⟨i, last, hr.stays
    (.finished (ha.logged t log) hr.file fun _ => hkeep _ (List.mem_map_of_mem hx))⟩

/-- **Each file that is left was stored by the run or left alone by it.** -/
theorem fullRun_cases (ha : a.Faithful) (hp : ∃ r ∈ a.store.projects, r.id = t.project)
    (hnd : (logPaths log).Nodup) (hkeep : ∀ path ∈ logPaths log, path ∈ keep)
    (hg : g ∈ (a.fullRun t log keep).store.files) :
    (g ∈ a.store.files ∧ ¬ Touched t log g ∧ Stays t.project a (a.fullRun t log keep) g) ∨
      ∃ x ∈ log, ∃ i last, g = Store.fileRow t.now t.project i x.1 ∧
        Rewritten t a (a.fullRun t log keep) x i last := by
  obtain ⟨hmem, hk⟩ := mem_finished.mp hg
  by_cases ht : Touched t log g
  · obtain ⟨x, hx, hxg⟩ := List.mem_map.mp ht.2
    obtain ⟨i, last, hr⟩ := exists_rewritten_fullRun ha hp hnd hkeep hx
    refine Or.inr ⟨x, hx, i, last, ?_, hr⟩
    exact (ha.fullRun t log keep).sound.keyed.file_eq_of_path hg hr.file ht.1 hxg.symm
  · have hold := mem_of_mem_logged ha hmem ht
    exact Or.inl ⟨hold, ht, .fullRun ha hold ht hk⟩

/-- The links of the project are in line. -/
theorem settled_finished (ha : a.Faithful) (hg : g ∈ (a.finished t keep).store.files)
    (hp : g.projectId = t.project) : ∃ x,
      (a.finished t keep).filed g.projectId g.relativePath = some x ∧
      (a.finished t keep).store.Holds g x ∧
      (a.finished t keep).store.Settled t.project g x := by
  have hpruned : (a.apply (.prune t.project keep)).Faithful := ha.apply _
  have hmem : g ∈ (a.apply (.prune t.project keep)).store.files :=
    mem_prune.mpr (mem_finished.mp hg)
  obtain ⟨x, hx, hh⟩ := hpruned.holds g hmem
  have hset := Store.settled_resolveLinks hpruned.sound hmem hp hh
  obtain ⟨y, hy, hyh⟩ := (ha.finished t keep).holds g hg
  obtain rfl : y = x := Option.some.inj (hy.symm.trans hx)
  refine ⟨y, hy, hyh, ?_⟩
  obtain ⟨projects, he⟩ := finished_tables a t keep
  rw [he]
  exact ⟨hset.uses, hset.targets, hset.sources⟩

/-! ## Counters and projects -/

theorem fullRun_last (ha : a.Faithful) (hp : ∃ r ∈ a.store.projects, r.id = t.project)
    (hnd : (logPaths log).Nodup) : (a.fullRun t log keep).store.last =
      a.store.last.after (a.store.tally t.project log) := by
  obtain ⟨projects, he⟩ := finished_tables (a.logged t log) t keep
  rw [fullRun, he]
  exact logged_counters ha hp hnd

/-- The files that go were there at the start. -/
theorem mem_stale_logged (ha : a.Faithful) (hkeep : ∀ path ∈ logPaths log, path ∈ keep) :
    (g ∈ (a.logged t log).store.files ∧ g.projectId = t.project ∧ g.relativePath ∉ keep) ↔
      g ∈ a.store.files ∧ g.projectId = t.project ∧ g.relativePath ∉ keep := by
  constructor
  · rintro ⟨hg, hp, hk⟩
    exact ⟨mem_of_mem_logged ha hg fun ht => hk (hkeep _ ht.2), hp, hk⟩
  · rintro ⟨hg, hp, hk⟩
    exact ⟨(Stays.logged ha hg fun ht => hk (hkeep _ ht.2)).mem, hp, hk⟩

/-- **The number of files that go does not depend on what is stored.** -/
theorem removed_logged (ha : a.Faithful) (hkeep : ∀ path ∈ logPaths log, path ∈ keep) :
    ((a.logged t log).store.prune t.project keep).1 = (a.store.prune t.project keep).1 := by
  have hnd : ∀ {b : Archive}, b.Faithful → (b.store.files.filter fun f =>
      f.projectId == t.project && !keep.contains f.relativePath).Nodup := fun hb =>
    hb.sound.keyed.files.nodup.of_map.sublist List.filter_sublist
  refine List.Perm.length_eq
    ((List.perm_ext_iff_of_nodup (hnd (ha.logged t log)) (hnd ha)).mpr fun g => ?_)
  have hiff := @mem_stale_logged a t log keep g ha hkeep
  simpa using hiff

/-! ## Mates -/

theorem forall₂_paired_of_lt {last : Int} {l l' : List Int} (hlen : l.length = l'.length)
    (hl : ∀ i ∈ l, last < i) (hl' : ∀ i ∈ l', last < i) : List.Forall₂ (Paired last) l l' :=
  List.forall₂_iff_zip.mpr ⟨hlen, fun hij =>
    Or.inr ⟨hl _ (List.of_mem_zip hij).1, hl' _ (List.of_mem_zip hij).2⟩⟩

theorem forall₂_paired_refl (last : Int) (l : List Int) : List.Forall₂ (Paired last) l l :=
  List.forall₂_same.mpr fun _ _ => Or.inl rfl

variable {b b' : Archive}

/-- A file that two runs leave alone is its own mate. -/
theorem Stays.mates {p : Int} (c : Counters) (hst : Stays p a b g) (hst' : Stays p a b' g)
    (hb : b.Faithful) (hb' : b'.Faithful) : ∃ x, b.filed g.projectId g.relativePath = some x ∧
      b'.filed g.projectId g.relativePath = some x ∧ Mates c b b' g g x x := by
  obtain ⟨x, hx, hh⟩ := hb.holds g hst.mem
  obtain ⟨x', hx', hh'⟩ := hb'.holds g hst'.mem
  obtain rfl : x' = x :=
    Option.some.inj (hx'.symm.trans (hst'.filed.trans (hst.filed.symm.trans hx)))
  obtain ⟨rows, hids, hmem, -⟩ := hh.exists_rows
  have hsym : b'.store.symbolsIn g.id = b.store.symbolsIn g.id :=
    hst'.rows.symbols.trans hst.rows.symbols.symm
  refine ⟨x', hx, hx', hh, hh', rfl, Or.inl rfl, rfl,
    ⟨rows, rows, hids, hids, hmem, fun r hr => by rw [hsym]; exact hmem r hr, ?_⟩, ?_, ?_, ?_⟩
  · exact List.forall₂_same.mpr fun _ _ => ⟨rfl, rfl, Or.inl rfl⟩
  · rw [hst.rows.imports, hst'.rows.imports]
    exact forall₂_paired_refl _ _
  · rw [hst.rows.relationshipIds, hst'.rows.relationshipIds]
    exact forall₂_paired_refl _ _
  · rw [hst.rows.referenceIds, hst'.rows.referenceIds]
    exact forall₂_paired_refl _ _

/-- Links of other projects lead to symbols that were there at the start. -/
theorem Stays.abroad {p : Int} (ha : a.Faithful) (hst : Stays p a b g) (hst' : Stays p a b' g)
    (hp : g.projectId ≠ p) : Abroad a.store.last b b' g g := by
  have hs := ha.sound
  have hsymbol : ∀ {i : Int}, (∃ x ∈ a.store.symbols, x.id = i) → i ≤ a.store.last.symbols := by
    rintro i ⟨x, hx, rfl⟩
    exact hs.keyed.symbols.bound _ (List.mem_map_of_mem hx)
  obtain ⟨hrel, href⟩ := hst.links hp
  obtain ⟨hrel', href'⟩ := hst'.links hp
  refine ⟨hrel'.trans hrel.symm, href'.trans href.symm, fun r hr => ?_, fun r hr => ?_⟩
  · rw [hrel] at hr
    obtain ⟨hr, -⟩ := Store.mem_relationshipsIn.mp hr
    refine ⟨hs.keyed.relationships.bound _ (List.mem_map_of_mem hr), fun i hi => ?_, fun i hi => ?_⟩
    · obtain ⟨x, hx, hxi, -⟩ := hs.linked.sources r hr i hi
      exact hsymbol ⟨x, hx, hxi⟩
    · obtain ⟨x, hx, hxi, -⟩ := hs.linked.targets r hr i hi
      exact hsymbol ⟨x, hx, hxi⟩
  · rw [href] at hr
    obtain ⟨hr, -⟩ := Store.mem_referencesIn.mp hr
    refine ⟨hs.keyed.references.bound _ (List.mem_map_of_mem hr), fun i hi => ?_, fun i hi => ?_⟩
    · obtain ⟨x, hx, hxi, -⟩ := hs.linked.users r hr i hi
      exact hsymbol ⟨x, hx, hxi⟩
    · obtain ⟨x, hx, hxi, -⟩ := hs.linked.uses r hr i hi
      exact hsymbol ⟨x, hx, hxi⟩

/-- Two ids for the file at a path go together, and so do the rows they had. -/
theorem IdFor.paired {s : Store} (hs : s.Sound) {p i k : Int} {path : String}
    (hi : s.IdFor p path i) (hk : s.IdFor p path k) :
    Paired s.last.files i k ∧ s.rowsOfFile k = s.rowsOfFile i := by
  rcases hi with ⟨f, hf, rfl, hfp, hfr⟩ | ⟨hi, hnew⟩ <;>
    rcases hk with ⟨f', hf', rfl, hfp', hfr'⟩ | ⟨hk, hnew'⟩
  · rw [hs.keyed.file_eq_of_path hf hf' (hfp.trans hfp'.symm) (hfr.trans hfr'.symm)]
    exact ⟨Or.inl rfl, rfl⟩
  · exact absurd ⟨hfp, hfr⟩ (hnew' f hf)
  · exact absurd ⟨hfp', hfr'⟩ (hnew f' hf')
  · rw [rowsOfFile_eq_nil hs hi, rowsOfFile_eq_nil hs hk]
    exact ⟨Or.inr ⟨hi, hk⟩, rfl⟩

theorem map_id_mem {row : Type} {key : row → Int} {last : Int} {rows : List row}
    (h : ∀ r ∈ rows, last < key r) : ∀ i ∈ rows.map key, last < i := by
  intro i hi
  obtain ⟨r, hr, rfl⟩ := List.mem_map.mp hi
  exact h r hr

/-- A file that two runs store has a mate. -/
theorem Rewritten.mates {i last i' last' : Int} (ha : a.Faithful) (hr : Rewritten t a b x i last)
    (hr' : Rewritten t a b' x i' last') (hb : b.Faithful) (hb' : b'.Faithful) : ∃ y y',
      b.filed t.project x.1.relativePath = some y ∧
      b'.filed t.project x.1.relativePath = some y' ∧
      Mates a.store.last b b' (Store.fileRow t.now t.project i x.1)
        (Store.fileRow t.now t.project i' x.1) y y' := by
  obtain ⟨hid, hrows⟩ := IdFor.paired ha.sound hr.id hr'.id
  obtain ⟨y, hy, hh⟩ := hb.holds _ hr.file
  obtain ⟨y', hy', hh'⟩ := hb'.holds _ hr'.file
  obtain rfl := Option.some.inj (hy.symm.trans hr.filed)
  obtain rfl := Option.some.inj (hy'.symm.trans hr'.filed)
  have hsame := hr'.symbols
  rw [hrows] at hh' hy' hsame
  have hold : ∀ r ∈ a.store.rowsOfFile i, r.fileId = i := fun _ h => (Store.mem_rowsOfFile.mp h).2
  have hold' : ∀ r ∈ a.store.rowsOfFile i, r.fileId = i' := fun _ h => by
    rw [← hrows] at h
    exact (Store.mem_rowsOfFile.mp h).2
  refine ⟨_, _, hy, hr'.filed, ?_⟩
  rw [hrows]
  refine ⟨hh, hh', rfl, hid, rfl, ⟨_, _, rfl, rfl,
    fun r h => Store.mem_symbolsIn.mpr ⟨hr.symbols r h, reconcile_fileId hold h⟩,
    fun r h => Store.mem_symbolsIn.mpr ⟨hsame r h, reconcile_fileId hold' h⟩, ?_⟩, ?_, ?_, ?_⟩
  · rw [List.forall₂_map_left_iff, List.forall₂_map_right_iff]
    exact (reconcile_twins hr.issued hr'.issued _ _).1.imp fun _ _ h => h.2
  · refine forall₂_paired_of_lt ?_ (map_id_mem hr.imports) (map_id_mem hr'.imports)
    rw [List.length_map, List.length_map]
    exact hh.imports.length_eq.symm.trans hh'.imports.length_eq
  · refine forall₂_paired_of_lt ?_ (map_id_mem hr.relationships) (map_id_mem hr'.relationships)
    rw [List.length_map, List.length_map]
    exact hh.edges.length_eq.symm.trans hh'.edges.length_eq
  · refine forall₂_paired_of_lt ?_ (map_id_mem hr.references) (map_id_mem hr'.references)
    rw [List.length_map, List.length_map]
    exact hh.uses.length_eq.symm.trans hh'.uses.length_eq

/-! ## Two runs -/

theorem touched_congr (h : log.Perm log') : Touched t log g ↔ Touched t log' g := by
  unfold Touched logPaths
  rw [(h.map _).mem_iff]

section TwoRuns

variable (ha : a.Faithful) (hp : ∃ r ∈ a.store.projects, r.id = t.project)
  (hnd : (logPaths log).Nodup) (hlog : log.Perm log') (hkeep : ∀ path ∈ logPaths log, path ∈ keep)
  (hsame : ∀ path, path ∈ keep ↔ path ∈ keep')
include ha hp hnd hlog hkeep hsame

/-- A file that one run leaves behind is left behind by the other. -/
theorem exists_sameKey (hg : g ∈ (a.fullRun t log keep).store.files) :
    ∃ h ∈ (a.fullRun t log' keep').store.files, SameKey g h := by
  rcases fullRun_cases ha hp hnd hkeep hg with ⟨hold, hne, -⟩ | ⟨x, hx, i, last, rfl, hr⟩
  · have hne' : ¬ Touched t log' g := fun ht => hne ((touched_congr hlog).mpr ht)
    have hst := Stays.fullRun ha hold hne' fun hgp => (hsame _).mp ((mem_finished.mp hg).2 hgp)
    exact ⟨g, hst.mem, rfl, rfl⟩
  · have hnd' : (logPaths log').Nodup := (hlog.map _).nodup_iff.mp hnd
    have hkeep' : ∀ path ∈ logPaths log', path ∈ keep' := fun path hpath =>
      (hsame path).mp (hkeep path ((hlog.map _).mem_iff.mpr hpath))
    obtain ⟨i', last', hr'⟩ := exists_rewritten_fullRun ha hp hnd' hkeep' (hlog.mem_iff.mp hx)
    exact ⟨_, hr'.file, rfl, rfl⟩

/-- **Two runs that store the same files in different orders leave files behind that are mates.** -/
theorem matched_fullRun : Matched a.store.last t.project (a.fullRun t log keep)
    (a.fullRun t log' keep') := by
  have hnd' : (logPaths log').Nodup := (hlog.map _).nodup_iff.mp hnd
  have hkeep' : ∀ path ∈ logPaths log', path ∈ keep' := fun path hpath =>
    (hsame path).mp (hkeep path ((hlog.map _).mem_iff.mpr hpath))
  have hb := ha.fullRun t log keep
  have hb' := ha.fullRun t log' keep'
  refine ⟨hb, hb', fun g hg => exists_sameKey ha hp hnd hlog hkeep hsame hg, fun h hh => ?_,
    fun g hg h hh hk => ?_⟩
  · obtain ⟨g, hg, hk⟩ := exists_sameKey ha hp hnd' hlog.symm hkeep' (fun _ => (hsame _).symm) hh
    exact ⟨g, hg, hk.1.symm, hk.2.symm⟩
  -- the links of the project are in line after both runs, and those of others stay
  have hline : ∀ x y, (a.fullRun t log keep).filed g.projectId g.relativePath = some x →
      (a.fullRun t log' keep').filed h.projectId h.relativePath = some y →
      g.projectId = t.project →
      InLine t.project (a.fullRun t log keep) (a.fullRun t log' keep') g h x y := by
    intro x y hx hy hgp
    obtain ⟨x', hx', -, hset⟩ := settled_finished (ha.logged t log) hg hgp
    obtain ⟨y', hy', -, hset'⟩ := settled_finished (ha.logged t log') hh (hk.1.symm.trans hgp)
    obtain rfl := Option.some.inj (hx'.symm.trans hx)
    obtain rfl := Option.some.inj (hy'.symm.trans hy)
    exact ⟨hset, hset'⟩
  rcases fullRun_cases ha hp hnd hkeep hg with ⟨hold, hne, hst⟩ | ⟨x, hx, i, last, rfl, hr⟩ <;>
    rcases fullRun_cases ha hp hnd' hkeep' hh with ⟨hold', hne', hst'⟩ | ⟨x', hx', i', last', rfl, hr'⟩
  · obtain rfl := ha.sound.keyed.file_eq_of_path hold hold' hk.1 hk.2
    obtain ⟨x, hx, hx', hm⟩ := hst.mates a.store.last hst' hb hb'
    refine ⟨x, x, hx, hx', hm, ?_⟩
    by_cases hgp : g.projectId = t.project
    · exact Or.inl (hline x x hx hx' hgp)
    · exact Or.inr (hst.abroad ha hst' hgp)
  · refine absurd ((touched_congr hlog).mpr ⟨hk.1, ?_⟩) hne
    rw [hk.2]
    exact List.mem_map_of_mem hx'
  · refine absurd ((touched_congr hlog).mp ⟨hk.1.symm, ?_⟩) hne'
    rw [← hk.2]
    exact List.mem_map_of_mem hx
  · obtain rfl : x = x' := List.inj_on_of_nodup_map hnd hx (hlog.mem_iff.mpr hx') hk.2
    obtain ⟨y, y', hy, hy', hm⟩ := hr.mates ha hr' hb hb'
    exact ⟨y, y', hy, hy', hm, Or.inl (hline y y' hy hy' rfl)⟩

end TwoRuns

end Archive

/-! ## Projects -/

/-- How many files there are in each language. -/
def countLanguages (languages : List String) : List (String × Nat) :=
  (sortedTexts languages).map fun l => (l, languages.count l)

theorem countLanguages_perm {l l' : List String} (h : l.Perm l') :
    countLanguages l = countLanguages l' := by
  unfold countLanguages
  rw [sortedTexts_congr fun _ => h.mem_iff]
  exact List.map_congr_left fun l _ => by rw [h.count_eq]

namespace Store

variable {s u : Store} {p now : Int}

/-- The files of a project are counted in any order. -/
theorem languageCounts_congr (h : ((s.files.filter (·.projectId == p)).map (·.language)).Perm
    ((u.files.filter (·.projectId == p)).map (·.language))) :
    s.languageCounts p = u.languageCounts p := by
  exact countLanguages_perm h

/-- New ids do not change the languages of files. -/
theorem Renames.languageCounts {ρ : Renaming} (h : Renames ρ s u) (p : Int) :
    u.languageCounts p = s.languageCounts p := by
  refine languageCounts_congr ?_
  have hperm := (h.files.filter (·.projectId == p)).map fun f : FileRow => f.language
  rw [List.filter_map, List.map_map] at hperm
  exact hperm

/-- A project that is found at a path is there. -/
theorem row_of_projectAt? {path : String} {x : Project} (h : s.projectAt? path = .ok (some x)) :
    ∃ r ∈ s.projects, r.id = x.id ∧ r.path = path := by
  unfold projectAt? at h
  cases hf : s.projects.find? (·.path == path) with
  | none => rw [hf] at h; cases h
  | some r =>
    rw [hf] at h
    have hpath : r.path = path := by simpa using List.find?_some hf
    refine ⟨r, List.mem_of_find?_eq_some hf, ?_, hpath⟩
    simp only [Option.mapM_some, ProjectRow.decode, Functor.map, Except.map, bind, Except.bind] at h
    cases hflaws : checkFlaws [⟨"created_at", 4, none⟩, ⟨"last_indexed", 5, none⟩] r.flaws with
    | error e => rw [hflaws] at h; cases h
    | ok => rw [hflaws] at h; cases h; rfl

/-- A project that was inserted or renamed is at its path. -/
theorem row_of_upsertProject {path name : String} {x : Project}
    (h : s.upsertProject now path name = .ok (x, u)) :
    ∃ r ∈ u.projects, r.id = x.id ∧ r.path = path := by
  unfold upsertProject at h
  simp only [bind, Except.bind] at h
  split at h
  · cases h
  · next y hy =>
    split at h
    · cases h
      exact row_of_projectAt? hy
    · cases h

/-- The other projects stay at their paths, and all keep their ids. -/
theorem row_upsertProject {path name : String} {x : Project} {r : ProjectRow}
    (h : s.upsertProject now path name = .ok (x, u)) (hr : r ∈ s.projects) :
    ∃ r' ∈ u.projects, r'.id = r.id ∧ r'.path = r.path := by
  rw [upsertProject_state h]
  dsimp only [projectsAfter]
  split
  · exact ⟨_, List.mem_map_of_mem hr, by split <;> exact ⟨rfl, rfl⟩⟩
  · exact ⟨r, List.mem_append_left _ hr, rfl, rfl⟩

/-- Two projects that are counted are the same if their files count the same. -/
theorem refresh_congr {s' u' : Store} {x x' : Project} (h : s.refresh now p = .ok (x, u))
    (h' : s'.refresh now p = .ok (x', u')) (hp : s'.projects = s.projects)
    (hl : s'.languageCounts p = s.languageCounts p) : u'.projects = u.projects ∧ x' = x := by
  have hproj : u'.projects = u.projects := by
    rw [refresh_state h, refresh_state h', hp, hl]
  refine ⟨hproj, ?_⟩
  obtain ⟨hx, hu⟩ := refresh_spec.mp h
  obtain ⟨hx', hu'⟩ := refresh_spec.mp h'
  rw [← hu] at hx
  rw [← hu'] at hx'
  unfold stamped project? at hx hx'
  rw [hproj, hx] at hx'
  cases hx'
  rfl

end Store

end CodeAtlas
