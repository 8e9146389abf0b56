import CodeAtlas.Proofs.Log
import CodeAtlas.Proofs.Paths

/-!
# What the collector does

* `Reading.parsed?`, `Reading.seen?`, `Reading.error?`: what a reading gives the collector.
* `ReadContext.doc?`, `Job.docs`: files as they are on the disk. `ReadContext.read_cases`: what
  reading a file gives. `Job.docs_nodup`: no two files have the same path.
* `Job.Reads.seen`, `Job.Reads.parsed`, `Job.Reads.failed`: a reading speaks of the file it is of.
* `Archive.closed`: how far the end of a run has come. `Stays.closed`: it leaves the files alone that
  are to be kept. `mem_closed`: it removes all others, once it has come to that.
* `Collector.closed`, `Collector.store_closed`: what the collector has stored at each stage.
  `Collector.conclude_spec`: what a run that ends leaves behind.
-/

namespace CodeAtlas

namespace Reading

/-- The file and the outline that are to be stored. -/
def parsed? : Reading → Option Parsed
  | parsed file outline => some (file, outline)
  | _ => none

/-- The path of a file that is still there. -/
def seen? : Reading → Option String
  | parsed file _ => some file.relativePath
  | unchanged path => some path
  | unsupported _ => none
  | failed e => some e.path

/-- What went wrong. -/
def error? : Reading → Option FileError
  | failed e => some e
  | _ => none

/-- Whether a file has not changed. -/
def isUnchanged : Reading → Bool
  | unchanged _ => true
  | _ => false

/-- Whether a file is in no language. -/
def isUnsupported : Reading → Bool
  | unsupported _ => true
  | _ => false

end Reading

/-- The files that are to be stored. -/
def toLog (rs : List Reading) : List Parsed := rs.filterMap Reading.parsed?

/-! ## Reading -/

namespace ReadContext

/-- A file as it is on the disk, whatever is known of it. -/
def doc? (ctx : ReadContext) (d : Disk) (path : String) : Option Parsed := do
  let relativePath := Path.relative ctx.root path
  let l ← Language.detect? ctx.languages path
  let (content, modified) ← (d.read path).toOption
  let outline ← (ctx.extractor.outline l relativePath content).toOption
  some (describeFile path relativePath l content (Hash.Blake3.hexDigest content) modified, outline)

theorem doc?_eq_some {ctx : ReadContext} {d : Disk} {path : String} {x : Parsed} :
    ctx.doc? d path = some x ↔ ∃ l content modified outline,
      Language.detect? ctx.languages path = some l ∧ d.read path = .ok (content, modified) ∧
      ctx.extractor.outline l (Path.relative ctx.root path) content = .ok outline ∧
      (describeFile path (Path.relative ctx.root path) l content (Hash.Blake3.hexDigest content)
        modified, outline) = x := by
  unfold doc?
  cases hl : Language.detect? ctx.languages path with
  | none => simp
  | some l =>
    cases hd : d.read path with
    | error e => simp [Except.toOption]
    | ok y =>
      obtain ⟨content, modified⟩ := y
      cases ho : ctx.extractor.outline l (Path.relative ctx.root path) content with
      | error e => simp [Except.toOption, ho]
      | ok outline => simp [Except.toOption, ho]

/-- **What reading a file gives.** -/
theorem read_cases (ctx : ReadContext) (d : Disk) (path : String) :
    (Language.detect? ctx.languages path = none ∧
      ctx.read d path = .unsupported (Path.relative ctx.root path)) ∨
    ((∃ l, Language.detect? ctx.languages path = some l) ∧ ctx.doc? d path = none ∧
      ∃ step reason, ctx.read d path = .failed ⟨step, Path.relative ctx.root path, reason⟩) ∨
    (∃ x, ctx.doc? d path = some x ∧ ctx.read d path = .parsed x.1 x.2) ∨
    ∃ l content modified, Language.detect? ctx.languages path = some l ∧
      d.read path = .ok (content, modified) ∧
      ctx.read d path = .unchanged (Path.relative ctx.root path) ∧
      ctx.known.lookup (Path.relative ctx.root path) = some (Hash.Blake3.hexDigest content) := by
  unfold read doc?
  cases Language.detect? ctx.languages path with
  | none => exact Or.inl ⟨rfl, rfl⟩
  | some l =>
    refine Or.inr ?_
    cases d.read path with
    | error e => exact Or.inl ⟨⟨l, rfl⟩, rfl, _, _, rfl⟩
    | ok y =>
      obtain ⟨content, modified⟩ := y
      dsimp only
      split
      · next h =>
        simp only [Bool.and_eq_true, beq_iff_eq] at h
        exact Or.inr (Or.inr ⟨l, content, modified, rfl, rfl, rfl, h.2⟩)
      · cases ho : ctx.extractor.outline l (Path.relative ctx.root path) content with
        | error e => exact Or.inl ⟨⟨l, rfl⟩, by simp [Except.toOption, ho], _, _, rfl⟩
        | ok outline => exact Or.inr (Or.inl ⟨_, by simp [Except.toOption, ho]; rfl, rfl⟩)

/-- What was parsed is the file as it is on the disk. -/
theorem doc?_of_read {ctx : ReadContext} {d : Disk} {path : String} {file : SourceFile}
    {outline : Outline} (h : ctx.read d path = .parsed file outline) :
    ctx.doc? d path = some (file, outline) := by
  rcases ctx.read_cases d path with
    ⟨-, he⟩ | ⟨-, -, step, reason, he⟩ | ⟨x, hx, he⟩ | ⟨l, content, modified, -, -, he, -⟩
  · rw [he] at h; cases h
  · rw [he] at h; cases h
  · rw [he] at h; cases h; exact hx
  · rw [he] at h; cases h

end ReadContext

namespace Job

variable {j : Job} {path : String} {r : Reading}

/-- A file as it is on the disk, whatever is known of it. -/
def doc? (j : Job) (path : String) : Option Parsed := j.context.doc? j.disk path

/-- All files of a project as they are on the disk. -/
def docs (j : Job) : List Parsed := j.candidates.filterMap j.doc?

theorem path_of_doc? {x : Parsed} (h : j.doc? path = some x) :
    x.1.relativePath = j.relative path ∧ j.supports path = true := by
  obtain ⟨l, content, modified, outline, hl, -, -, rfl⟩ := ReadContext.doc?_eq_some.mp h
  exact ⟨rfl, Option.isSome_iff_exists.mpr ⟨l, hl⟩⟩

namespace Reads

/-- A file in a language is seen, whatever comes of reading it. -/
theorem seen (h : j.Reads path r) (hs : j.supports path = true) :
    r.seen? = some (j.relative path) := by
  cases h with
  | fault hf step reason => rfl
  | read =>
    rcases j.context.read_cases j.disk path with
      ⟨hl, -⟩ | ⟨-, -, step, reason, he⟩ | ⟨x, hx, he⟩ | ⟨l, content, modified, -, -, he, -⟩
    · rw [supports, show Language.detect? j.indexer.languages path = none from hl] at hs
      cases hs
    · rw [he]; rfl
    · rw [he, Reading.seen?, (path_of_doc? hx).1]
    · rw [he]; rfl

/-- What was parsed is the file as it is on the disk. -/
theorem doc?_eq {file : SourceFile} {outline : Outline} (h : j.Reads path (.parsed file outline)) :
    j.doc? path = some (file, outline) := by
  generalize hr : Reading.parsed file outline = r at h
  cases h with
  | fault hf step reason => cases hr
  | read => exact ReadContext.doc?_of_read hr.symm

/-- What was parsed is the file at the path, and it is in a language. -/
theorem parsed {file : SourceFile} {outline : Outline} (h : j.Reads path (.parsed file outline)) :
    file.relativePath = j.relative path ∧ j.supports path = true :=
  path_of_doc? h.doc?_eq

/-- An error names the file at the path. -/
theorem failed {e : FileError} (h : j.Reads path (.failed e)) : e.path = j.relative path := by
  generalize hr : Reading.failed e = r at h
  cases h with
  | fault hf step reason => cases hr; rfl
  | read =>
    rcases j.context.read_cases j.disk path with
      ⟨-, he⟩ | ⟨-, -, step, reason, he⟩ | ⟨x, hx, he⟩ | ⟨l, content, modified, -, -, he, -⟩
    · rw [he] at hr; cases hr
    · rw [he] at hr; cases hr; rfl
    · rw [he] at hr; cases hr
    · rw [he] at hr; cases hr

end Reads

/-- **No two files of a project have the same path.** -/
theorem docs_nodup (ht : j.disk.Tidy) : (logPaths j.docs).Nodup := by
  have hsub : (logPaths j.docs).Sublist (j.candidates.map j.relative) := by
    unfold docs
    induction j.candidates with
    | nil => exact List.Sublist.refl _
    | cons path paths ih =>
      rw [List.filterMap_cons]
      cases hd : j.doc? path with
      | none => exact ih.trans ((List.sublist_cons_self _ _).map _)
      | some x =>
        simp only [logPaths, List.map_cons, (path_of_doc? hd).1]
        exact ih.cons_cons _
  refine List.Nodup.sublist hsub (List.Nodup.map_on (fun p hp p' hp' he => ?_)
    (j.candidates_nodup ht))
  exact j.relative_injOn ht hp hp' he

end Job

/-! ## The end of a run -/

/-- Whether the files that are gone have been removed. -/
def Stage.hasPruned : Stage → Bool
  | collecting | checked => false
  | pruned | linked | counted => true

theorem Stage.ne_collecting {stage : Stage} (h : stage.hasPruned = true) :
    stage ≠ .collecting := by
  rintro rfl
  cases h

namespace Store

variable {s : Store} {now p : Int}

/-- A project that is there can be counted. -/
theorem exists_stamped (hs : s.Sound) (hp : ∃ r ∈ s.projects, r.id = p) (now : Int) :
    ∃ x, (s.stamp now p).stamped p = .ok x := by
  unfold stamped project? stamp
  generalize hl : s.projects.map _ = projects
  have hflaws : ∀ r ∈ projects, r.flaws = [] := by
    rw [← hl, List.forall_mem_map]
    intro r hr
    split
    · simp [mend, hs.flawless.projects r hr]
    · exact hs.flawless.projects r hr
  have hmem : ∃ r ∈ projects, r.id = p := by
    obtain ⟨r, hr, hrp⟩ := hp
    rw [← hl]
    exact ⟨_, List.mem_map_of_mem hr, by split <;> exact hrp⟩
  dsimp only
  cases hf : projects.find? (·.id == p) with
  | none =>
    obtain ⟨r, hr, hrp⟩ := hmem
    exact absurd (List.find?_eq_none.mp hf r hr) (by simp [hrp])
  | some r =>
    have hdecode : r.decode = .ok r.toProject := by
      unfold ProjectRow.decode
      rw [hflaws r (List.mem_of_find?_eq_some hf)]
      rfl
    simp only [Option.mapM_some, hdecode]
    exact ⟨_, rfl⟩

/-- **Counting the files of a project stores the count**, whether or not there is a project. -/
theorem apply_refresh (hs : s.Sound) (now p : Int) : s.apply (.refresh now p) = s.stamp now p := by
  change afterWrite s (s.refresh now p) = s.stamp now p
  by_cases hp : ∃ r ∈ s.projects, r.id = p
  · obtain ⟨x, hx⟩ := exists_stamped hs hp now
    rw [refresh_spec.mpr ⟨hx, rfl⟩]
    rfl
  · have hself : s.stamp now p = s := by
      have hnone : ∀ r ∈ s.projects, (r.id == p) = false := fun r hr => by
        simpa using fun hrp => hp ⟨r, hr, hrp⟩
      unfold stamp
      rw [List.map_congr_left fun r hr => if_neg (by simp [hnone r hr]), List.map_id']
    cases hr : s.refresh now p with
    | error e => exact hself.symm
    | ok y =>
      obtain ⟨x, u⟩ := y
      exact (refresh_spec.mp hr).2

end Store

namespace Archive

variable {a : Archive} {t : RunTarget} {keep : List String} {g : FileRow} {stage : Stage}

/-- How far the end of a run that is not cancelled has come. -/
def closed (a : Archive) (t : RunTarget) (keep : List String) : Stage → Archive
  | .collecting | .checked => a
  | .pruned => a.apply (.prune t.project keep)
  | .linked => (a.apply (.prune t.project keep)).apply (.resolveLinks t.project)
  | .counted =>
    ((a.apply (.prune t.project keep)).apply (.resolveLinks t.project)).apply
      (.refresh t.now t.project)

/-- The end of a run that is not cancelled. -/
def finished (a : Archive) (t : RunTarget) (keep : List String) : Archive := a.closed t keep .counted

theorem Faithful.closed (h : a.Faithful) (t : RunTarget) (keep : List String) (stage : Stage) :
    (a.closed t keep stage).Faithful := by
  cases stage with
  | collecting | checked => exact h
  | pruned => exact h.apply _
  | linked => exact (h.apply _).apply _
  | counted => exact ((h.apply _).apply _).apply _

theorem Faithful.finished (h : a.Faithful) (t : RunTarget) (keep : List String) :
    (a.finished t keep).Faithful :=
  h.closed t keep .counted

theorem reachable_closed (h : a.store.Reachable) : (a.closed t keep stage).store.Reachable := by
  cases stage with
  | collecting | checked => exact h
  | pruned => exact h.write (.prune t.project keep)
  | linked => exact (h.write (.prune t.project keep)).write (.resolveLinks t.project)
  | counted =>
    exact ((h.write (.prune t.project keep)).write (.resolveLinks t.project)).write
      (.refresh t.now t.project)

/-- Counting the files of a project changes nothing but the project. -/
theorem refresh_tables (s : Store) (now p : Int) :
    ∃ projects, s.apply (.refresh now p) = { s with projects } := by
  change ∃ projects, afterWrite s (s.refresh now p) = _
  cases hr : s.refresh now p with
  | error e => exact ⟨s.projects, rfl⟩
  | ok y => exact ⟨_, Store.refresh_state hr⟩

theorem finished_tables (a : Archive) (t : RunTarget) (keep : List String) :
    ∃ projects, (a.finished t keep).store =
      { ((a.store.prune t.project keep).2.resolveLinks t.project).2 with projects } :=
  refresh_tables _ _ _

/-- The end of a run keeps the projects. -/
theorem row_closed {r : ProjectRow} (hr : r ∈ a.store.projects) :
    ∃ r' ∈ (a.closed t keep stage).store.projects, r'.id = r.id ∧ r'.path = r.path := by
  cases stage with
  | collecting | checked | pruned | linked => exact ⟨r, hr, rfl, rfl⟩
  | counted =>
    set s := ((a.apply (.prune t.project keep)).apply (.resolveLinks t.project)).store with hs
    have hmem : r ∈ s.projects := hr
    change ∃ r' ∈ (afterWrite s (s.refresh t.now t.project)).projects,
      r'.id = r.id ∧ r'.path = r.path
    cases hu : s.refresh t.now t.project with
    | error e => exact ⟨r, hmem, rfl, rfl⟩
    | ok y =>
      obtain ⟨project, v⟩ := y
      rw [afterWrite, Store.refresh_state hu]
      exact ⟨_, List.mem_map_of_mem hmem, by split <;> exact ⟨rfl, rfl⟩⟩

theorem mem_prune {s : Store} {p : Int} :
    g ∈ (s.prune p keep).2.files ↔
      g ∈ s.files ∧ (g.projectId = p → g.relativePath ∈ keep) := by
  refine (Store.mem_dropFiles _).trans (and_congr_right fun _ => ?_)
  simp

/-- **The end of a run removes the files of the project that are not to be kept**, once it has come to
that. -/
theorem mem_closed : g ∈ (a.closed t keep stage).store.files ↔ g ∈ a.store.files ∧
    (stage.hasPruned = true → g.projectId = t.project → g.relativePath ∈ keep) := by
  cases stage with
  | collecting | checked => simp [closed, Stage.hasPruned]
  | pruned | linked =>
    simp only [Stage.hasPruned, forall_const]
    exact mem_prune
  | counted =>
    obtain ⟨projects, hp⟩ := finished_tables a t keep
    simp only [Stage.hasPruned, forall_const]
    rw [← finished, hp]
    exact mem_prune

theorem mem_finished : g ∈ (a.finished t keep).store.files ↔
    g ∈ a.store.files ∧ (g.projectId = t.project → g.relativePath ∈ keep) := by
  rw [finished, mem_closed]
  simp [Stage.hasPruned]

theorem Stays.prune (h : a.Faithful) (hg : g ∈ a.store.files)
    (hk : g.projectId = t.project → g.relativePath ∈ keep) :
    Stays t.project a (a.apply (.prune t.project keep)) g where
  mem := mem_prune.mpr ⟨hg, hk⟩
  rows := Store.sameRows_dropFiles h.sound hg (by simpa using hk)
  links := fun hp => Store.sameLinks_dropFiles h.sound hg hp fun f _ hf => by
    simp only [Bool.and_eq_true, beq_iff_eq] at hf
    exact hf.1
  filed := rfl

theorem Stays.resolveLinks (h : a.Faithful) (hg : g ∈ a.store.files) (p : Int) :
    Stays p a (a.apply (.resolveLinks p)) g where
  mem := hg
  rows := Store.sameRows_resolveLinks p a.store g.id
  links := fun hp => Store.sameLinks_resolveLinks (Bool.eq_false_iff.mpr fun ho => hp
    (h.sound.keyed.owner_unique (Store.ownsFile_iff.mpr ⟨g, hg, rfl, rfl⟩) ho))
  filed := rfl

theorem Stays.refresh (hg : g ∈ a.store.files) (p now : Int) :
    Stays p a (a.apply (.refresh now p)) g := by
  obtain ⟨projects, hp⟩ := refresh_tables a.store now p
  have hstore : (a.apply (.refresh now p)).store = { a.store with projects } := hp
  refine ⟨by rw [hstore]; exact hg, ?_, fun _ => ?_, rfl⟩
  · rw [hstore]
    exact (Store.SameRows.refl _ _).withProjects projects
  · rw [hstore]
    exact (Store.SameLinks.refl _ _).withProjects projects

/-- The end of a run leaves all other files alone. -/
theorem Stays.closed (h : a.Faithful) (hg : g ∈ a.store.files)
    (hk : g.projectId = t.project → g.relativePath ∈ keep) (stage : Stage) :
    Stays t.project a (a.closed t keep stage) g := by
  have hpruned := Stays.prune h hg hk
  have hlinked := hpruned.trans (.resolveLinks (h.apply _) hpruned.mem t.project)
  cases stage with
  | collecting | checked => exact .refl _ hg
  | pruned => exact hpruned
  | linked => exact hlinked
  | counted => exact hlinked.trans (.refresh hlinked.mem t.project t.now)

theorem Stays.finished (h : a.Faithful) (hg : g ∈ a.store.files)
    (hk : g.projectId = t.project → g.relativePath ∈ keep) :
    Stays t.project a (a.finished t keep) g :=
  .closed h hg hk .counted

end Archive

namespace Collector

variable {c : Collector} {t : RunTarget} {report : IndexReport} {stage : Stage}

/-- The collector when the end of a run has come so far. -/
def closed (t : RunTarget) (c : Collector) : Stage → Collector
  | .collecting | .checked => c
  | .pruned => c.prune t
  | .linked => (c.prune t).link t
  | .counted => ((c.prune t).link t).stamp t

@[simp] theorem closed_errors : (c.closed t stage).report.errors = c.report.errors := by
  cases stage <;> rfl

theorem finish_false (t : RunTarget) (c : Collector) :
    c.finish t false = ((c.closed t .counted).conclude t, (c.closed t .counted).store) := rfl

/-- **What is stored at each stage.** -/
theorem store_closed {a : Archive} (h : a.Faithful) (ha : a.store = c.store) (t : RunTarget)
    (stage : Stage) : (c.closed t stage).store = (a.closed t c.keep stage).store := by
  cases stage with
  | collecting | checked => exact ha.symm
  | pruned | linked =>
    simp only [closed, Archive.closed, Archive.apply, Store.apply, prune, link, ha]
  | counted =>
    have hsound : ((a.apply (.prune t.project c.keep)).apply (.resolveLinks t.project)).store.Sound :=
      ((h.apply _).apply _).sound
    have hstamp := Store.apply_refresh hsound t.now t.project
    refine Eq.trans ?_ hstamp.symm
    simp only [closed, Archive.apply, Store.apply, prune, link, stamp, ha]

theorem conclude_report (h : c.conclude t = .ok report) : ∃ project,
    c.store.stamped t.project = .ok project ∧ report = { c.report with project := some project } := by
  unfold conclude at h
  simp only [bind, Except.bind] at h
  split at h
  · cases h
  · next project hp =>
    cases h
    exact ⟨project, hp, rfl⟩

/-- **What a run that ends leaves behind.** -/
theorem conclude_spec (h : (c.closed t .counted).conclude t = .ok report) : ∃ project,
    ((c.store.prune t.project c.keep).2.resolveLinks t.project).2.refresh t.now t.project =
      .ok (project, (c.closed t .counted).store) ∧
    report = { c.report with
      filesRemoved := (c.store.prune t.project c.keep).1
      linksResolved := ((c.store.prune t.project c.keep).2.resolveLinks t.project).1
      project := some project } := by
  obtain ⟨project, hp, rfl⟩ := conclude_report h
  exact ⟨project, Store.refresh_spec.mpr ⟨hp, rfl⟩, rfl⟩

/-- A run whose project is in the store ends. -/
theorem exists_conclude (hs : c.store.Sound) (hp : ∃ r ∈ c.store.projects, r.id = t.project) :
    ∃ report, (c.closed t .counted).conclude t = .ok report := by
  have hpruned := hs.dropFiles fun f => f.projectId == t.project && !c.keep.contains f.relativePath
  obtain ⟨x, hx⟩ := Store.exists_stamped (hpruned.resolveLinks t.project) hp t.now
  have hx' : (c.closed t .counted).store.stamped t.project = .ok x := hx
  unfold conclude
  rw [hx']
  exact ⟨_, rfl⟩

/-! ## One reading after the other -/

/-- **What the collector holds after some readings**, beginning with an archive. -/
structure Collected (a : Archive) (t : RunTarget) (rs : List Reading) (c : Collector) : Prop where
  store : c.store = (a.logged t (toLog rs)).store
  keep : ∀ path, path ∈ c.keep ↔ path ∈ rs.filterMap Reading.seen?
  seen : c.report.filesSeen = rs.length
  indexed : c.report.filesIndexed = (toLog rs).length
  unchanged : c.report.filesUnchanged = rs.countP Reading.isUnchanged
  skipped : c.report.filesSkipped = rs.countP Reading.isUnsupported
  errors : c.report.errors = rs.filterMap Reading.error?
  stats : c.report.stats = a.store.tally t.project (toLog rs)
  flag : c.report.cancelled = false

variable {a : Archive} {rs : List Reading}

theorem collected_nil (a : Archive) (t : RunTarget) : Collected a t [] { store := a.store } :=
  ⟨rfl, fun path => by simp, rfl, rfl, rfl, rfl, rfl, rfl, rfl⟩

/-- **One more reading.** -/
theorem Collected.take (h : a.Faithful) (hp : ∃ r ∈ a.store.projects, r.id = t.project)
    (hc : Collected a t rs c) {r : Reading} (hnd : (logPaths (toLog (rs ++ [r]))).Nodup) :
    Collected a t (rs ++ [r]) (c.take t r) := by
  have hkeep : ∀ path, path ∈ (rs ++ [r]).filterMap Reading.seen? ↔
      path ∈ c.keep ∨ r.seen? = some path := by
    intro path
    rw [List.filterMap_append, List.mem_append, hc.keep]
    simp [List.mem_filterMap]
  have hlog : r.parsed? = none → toLog (rs ++ [r]) = toLog rs := fun hr => by simp [toLog, hr]
  cases r with
  | parsed file outline =>
    have hlog : toLog (rs ++ [.parsed file outline]) = toLog rs ++ [(file, outline)] := by
      simp [toLog, Reading.parsed?]
    have hx : file.relativePath ∉ logPaths (toLog rs) := by
      rw [hlog, logPaths, List.map_append] at hnd
      exact fun hmem => (List.disjoint_of_nodup_append hnd) hmem (List.mem_singleton_self _)
    obtain ⟨i, hw, hstats⟩ := Archive.exists_wrote h hp (x := (file, outline)) hx
    have hres := hw.result
    rw [hstats, ← hc.store] at hres
    have htake : c.take t (.parsed file outline) =
        { c with
          store := (a.logged t (toLog rs ++ [(file, outline)])).store
          keep := file.relativePath :: c.keep
          report := { c.report with
            filesSeen := c.report.filesSeen + 1
            filesIndexed := c.report.filesIndexed + 1
            stats := c.report.stats.merge (a.store.statsFor t.project (file, outline)) } } := by
      simp only [Collector.take, Collector.persist, Collector.see, hres]
    rw [htake]
    refine ⟨by rw [hlog], fun path => ?_, ?_, ?_, ?_, ?_, ?_, ?_, hc.flag⟩
    · rw [hkeep, List.mem_cons]
      simp [Reading.seen?, or_comm, eq_comm]
    · simp [hc.seen]
    · simp [hc.indexed, hlog]
    · simp [hc.unchanged, Reading.isUnchanged]
    · simp [hc.skipped, Reading.isUnsupported]
    · simp [hc.errors, Reading.error?]
    · rw [hlog, Store.tally_append, hc.stats]
  | unchanged path | unsupported path | failed e =>
    refine ⟨by rw [hlog rfl]; exact hc.store, fun p => ?_, ?_, ?_, ?_, ?_, ?_, ?_, hc.flag⟩
    · rw [hkeep]
      simp [Collector.take, Collector.see, Reading.seen?, or_comm, eq_comm]
    · simp [Collector.take, hc.seen]
    · rw [hlog rfl]; exact hc.indexed
    · simp [Collector.take, hc.unchanged, Reading.isUnchanged]
    · simp [Collector.take, hc.skipped, Reading.isUnsupported]
    · simp [Collector.take, hc.errors, Reading.error?]
    · rw [hlog rfl]; exact hc.stats

/-- **All readings.** -/
theorem collected (h : a.Faithful) (hp : ∃ r ∈ a.store.projects, r.id = t.project)
    (hnd : (logPaths (toLog rs)).Nodup) :
    Collected a t rs (rs.foldl (Collector.take t) { store := a.store }) := by
  induction rs using List.reverseRecOn with
  | nil => exact collected_nil a t
  | append_singleton rs r ih =>
    rw [List.foldl_append]
    refine (ih ?_).take h hp hnd
    rw [toLog, List.filterMap_append, logPaths, List.map_append] at hnd
    exact List.Nodup.of_append_left hnd

end Collector

end CodeAtlas
