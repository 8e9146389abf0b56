import Mathlib.Logic.Relation
import CodeAtlas.Proofs.Collect
import CodeAtlas.Proofs.Flow

/-!
# What a run removes

* `Account`: an account of what has arrived at the collector: each file was stored or failed, at most
  once for each time it arrived, and every file in a language is to be kept.
* `Step.accounted`, `Reaches.accounted`: there is one in every state that a job leads to.
* `Pipeline.Leads`: what a state leads to. `Leads.collecting`: a run that is cancelled in time does not
  come to its last writes.
* **`Reaches.prune_safe`**: a run removes the row of a file only if it was not cancelled, its walk is
  done and has not met the file, or has lost it with a worker that crashed; a file that failed keeps
  its rows.
* `Pipeline.rows_lost`: a run that fails late has removed rows, and one whose worker crashes removes
  rows of files that are there.
-/

namespace CodeAtlas

variable {j : Job} {a : Archive} {c : Collector} {taken : List (String × Reading)}

/-- **An account of what has arrived at the collector**, beginning with an archive: the files that
were stored and those that failed, each with its path. -/
structure Account (j : Job) (a : Archive) (c : Collector) (taken : List (String × Reading))
    (stored : List (String × Parsed)) (failed : List (String × FileError)) : Prop where
  store : c.store = (a.logged j.target (stored.map (·.2))).store
  errors : c.report.errors = failed.map (·.2)
  once : ∀ path, (stored.map (·.1)).count path + (failed.map (·.1)).count path ≤
    (taken.map (·.1)).count path
  storedDoc : ∀ x ∈ stored, j.doc? x.1 = some x.2
  failedPath : ∀ x ∈ failed, x.2.path = j.relative x.1
  failedKeep : ∀ x ∈ failed, x.2.path ∈ c.keep
  keep : ∀ path ∈ taken.map (·.1), j.supports path = true → j.relative path ∈ c.keep
  flag : c.report.cancelled = false

theorem account_nil (ha : a.store = j.store) : Account j a { store := j.store } [] [] [] where
  store := ha.symm
  errors := rfl
  once := fun path => by simp
  storedDoc := fun x hx => by cases hx
  failedPath := fun x hx => by cases hx
  failedKeep := fun x hx => by cases hx
  keep := fun path hp => by cases hp
  flag := rfl

variable {stored : List (String × Parsed)} {failed : List (String × FileError)} {path : String}

theorem count_snoc (l : List String) (path path' : String) :
    (l ++ [path']).count path = l.count path + if path' = path then 1 else 0 := by
  rw [List.count_append, List.count_singleton]
  simp

namespace Account

/-- A file that failed goes to the account of failures. -/
theorem fail (h : Account j a c taken stored failed) {x : Reading} {e : FileError}
    {d : Collector} (hstore : d.store = c.store)
    (herr : d.report.errors = c.report.errors ++ [e])
    (hcan : d.report.cancelled = c.report.cancelled)
    (hkeep : d.keep = e.path :: c.keep) (he : e.path = j.relative path) :
    Account j a d (taken ++ [(path, x)]) stored (failed ++ [(path, e)]) where
  store := hstore.trans h.store
  errors := by rw [herr, h.errors, List.map_append]; rfl
  once := fun p => by
    have hp := h.once p
    simp only [List.map_append, List.map_cons, List.map_nil, count_snoc]
    omega
  storedDoc := h.storedDoc
  failedPath := fun y hy => by
    rcases List.mem_append.mp hy with hy | hy
    · exact h.failedPath y hy
    · obtain rfl := List.mem_singleton.mp hy
      exact he
  failedKeep := fun y hy => by
    rw [hkeep]
    rcases List.mem_append.mp hy with hy | hy
    · exact List.mem_cons_of_mem _ (h.failedKeep y hy)
    · obtain rfl := List.mem_singleton.mp hy
      exact List.mem_cons_self
  keep := fun p hp hs => by
    rw [List.map_append, List.mem_append] at hp
    rw [hkeep]
    rcases hp with hp | hp
    · exact List.mem_cons_of_mem _ (h.keep p hp hs)
    · obtain rfl := List.mem_singleton.mp hp
      rw [he]
      exact List.mem_cons_self
  flag := hcan.trans h.flag

/-- A file that is not stored adds nothing but a path to keep. -/
theorem pass (h : Account j a c taken stored failed) {x : Reading} {d : Collector}
    (hstore : d.store = c.store) (herr : d.report.errors = c.report.errors)
    (hcan : d.report.cancelled = c.report.cancelled) (hkeep : ∀ k ∈ c.keep, k ∈ d.keep)
    (hpath : j.supports path = true → j.relative path ∈ d.keep) :
    Account j a d (taken ++ [(path, x)]) stored failed where
  store := hstore.trans h.store
  errors := herr.trans h.errors
  once := fun p => by
    have hp := h.once p
    simp only [List.map_append, List.map_cons, List.map_nil, count_snoc]
    omega
  storedDoc := h.storedDoc
  failedPath := h.failedPath
  failedKeep := fun y hy => hkeep _ (h.failedKeep y hy)
  keep := fun p hp hs => by
    rw [List.map_append, List.mem_append] at hp
    rcases hp with hp | hp
    · exact hkeep _ (h.keep p hp hs)
    · obtain rfl := List.mem_singleton.mp hp
      exact hpath hs
  flag := hcan.trans h.flag

/-- A file that is stored goes to the account of what was stored. -/
theorem persist (h : Account j a c taken stored failed) {x : Parsed} {y : Reading}
    {d : Collector} (hstore : d.store = c.store.apply (j.target.write x))
    (herr : d.report.errors = c.report.errors)
    (hcan : d.report.cancelled = c.report.cancelled)
    (hkeep : d.keep = x.1.relativePath :: c.keep) (hx : j.doc? path = some x) :
    Account j a d (taken ++ [(path, y)]) (stored ++ [(path, x)]) failed where
  store := by
    rw [hstore, h.store, List.map_append, Archive.logged_append]
    rfl
  errors := herr.trans h.errors
  once := fun p => by
    have hp := h.once p
    simp only [List.map_append, List.map_cons, List.map_nil, count_snoc]
    omega
  storedDoc := fun z hz => by
    rcases List.mem_append.mp hz with hz | hz
    · exact h.storedDoc z hz
    · obtain rfl := List.mem_singleton.mp hz
      exact hx
  failedPath := h.failedPath
  failedKeep := fun y hy => by
    rw [hkeep]
    exact List.mem_cons_of_mem _ (h.failedKeep y hy)
  keep := fun p hp hsp => by
    rw [List.map_append, List.mem_append] at hp
    rw [hkeep]
    rcases hp with hp | hp
    · exact List.mem_cons_of_mem _ (h.keep p hp hsp)
    · obtain rfl := List.mem_singleton.mp hp
      rw [(Job.path_of_doc? hx).1]
      exact List.mem_cons_self
  flag := hcan.trans h.flag

/-- Taking up a reading keeps the account. -/
theorem take (h : Account j a c taken stored failed) {x : Reading} (hx : j.Reads path x) :
    ∃ stored' failed',
      Account j a (c.take j.target x) (taken ++ [(path, x)]) stored' failed' := by
  cases x with
  | parsed file outline =>
    cases hu : c.store.persist j.target.now j.target.project file outline with
    | ok y =>
      refine ⟨_, _, h.persist ?_ ?_ ?_ ?_ hx.doc?_eq⟩
      · simp only [Collector.take, Collector.persist, Collector.see, hu, RunTarget.write, Store.apply,
          afterWrite]
      all_goals simp only [Collector.take, Collector.persist, Collector.see, hu]
    | error e =>
      refine ⟨_, _, h.fail (e := ⟨.store, file.relativePath, "Failed to persist " ++
        file.relativePath ++ ": " ++ e.trace⟩) ?_ ?_ ?_ ?_ hx.parsed.1⟩
      all_goals simp only [Collector.take, Collector.persist, Collector.see, hu]
  | unchanged p =>
    refine ⟨_, _, h.pass rfl rfl rfl (fun k hk => List.mem_cons_of_mem _ hk) fun hs => ?_⟩
    have hseen := hx.seen hs
    cases hseen
    exact List.mem_cons_self
  | unsupported p =>
    refine ⟨_, _, h.pass rfl rfl rfl (fun k hk => hk) fun hs => ?_⟩
    have hseen := hx.seen hs
    cases hseen
  | failed e => exact ⟨_, _, h.fail rfl rfl rfl rfl hx.failed⟩

end Account

namespace Pipeline

variable {n : Nat} {p q r : Pipeline}

/-- There is an account of what has arrived, and the collector has closed it as far as the run has
come. -/
def Accounted (j : Job) (a : Archive) (q : Pipeline) : Prop :=
  ∃ c stored failed, Account j a c q.taken stored failed ∧ q.collector = c.closed j.target q.stage

/-- **A step keeps the account.** -/
theorem Step.accounted (hf : q.Flow j n) (h : q.Accounted j a) (hs : Step j q r) :
    r.Accounted j a := by
  obtain ⟨c, stored, failed, h, hc⟩ := h
  cases hs with
  | @take path x rest hr =>
    have hx : j.Reads path x :=
      hf.made (path, x) (List.mem_append_left _ (List.mem_append_right _ (by simp [hr])))
    have hstage := hf.collecting_of_readings hr
    rw [hstage] at hc
    obtain ⟨stored', failed', h'⟩ := h.take hx
    exact ⟨_, stored', failed', h', by rw [hstage, hc]; rfl⟩
  | @refuse path file outline rest hfault hr reason =>
    have hx : j.Reads path (.parsed file outline) :=
      hf.made (path, _) (List.mem_append_left _ (List.mem_append_right _ (by simp [hr])))
    have hstage := hf.collecting_of_readings hr
    rw [hstage] at hc
    have h' := h.fail (x := .parsed file outline) (e := ⟨.store, file.relativePath, reason⟩)
      (d := c.refuse file.relativePath reason) rfl rfl rfl rfl hx.parsed.1
    exact ⟨_, _, _, h', by rw [hstage, hc]; rfl⟩
  | check hd =>
    rw [hd.stage] at hc
    exact ⟨_, _, _, h, hc⟩
  | prune hs | link hs | count hs =>
    rw [hs] at hc
    exact ⟨_, _, _, h, by rw [hc]; rfl⟩
  | cancel | send | endWalk | failWalk | receive | read | deliver | stop | crash | close | abandon
  | desist | conclude | fail => exact ⟨_, _, _, h, hc⟩

theorem Reaches.accounted (ha : a.store = j.store) (h : Reaches j n q) : q.Accounted j a := by
  induction h with
  | start => exact ⟨_, [], [], account_nil ha, rfl⟩
  | step h _ hs ih => exact hs.accounted h.flow ih

/-! ## Files that go and files that stay -/

/-- What a run has stored. -/
theorem store_eq (ha : a.Faithful) (h : Account j a c taken stored failed)
    (hc : q.collector = c.closed j.target q.stage) :
    q.store = ((a.logged j.target (stored.map (·.2))).closed j.target c.keep q.stage).store := by
  rw [store, hc]
  exact Collector.store_closed (ha.logged _ _) h.store.symm _ _

/-- **A run leads to stores that writes lead to.** -/
theorem Reaches.reachable (hstore : j.store.Reachable) (h : Reaches j n q) : q.store.Reachable := by
  obtain ⟨ws, hws⟩ := Archive.exists_run hstore
  obtain ⟨c, stored, failed, hacc, hc⟩ := h.accounted hws
  rw [store_eq (Archive.faithful_run ws) hacc hc]
  refine Archive.reachable_closed ?_
  rw [← hws] at hstore
  generalize Archive.run ws = a at hstore
  induction stored.map (·.2) generalizing a with
  | nil => exact hstore
  | cons x log ih => exact ih _ (hstore.write (j.target.write x))

/-- What has arrived are candidates. -/
theorem Flow.mem_candidates (hf : q.Flow j n) (hp : 0 < (q.taken.map (·.1)).count path) :
    path ∈ j.candidates :=
  List.count_pos_iff.mp (Nat.lt_of_lt_of_le hp (hf.count_taken_le path))

end Pipeline

namespace Account

variable {n : Nat} {q : Pipeline}

/-- What was stored are candidates. -/
theorem stored_mem (hf : q.Flow j n) (hacc : Account j a c q.taken stored failed) :
    ∀ x ∈ stored, x.1 ∈ j.candidates := by
  intro x hx
  have hpos : 0 < (stored.map (·.1)).count x.1 := List.count_pos_iff.mpr (List.mem_map_of_mem hx)
  have honce := hacc.once x.1
  exact hf.mem_candidates (by omega)

/-- A file that failed is none of those that were stored. -/
theorem not_touched (hf : q.Flow j n) (hacc : Account j a c q.taken stored failed)
    (ht : j.disk.Tidy) {e : String × FileError} (he : e ∈ failed) {f : FileRow}
    (hr : f.relativePath = e.2.path) :
    ¬ Archive.Touched j.target (stored.map (·.2)) f := by
  rintro ⟨-, hmem⟩
  rw [logPaths, List.map_map] at hmem
  obtain ⟨x, hx, hxr⟩ := List.mem_map.mp hmem
  have hxp := (Job.path_of_doc? (hacc.storedDoc x hx)).1
  have hfirst : 0 < (stored.map (·.1)).count x.1 :=
    List.count_pos_iff.mpr (List.mem_map_of_mem hx)
  have hsecond : 0 < (failed.map (·.1)).count e.1 :=
    List.count_pos_iff.mpr (List.mem_map_of_mem he)
  have hx₁ := hacc.once x.1
  have he₁ := hacc.once e.1
  have hsame : x.1 = e.1 := by
    refine j.relative_injOn ht (hf.mem_candidates (by omega)) (hf.mem_candidates (by omega)) ?_
    rw [← hxp, ← hacc.failedPath e he, ← hr]
    exact hxr
  rw [← hsame] at hsecond
  -- the path would have arrived twice
  have honce := List.nodup_iff_count_le_one.mp (j.candidates_nodup ht) x.1
  have htaken := hf.count_taken_le x.1
  omega

/-- A row is still there, or the run has removed it because its file is not to be kept. -/
theorem exists_row_or_pruned (ha : a.Faithful) (hacc : Account j a c q.taken stored failed)
    (hc : q.collector = c.closed j.target q.stage) {f : FileRow} (hf : f ∈ a.store.files) :
    (∃ g ∈ q.store.files, g.id = f.id ∧ g.projectId = f.projectId ∧
        g.relativePath = f.relativePath) ∨
      q.stage.hasPruned = true ∧ f.projectId = j.target.project ∧ f.relativePath ∉ c.keep := by
  obtain ⟨g, hg, hid, hp, hr⟩ := Archive.exists_mem_logged ha hf j.target (stored.map (·.2))
  rw [Pipeline.store_eq ha hacc hc]
  by_cases hkept : q.stage.hasPruned = true → g.projectId = j.target.project →
      g.relativePath ∈ c.keep
  · exact Or.inl ⟨g, Archive.mem_closed.mpr ⟨hg, hkept⟩, hid, hp, hr⟩
  · push Not at hkept
    rw [hp, hr] at hkept
    exact Or.inr hkept

/-- A run that has removed files does not report that it was cancelled. -/
theorem not_cancelled (hf : q.Flow j n) (hacc : Account j a c q.taken stored failed)
    (hc : q.collector = c.closed j.target q.stage) (hpruned : q.stage.hasPruned = true)
    {report : IndexReport} (he : q.ending = some (.finished report)) :
    report.cancelled = false := by
  rcases (hf.ended report he).2 with ⟨hs, -⟩ | ⟨hs, hcon⟩
  · exact absurd hs (Stage.ne_collecting hpruned)
  · rw [hc, hs] at hcon
    obtain ⟨project, -, rfl⟩ := Collector.conclude_spec hcon
    exact hacc.flag

/-- A file that failed keeps its rows. -/
theorem failed_stays (ha : a.Faithful) (hf : q.Flow j n)
    (hacc : Account j a c q.taken stored failed) (hc : q.collector = c.closed j.target q.stage)
    (ht : j.disk.Tidy) {e : String × FileError} (he : e ∈ failed) {f : FileRow}
    (hmem : f ∈ a.store.files) (hr : f.relativePath = e.2.path) :
    f ∈ q.store.files ∧ Store.SameRows a.store q.store f.id := by
  have hlogged := ha.logged j.target (stored.map (·.2))
  have hstay := Archive.Stays.logged ha hmem (hacc.not_touched hf ht he hr)
  have hkeep : f.projectId = j.target.project → f.relativePath ∈ c.keep := fun _ => by
    rw [hr]
    exact hacc.failedKeep e he
  have hclosed := hstay.trans (.closed hlogged hstay.mem hkeep q.stage)
  rw [Pipeline.store_eq ha hacc hc]
  exact ⟨hclosed.mem, hclosed.rows⟩

end Account

namespace Pipeline

variable {n : Nat} {p q r : Pipeline}

/-- What a state leads to. -/
def Leads (j : Job) : Pipeline → Pipeline → Prop :=
  Relation.ReflTransGen fun q r => q.ending = none ∧ Step j q r

/-- A run that is cancelled in time does not come to its last writes. -/
theorem Leads.collecting (h : Leads j p q) (hc : p.cancelled = true) (hs : p.stage = .collecting) :
    q.cancelled = true ∧ q.stage = .collecting := by
  induction h with
  | refl => exact ⟨hc, hs⟩
  | tail _ hstep ih =>
    obtain ⟨hcancel, hstage⟩ := ih
    cases hstep.2 with
    | check _ _ hnot => rw [hcancel] at hnot; cases hnot
    | prune h | link h | count h => rw [hstage] at h; cases h
    | cancel => exact ⟨rfl, hstage⟩
    | send | endWalk | failWalk | receive | read | deliver | stop | crash | take | refuse
    | close | abandon | desist | conclude | fail => exact ⟨hcancel, hstage⟩

/-- **A run removes the row of a file only if it was not cancelled, its walk is done, and every
candidate in a language that is the file was lost with a worker that crashed. A file that failed keeps
its rows. A run whose walk is not done, that was cancelled before its last writes or has not come to
them has removed no file.** -/
theorem Reaches.prune_safe (hstore : j.store.Reachable) (ht : j.disk.Tidy) (hq : Reaches j n q) :
    (∀ f ∈ j.store.files, (∀ g ∈ q.store.files, g.id ≠ f.id) →
      f.projectId = j.indexer.project.id ∧ q.walk = .done ∧ q.stage.hasPruned = true ∧
      (∀ report, q.ending = some (.finished report) → report.cancelled = false) ∧
      ∀ path ∈ j.candidates, j.supports path = true → j.relative path = f.relativePath →
        .crashed (some path) ∈ q.workers ∨ q.Lost) ∧
    (∀ e ∈ q.collector.report.errors, ∀ f ∈ j.store.files,
      f.projectId = j.indexer.project.id → f.relativePath = e.path →
      f ∈ q.store.files ∧ Store.SameRows j.store q.store f.id) ∧
    (q.walk ≠ .done ∨
        (∃ p, Reaches j n p ∧ p.cancelled = true ∧ p.stage = .collecting ∧ Leads j p q) ∨
        (∃ report, q.ending = some (.finished report) ∧ report.cancelled = true) ∨
        q.stage.hasPruned = false →
      ∀ f ∈ j.store.files, ∃ g ∈ q.store.files, g.id = f.id ∧ g.projectId = f.projectId ∧
        g.relativePath = f.relativePath) := by
  obtain ⟨ws, hws⟩ := Archive.exists_run hstore
  have ha : (Archive.run ws).Faithful := Archive.faithful_run ws
  obtain ⟨c, stored, failed, hacc, hc⟩ := hq.accounted hws
  have hflow := hq.flow
  have hrow : ∀ f ∈ j.store.files, _ := fun f hf =>
    hacc.exists_row_or_pruned ha hc (hws ▸ hf : f ∈ (Archive.run ws).store.files)
  refine ⟨fun f hf hnone => ?_, fun e he f hf hp hr => ?_, fun hend f hf => ?_⟩
  · obtain ⟨hpruned, hp, hk⟩ := (hrow f hf).resolve_left fun ⟨g, hg, hid, _⟩ => hnone g hg hid
    have hstage := Stage.ne_collecting hpruned
    refine ⟨hp, (hflow.gathered hstage).walk, hpruned,
      fun report he => hacc.not_cancelled hflow hc hpruned he, fun path hpath hs heq => ?_⟩
    refine (hflow.taken_or_crashed hstage hpath).resolve_left fun htaken => hk ?_
    rw [← heq]
    exact hacc.keep path htaken hs
  · rw [hc, Collector.closed_errors, hacc.errors] at he
    obtain ⟨x, hx, rfl⟩ := List.mem_map.mp he
    rw [← hws]
    exact hacc.failed_stays ha hflow hc ht hx (hws ▸ hf) hr
  · refine (hrow f hf).resolve_right fun ⟨hpruned, _⟩ => ?_
    have hstage := Stage.ne_collecting hpruned
    rcases hend with hwalk | ⟨p, -, hcancel, hs, hlead⟩ | ⟨report, he, hcancel⟩ | hs
    · exact hwalk (hflow.gathered hstage).walk
    · exact hstage (hlead.collecting hcancel hs).2
    · rw [hacc.not_cancelled hflow hc hpruned he] at hcancel
      cases hcancel
    · rw [hpruned] at hs
      cases hs

end Pipeline

/-- A project with the usual settings. -/
def Indexer.plain : Indexer where
  root := "/p"
  config := {}
  project := ⟨1, "/p", "p", [], 0, none⟩

/-- A project with two files in the store. One of them is gone from its directory. -/
def Job.leftover : Job where
  indexer := .plain
  now := 1
  disk := ⟨.directory [("p", .directory [("here.rs", .file .empty 0)])]⟩
  store := ((Store.empty.apply (.upsertProject 0 "/p" "p")).apply
    (.persist 0 1 { path := "/p/gone.rs", relativePath := "gone.rs", language := "rust" } {})).apply
    (.persist 0 1 { path := "/p/here.rs", relativePath := "here.rs", language := "rust" } {})
  force := false
  capacity := 1
  faulty := true

namespace Job

theorem leftover_reachable : leftover.store.Reachable :=
  ((Store.Reachable.empty.write (.upsertProject 0 "/p" "p")).write
    (.persist 0 1 { path := "/p/gone.rs", relativePath := "gone.rs", language := "rust" } {})).write
    (.persist 0 1 { path := "/p/here.rs", relativePath := "here.rs", language := "rust" } {})

theorem leftover_candidates : leftover.candidates = ["/p/here.rs"] := by decide +kernel

end Job

namespace Pipeline

/-- The file that is gone is removed, and rightly so; the other one stays. -/
theorem prune_safe_leftover : ∃ q, Reaches .leftover 1 q ∧
    q.store.files.map (·.relativePath) = ["here.rs"] ∧
    ∃ f ∈ Job.leftover.store.files, (∀ g ∈ q.store.files, g.id ≠ f.id) ∧ q.walk = .done ∧
      q.stage.hasPruned = true := by
  obtain ⟨q, hq, -, -, -, hstore, -⟩ :=
    @Reaches.exists_sequential .leftover (by decide) (by decide +kernel)
  have hfiles : q.store.files.map (·.relativePath) = ["here.rs"] ∧
      ∃ f ∈ Job.leftover.store.files, ∀ g ∈ q.store.files, g.id ≠ f.id := by
    rw [hstore]
    decide +kernel
  obtain ⟨hhere, f, hf, hgone⟩ := hfiles
  obtain ⟨-, hwalk, hpruned, -⟩ :=
    (Reaches.prune_safe Job.leftover_reachable (by decide +kernel) hq).1 f hf hgone
  exact ⟨q, hq, hhere, f, hf, hgone, hwalk, hpruned⟩

/-- **Rows are lost** where a run fails late: it has removed the file that is gone. They are lost, too,
where a worker crashes: the run removes a file that is there, in a language, and among the
candidates. -/
theorem rows_lost :
    (∃ q, Reaches .leftover 1 q ∧ q.Manned ∧ q.ending = some .failed ∧
      ∃ f ∈ Job.leftover.store.files, ∀ g ∈ q.store.files, g.id ≠ f.id) ∧
    ∃ q, Reaches .leftover 1 q ∧ q.cancelled = false ∧
      ∃ f ∈ Job.leftover.store.files, (∀ g ∈ q.store.files, g.id ≠ f.id) ∧
        ∃ path ∈ Job.leftover.candidates, Job.leftover.supports path = true ∧
          Job.leftover.relative path = f.relativePath := by
  constructor
  · obtain ⟨q, hq, -, -, hs, ho, hw, -, hcol⟩ :=
      @Reaches.exists_checked .leftover (by decide) (by decide +kernel)
    have hpruned := hq.step ho (.prune hs)
    have hfailed := hpruned.step ho (.fail rfl (by simp))
    refine ⟨_, hfailed, by simp [Manned, hw], rfl, ?_⟩
    change ∃ f ∈ _, ∀ g ∈ (q.collector.prune Job.leftover.target).store.files, _
    rw [hcol]
    decide +kernel
  · have hstart : start .leftover 1 =
        resting (.going ["/p/here.rs"]) [] [] { store := Job.leftover.store } := by
      simp only [start, Job.leftover_candidates,
        show Job.leftover.indexer.hasRoot Job.leftover.disk = true by decide +kernel]
      rfl
    have hsent := (hstart ▸ @Reaches.start .leftover 1).step rfl (.send rfl (by decide))
    have hreceived := hsent.step rfl (@Step.receive .leftover _ "/p/here.rs" [] [] [] rfl rfl)
    have hcrashed := hreceived.step rfl
      (@Step.crash .leftover _ (.reading "/p/here.rs") [] [] rfl rfl rfl)
    have hwalked := hcrashed.step rfl (.endWalk rfl (Or.inl rfl))
    have hchecked := hwalked.step rfl
      (.check ⟨rfl, rfl, fun w hw => by rw [List.mem_singleton.mp hw]; rfl⟩ rfl rfl)
    have hpruned := hchecked.step rfl (.prune rfl)
    refine ⟨_, hpruned, rfl, ?_⟩
    change ∃ f ∈ _, (∀ g ∈ (({ store := Job.leftover.store } : Collector).prune
      Job.leftover.target).store.files, _) ∧ _
    rw [Job.leftover_candidates]
    decide +kernel

end Pipeline

end CodeAtlas
