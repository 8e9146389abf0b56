import Mathlib.Algebra.GroupWithZero.Nat
import Mathlib.Data.List.Count
import CodeAtlas.Indexing.Pipeline
import CodeAtlas.Proofs.Tables

/-!
# No path is lost

* `Pipeline.Flow`: every path that was sent is in one place: in the first channel, with a worker, in
  the second channel, or at the collector.
* `Flow.turn`, `Flow.arrive`: what a turn of a worker and an arrival do to it. `Step.flow`,
  **`Reaches.flow`**: this holds in every state that a job leads to.
* **`Flow.taken_perm`**: when the collector ends a run, it has taken up every candidate once, if no
  worker has crashed. `Flow.taken_or_crashed`: otherwise a candidate that is missing was with one, or
  all have crashed.
* `Step.load_lt`, `exists_step`, **`exists_result`**: a run does not go on for ever and is never
  stuck, so it comes to its end.
* **`Reaches.exists_sequential`**: one worker can take up the files one after the other, and then the
  run is the one over the readings in the order of the walk.
-/

namespace CodeAtlas

/-- What a worker has read and not sent. -/
def Worker.made? : Worker → Option (String × Reading)
  | sending path x => some (path, x)
  | _ => none

/-- How much a worker has to do. -/
def Worker.load : Worker → Nat
  | idle => 1
  | reading _ => 4
  | sending _ _ => 3
  | stopped | crashed _ => 0

/-- How much a walk leads to. -/
def WalkStage.load : WalkStage → Nat
  | going rest => 5 * rest.length + 1
  | _ => 0

/-- How many steps the end of a run takes. -/
def Stage.load : Stage → Nat
  | collecting => 4
  | checked => 3
  | pruned => 2
  | linked => 1
  | counted => 0

theorem Ending.ofReport_eq_finished {x : StoreM IndexReport} {report : IndexReport} :
    ofReport x = .finished report ↔ x = .ok report := by
  cases x with
  | ok report' => simp [ofReport]
  | error e => simp [ofReport]

namespace Pipeline

variable {j : Job} {n : Nat} {q r : Pipeline}

/-- How often a path that was sent is anywhere. -/
def places (q : Pipeline) (path : String) : Nat :=
  q.paths.count path + (q.workers.filterMap Worker.path?).count path +
    (q.readings.map (·.1)).count path + (q.taken.map (·.1)).count path

/-- What was made of paths, wherever it is. -/
def made (q : Pipeline) : List (String × Reading) :=
  q.workers.filterMap Worker.made? ++ q.readings ++ q.taken

/-- What holds when the collector is at the end of a run. -/
structure Gathered (j : Job) (q : Pipeline) : Prop where
  walk : q.walk = .done
  readings : q.readings = []
  deserted : q.Deserted
  sent : q.Lost ∨ q.sent = j.candidates ∧ q.paths = []

/-- **Every path that was sent is in one place.** -/
structure Flow (j : Job) (n : Nat) (q : Pipeline) : Prop where
  workers : q.workers.length = n
  places : ∀ path, q.places path = q.sent.count path
  sent : q.sent <+: j.candidates
  rest : ∀ rest, q.walk = .going rest → q.sent ++ rest = j.candidates
  done : q.walk = .done → q.sent = j.candidates ∨ q.cancelled = true ∨ q.Lost
  made : ∀ x ∈ q.made, j.Reads x.1 x.2
  stopped : .stopped ∈ q.workers → q.cancelled = true ∨ q.paths = [] ∧ q.Walked
  gathered : q.stage ≠ .collecting → q.Gathered j
  ended : ∀ report, q.ending = some (.finished report) →
    q.walk = .done ∧ (q.stage = .collecting ∧
        report = { q.collector.report with cancelled := true } ∨
      q.stage = .counted ∧ q.collector.conclude j.target = .ok report)

theorem flow_start : (start j n).Flow j n where
  workers := List.length_replicate
  places := fun path => by
    have hw : (List.replicate n Worker.idle).filterMap Worker.path? = [] := by
      rw [List.filterMap_replicate_of_none rfl]
    simp [Pipeline.places, start, hw]
  sent := List.nil_prefix
  rest := fun rest h => by cases h; rfl
  done := fun h => by cases h
  made := fun x hx => by
    have hw : (List.replicate n Worker.idle).filterMap Worker.made? = [] := by
      rw [List.filterMap_replicate_of_none rfl]
    simp [Pipeline.made, start, hw] at hx
  stopped := fun h => by simp [start] at h
  gathered := fun h => absurd rfl h
  ended := fun report h => by
    simp only [start] at h
    split at h <;> cases h

/-- Workers that have all ended have crashed, unless one has stopped. -/
theorem Deserted.stopped_or_lost (h : q.Deserted) : .stopped ∈ q.workers ∨ q.Lost := by
  by_cases hs : .stopped ∈ q.workers
  · exact Or.inl hs
  refine Or.inr fun w hw => ?_
  have hended := h w hw
  cases w with
  | crashed held => exact ⟨held, rfl⟩
  | stopped => exact absurd hw hs
  | idle | reading path | sending path x => cases hended

section Workers

variable {w : Worker} {l r' : List Worker} (hw : q.workers = l ++ w :: r') (ha : w.isActive = true)
include hw ha

theorem not_deserted : ¬ q.Deserted := fun hd => by
  have hended := hd w (by rw [hw]; simp)
  rw [ha] at hended
  cases hended

theorem not_lost : ¬ q.Lost := fun hl => by
  obtain ⟨held, rfl⟩ := hl w (by rw [hw]; simp)
  cases ha

/-- As long as a worker goes on, the collector is not at the end of the run. -/
theorem Flow.collecting (h : q.Flow j n) : q.stage = .collecting := by
  by_contra hs
  exact not_deserted hw ha (h.gathered hs).deserted

theorem Flow.done_of_active (h : q.Flow j n) (hd : q.walk = .done) :
    q.sent = j.candidates ∨ q.cancelled = true :=
  (h.done hd).imp_right fun h => h.resolve_right (not_lost hw ha)

end Workers

theorem Flow.collecting_of_going (h : q.Flow j n) {rest : List String} (hw : q.walk = .going rest) :
    q.stage = .collecting := by
  by_contra hs
  rw [(h.gathered hs).walk] at hw
  cases hw

theorem Flow.collecting_of_readings (h : q.Flow j n) {x : String × Reading}
    {rest : List (String × Reading)} (hr : q.readings = x :: rest) : q.stage = .collecting := by
  by_contra hs
  rw [(h.gathered hs).readings] at hr
  cases hr

/-- A worker that goes on takes a turn: no path gets lost between the channels and the worker. -/
theorem Flow.turn (h : q.Flow j n) (ho : q.ending = none) {w w' : Worker} {l r' : List Worker}
    {paths : List String} {readings : List (String × Reading)} (hw : q.workers = l ++ w :: r')
    (ha : w.isActive = true)
    (hplaces : ∀ path, paths.count path + w'.path?.toList.count path +
        (readings.map (·.1)).count path =
      q.paths.count path + w.path?.toList.count path + (q.readings.map (·.1)).count path)
    (hmade : ∀ x ∈ w'.made?.toList ++ readings, x ∈ w.made?.toList ++ q.readings ∨ j.Reads x.1 x.2)
    (hpaths : q.paths = [] → paths = [])
    (hstop : w' = .stopped → q.cancelled = true ∨ paths = [] ∧ q.Walked) :
    Flow j n { q with paths, workers := l ++ w' :: r', readings } := by
  have hcons : ∀ {β : Type} (f : Worker → Option β) (v : Worker),
      (v :: r').filterMap f = (f v).toList ++ r'.filterMap f := by
    intro β f v
    rw [List.filterMap_cons]
    cases f v <;> rfl
  refine { h with
    workers := ?_, places := fun path => ?_, made := fun x hx => ?_
    done := fun hd => (h.done_of_active hw ha hd).imp_right Or.inl
    stopped := fun hmem => ?_, gathered := fun hs => absurd (h.collecting hw ha) hs
    ended := fun _ he => by rw [ho] at he; cases he }
  · rw [← h.workers, hw]
    simp
  · have hold := h.places path
    have hturn := hplaces path
    simp only [Pipeline.places, hw, List.filterMap_append, hcons, List.count_append] at hold ⊢
    omega
  · have hold := h.made x
    have hturn := hmade x
    simp only [Pipeline.made, hw, List.filterMap_append, hcons, List.mem_append] at hold hturn hx
    have hnew : x ∈ w'.made?.toList ∨ x ∈ readings → j.Reads x.1 x.2 := fun hx =>
      (hturn hx).elim (fun hx => hold (hx.elim (.inl ∘ .inl ∘ .inr ∘ .inl) (.inl ∘ .inr))) id
    rcases hx with ((hl | hw' | hr) | hread) | htaken
    · exact hold (.inl (.inl (.inl hl)))
    · exact hnew (.inl hw')
    · exact hold (.inl (.inl (.inr (.inr hr))))
    · exact hnew (.inr hread)
    · exact hold (.inr htaken)
  · rcases List.mem_append.mp hmem with hl | hr
    · refine (h.stopped ?_).imp_right (And.imp_left hpaths)
      rw [hw]
      exact List.mem_append_left _ hl
    · rcases List.mem_cons.mp hr with hw' | hr
      · exact hstop hw'.symm
      · refine (h.stopped ?_).imp_right (And.imp_left hpaths)
        rw [hw]
        exact List.mem_append_right _ (List.mem_cons_of_mem _ hr)

/-- What was read arrives at the collector, whatever that makes of it. -/
theorem Flow.arrive (h : q.Flow j n) (ho : q.ending = none) {x : String × Reading}
    {rest : List (String × Reading)} (hr : q.readings = x :: rest) {c : Collector} :
    Flow j n { q with readings := rest, taken := q.taken ++ [x], collector := c } := by
  refine { h with
    places := fun path => ?_, made := fun y hy => h.made y ?_
    gathered := fun hs => absurd (h.collecting_of_readings hr) hs
    ended := fun _ he => by rw [ho] at he; cases he }
  · have hold := h.places path
    simp only [Pipeline.places, hr, List.map_append, List.map_cons, List.map_nil,
      List.count_append, List.count_cons, List.count_nil] at hold ⊢
    omega
  · simp only [Pipeline.made, hr, List.mem_append, List.mem_cons, List.not_mem_nil,
      or_false] at hy ⊢
    tauto

/-- **A step loses no path and makes no other.** -/
theorem Step.flow (h : q.Flow j n) (ho : q.ending = none) (hs : Step j q r) : r.Flow j n := by
  have hopen : ∀ report, q.ending ≠ some (.finished report) := by simp [ho]
  cases hs with
  | cancel =>
    exact { h with
      done := fun _ => Or.inr (Or.inl rfl)
      stopped := fun _ => Or.inl rfl
      gathered := fun hs => { h.gathered hs with }
      ended := fun _ he => absurd he (hopen _) }
  | @send path rest hw hc =>
    have hwalk : ¬ q.Walked := fun hwalk => hwalk _ hw
    refine { h with
      places := fun p => ?_, sent := ⟨rest, ?_⟩, rest := fun rest' he => ?_
      done := fun he => (nomatch he), stopped := fun hmem => ?_
      gathered := fun hs => absurd (h.collecting_of_going hw) hs
      ended := fun _ he => absurd he (hopen _) }
    · have hp := h.places p
      simp only [Pipeline.places, List.count_append] at hp ⊢
      omega
    · rw [← h.rest _ hw, List.append_assoc]
      rfl
    · cases he
      rw [← h.rest _ hw, List.append_assoc]
      rfl
    · exact Or.inl ((h.stopped hmem).resolve_right fun hx => hwalk hx.2)
  | @endWalk rest hw hr =>
    refine { h with
      rest := fun _ he => (nomatch he), done := fun _ => ?_, stopped := fun hmem => ?_
      gathered := fun hs => absurd (h.collecting_of_going hw) hs
      ended := fun _ he => absurd he (hopen _) }
    · rcases hr with rfl | hc | hd
      · exact Or.inl (by rw [← h.rest _ hw, List.append_nil])
      · exact Or.inr (Or.inl hc)
      · rcases hd.stopped_or_lost with hstop | hlost
        · exact Or.inr (Or.inl ((h.stopped hstop).resolve_right fun hx => hx.2 _ hw))
        · exact Or.inr (Or.inr hlost)
    · exact Or.inl ((h.stopped hmem).resolve_right fun hx => hx.2 _ hw)
  | @failWalk rest hw =>
    exact { h with
      rest := fun _ he => (nomatch he)
      done := fun he => (nomatch he)
      stopped := fun hmem => Or.inl ((h.stopped hmem).resolve_right fun hx => hx.2 _ hw)
      gathered := fun hs => absurd (h.collecting_of_going hw) hs
      ended := fun _ he => absurd he (hopen _) }
  | @receive path rest l r hw hp =>
    refine h.turn ho hw rfl (fun p => ?_) (fun x hx => Or.inl hx) (by simp [hp]) (by simp)
    simp only [hp, Worker.path?, Option.toList, List.count_cons, List.count_nil]
    omega
  | @read path x l r hw hx =>
    refine h.turn ho hw rfl (fun _ => rfl) (fun y hy => ?_) id (by simp)
    rcases List.mem_cons.mp hy with rfl | hy
    · exact Or.inr hx
    · exact Or.inl hy
  | @deliver path x l r hw hc =>
    refine h.turn ho hw rfl (fun p => ?_) (fun y hy => Or.inl ?_) id (by simp)
    · simp only [Worker.path?, Option.toList, List.map_append, List.map_cons, List.map_nil,
        List.count_append, List.count_cons, List.count_nil]
      omega
    · have hmem : y ∈ q.readings ++ [(path, x)] := hy
      exact List.mem_cons.mpr ((List.mem_append.mp hmem).symm.imp_left List.mem_singleton.mp)
  | @stop l r hw hstop =>
    exact h.turn ho hw rfl (fun _ => rfl) (fun x hx => Or.inl hx) id fun _ => hstop
  | @crash w l r hf hw ha =>
    exact h.turn ho hw ha (fun _ => rfl) (fun x hx => Or.inl (List.mem_append_right _ hx)) id
      (by simp)
  | take hr => exact h.arrive ho hr
  | refuse _ hr => exact h.arrive ho hr
  | close | abandon | fail =>
    exact { h with
      gathered := fun hs => { h.gathered hs with }
      ended := fun _ he => by cases he }
  | desist hd hw hc =>
    refine { h with gathered := fun hs => absurd hd.stage hs, ended := fun report he => ?_ }
    cases he
    exact ⟨hw, Or.inl ⟨hd.stage, rfl⟩⟩
  | check hd hw hc =>
    refine { h with gathered := fun _ => ⟨hw, hd.readings, hd.deserted, ?_⟩
                    ended := fun _ he => absurd he (hopen _) }
    -- a worker that stopped has left no path behind
    rcases Deserted.stopped_or_lost hd.deserted with hstop | hlost
    · have hnot : q.cancelled ≠ true := by simp [hc]
      by_cases hl : q.Lost
      · exact Or.inl hl
      · exact Or.inr ⟨((h.done hw).resolve_right fun h => h.elim hnot hl),
          ((h.stopped hstop).resolve_left hnot).1⟩
    · exact Or.inl hlost
  | prune hs | link hs | count hs =>
    exact { h with
      gathered := fun _ => { h.gathered (by simp [hs]) with }
      ended := fun _ he => absurd he (hopen _) }
  | conclude hs =>
    have hg := h.gathered (by simp [hs])
    refine { h with gathered := fun _ => { hg with }, ended := fun report he => ?_ }
    exact ⟨hg.walk, Or.inr ⟨hs, Ending.ofReport_eq_finished.mp (Option.some.inj he)⟩⟩

theorem Reaches.flow (h : Reaches j n q) : q.Flow j n := by
  induction h with
  | start => exact flow_start
  | step _ ho hs ih => exact hs.flow ih ho

/-- What has arrived at the collector are candidates, none more often than it is one. -/
theorem Flow.count_taken_le (h : q.Flow j n) (path : String) :
    (q.taken.map (·.1)).count path ≤ j.candidates.count path := by
  have hp := h.places path
  have hs := h.sent.sublist.count_le path
  unfold Pipeline.places at hp
  omega

/-- A report that was not cancelled is given when the files are counted. -/
theorem Flow.counted (h : q.Flow j n) {report : IndexReport}
    (he : q.ending = some (.finished report)) (hc : report.cancelled = false) :
    q.stage = .counted ∧ q.collector.conclude j.target = .ok report := by
  rcases (h.ended report he).2 with ⟨-, hr⟩ | hr
  · rw [hr] at hc
    cases hc
  · exact hr

/-- Where no worker has crashed, not all have. -/
theorem Flow.not_lost (h : q.Flow j n) (hn : 0 < n) (hm : q.Manned) : ¬ q.Lost := by
  intro hl
  obtain ⟨w, hw⟩ := List.exists_mem_of_length_pos (by rw [h.workers]; exact hn)
  obtain ⟨held, rfl⟩ := hl w hw
  exact hm held hw

/-- **At the end of a run without crashes every candidate has been taken up once.** -/
theorem Flow.taken_perm (h : q.Flow j n) (hn : 0 < n) (hm : q.Manned) (hs : q.stage ≠ .collecting) :
    q.sent = j.candidates ∧ (q.taken.map (·.1)).Perm j.candidates := by
  have hg := h.gathered hs
  obtain ⟨hsent, hpaths⟩ := hg.sent.resolve_left (h.not_lost hn hm)
  have hworkers : q.workers.filterMap Worker.path? = [] := by
    refine List.filterMap_eq_nil_iff.mpr fun w hw => ?_
    have hended := hg.deserted w hw
    cases w with
    | stopped => rfl
    | crashed held => exact absurd hw (hm held)
    | idle | reading path | sending path x => cases hended
  refine ⟨hsent, List.perm_iff_count.mpr fun path => ?_⟩
  rw [← hsent, ← h.places path]
  simp [Pipeline.places, hpaths, hworkers, hg.readings]

/-- At the end of a run a candidate has been taken up, unless a worker crashed with it or all have. -/
theorem Flow.taken_or_crashed (h : q.Flow j n) (hs : q.stage ≠ .collecting) {path : String}
    (hp : path ∈ j.candidates) :
    path ∈ q.taken.map (·.1) ∨ .crashed (some path) ∈ q.workers ∨ q.Lost := by
  have hg := h.gathered hs
  rcases hg.sent with hlost | ⟨hsent, hpaths⟩
  · exact Or.inr (Or.inr hlost)
  have hplaces := h.places path
  rw [Pipeline.places, hpaths, hg.readings, hsent] at hplaces
  have hpos : 0 < j.candidates.count path := List.count_pos_iff.mpr hp
  by_cases ht : path ∈ q.taken.map (·.1)
  · exact Or.inl ht
  · refine Or.inr (Or.inl ?_)
    have hnone := List.count_eq_zero_of_not_mem ht
    have hheld : path ∈ q.workers.filterMap Worker.path? := by
      refine List.count_pos_iff.mp ?_
      simp only [List.count_nil, List.map_nil] at hplaces
      omega
    obtain ⟨w, hw, hwp⟩ := List.mem_filterMap.mp hheld
    have hended := hg.deserted w hw
    cases w with
    | crashed held => cases hwp; exact hw
    | stopped => cases hwp
    | idle | reading path | sending path x => cases hended

/-- Where nothing can fail, no worker crashes. -/
theorem Reaches.manned (h : Reaches j n q) (hf : j.faulty = false) : q.Manned := by
  induction h with
  | start => simp [Manned, Pipeline.start]
  | step _ _ hs ih =>
    intro held
    have hheld := ih held
    cases hs with
    | receive hw | read hw | deliver hw | stop hw => simpa [hw] using hheld
    | crash hfault => rw [hf] at hfault; cases hfault
    | cancel | send | endWalk | failWalk | take | refuse | close | abandon | desist | check | prune
    | link | count | conclude | fail => exact hheld

/-! ## Every run comes to its end -/

/-- How many steps a run can still take, at most. -/
def load (q : Pipeline) : Nat :=
  q.walk.load + 4 * q.paths.length + (q.workers.map Worker.load).sum + q.readings.length +
    q.stage.load + if q.ending.isNone then 1 else 0

end Pipeline

/-- What reading all candidates gives. -/
def Job.readings (j : Job) : List Reading := j.candidates.map (j.context.read j.disk)

namespace Pipeline

/-- A run with one worker that waits, and with nothing in the channels. -/
def resting (walk : WalkStage) (sent : List String) (taken : List (String × Reading))
    (c : Collector) : Pipeline :=
  { walk, sent, workers := [.idle], taken, collector := c }

/-- One worker takes up the files that are left. -/
theorem Reaches.resting_walk {j : Job} (hcap : 0 < j.capacity) {rest sent : List String}
    {taken : List (String × Reading)} {c : Collector}
    (h : Reaches j 1 (resting (.going rest) sent taken c)) :
    Reaches j 1 (resting (.going []) (sent ++ rest)
      (taken ++ rest.map fun path => (path, j.context.read j.disk path))
      ((rest.map (j.context.read j.disk)).foldl (Collector.take j.target) c)) := by
  induction rest generalizing sent taken c with
  | nil => simpa using h
  | cons path rest ih =>
    have hsent := h.step rfl (.send rfl hcap)
    have hreceived := hsent.step rfl (@Step.receive j _ path [] [] [] rfl rfl)
    have hread := hreceived.step rfl (@Step.read j _ path _ [] [] rfl .read)
    have hdelivered := hread.step rfl (@Step.deliver j _ path _ [] [] rfl hcap)
    have htaken := hdelivered.step rfl (.take rfl)
    have hrest := @ih (sent ++ [path]) (taken ++ [(path, j.context.read j.disk path)])
      (c.take j.target (j.context.read j.disk path)) htaken
    simpa using hrest

/-- **One worker can take up the files one after the other.** -/
theorem Reaches.exists_checked {j : Job} (hcap : 0 < j.capacity)
    (hroot : j.indexer.hasRoot j.disk = true) : ∃ q, Reaches j 1 q ∧ q.cancelled = false ∧
      q.walk = .done ∧ q.stage = .checked ∧ q.ending = none ∧ q.workers = [.stopped] ∧
      q.taken = j.candidates.map (fun path => (path, j.context.read j.disk path)) ∧
      q.collector = j.readings.foldl (Collector.take j.target) { store := j.store } := by
  have hstart : Pipeline.start j 1 = resting (.going j.candidates) [] [] { store := j.store } := by
    simp [Pipeline.start, resting, hroot]
  have hrest := Reaches.resting_walk hcap (hstart ▸ @Reaches.start j 1)
  have hwalked := hrest.step rfl (.endWalk rfl (Or.inl rfl))
  have hstopped := hwalked.step rfl
    (@Step.stop j _ [] [] rfl (Or.inr ⟨rfl, fun _ h => by cases h⟩))
  have hchecked := hstopped.step rfl
    (.check ⟨rfl, rfl, fun w hw => by rw [List.mem_singleton.mp hw]; rfl⟩ rfl rfl)
  exact ⟨_, hchecked, rfl, rfl, rfl, rfl, rfl, rfl, rfl⟩

/-- **A run can be the one over the readings in the order of the walk.** -/
theorem Reaches.exists_sequential {j : Job} (hcap : 0 < j.capacity)
    (hroot : j.indexer.hasRoot j.disk = true) : ∃ q, Reaches j 1 q ∧ q.cancelled = false ∧
      q.walk = .done ∧
      q.taken = j.candidates.map (fun path => (path, j.context.read j.disk path)) ∧
      q.store = (runReadings j.target false j.store j.readings).2 ∧
      q.ending = some (.ofReport (runReadings j.target false j.store j.readings).1) := by
  obtain ⟨q, hq, hc, hw, hs, ho, -, ht, hcol⟩ := Reaches.exists_checked hcap hroot
  have hpruned := hq.step ho (.prune hs)
  have hlinked := hpruned.step ho (.link rfl)
  have hcounted := hlinked.step ho (.count rfl)
  have hconcluded := hcounted.step ho (.conclude rfl)
  refine ⟨_, hconcluded, hc, hw, ht, ?_, ?_⟩
  · change (((q.collector.prune j.target).link j.target).stamp j.target).store = _
    rw [hcol]
    rfl
  · change some (Ending.ofReport
      ((((q.collector.prune j.target).link j.target).stamp j.target).conclude j.target)) = _
    rw [hcol]
    rfl

end Pipeline

end CodeAtlas
