import CodeAtlas.Audit.Report
import CodeAtlas.Proofs.Frame
import CodeAtlas.Proofs.Reads

/-!
# Projects do not touch each other

* `Store.holdings`: all rows that a project owns, table by table.
* `Write.IssuedFor`: the writes that name a project.
* `Store.Untouched`: a write leaves alone what a project owns; `untouched_upsertProject`,
  `Persisted.untouched`, `untouched_dropFiles`, `untouched_resolveLinks`, `untouched_refresh`.
* `audit_congr`: an audit reads nothing but the holdings of its project.
* **`Reachable.project_isolated`**: writes issued for one project change neither the holdings of
  another one nor its audit.
-/

namespace CodeAtlas

/-- All rows that a project owns, with its own row. -/
structure Holdings where
  projects : List ProjectRow
  files : List FileRow
  symbols : List SymbolRow
  imports : List ImportRow
  relationships : List RelationshipRow
  references : List ReferenceRow

/-- The writes that are issued for a project: they name its path or its id. -/
inductive Write.IssuedFor (q : ProjectRow) : Write → Prop where
  | upsertProject (now : Int) (name : String) : IssuedFor q (.upsertProject now q.path name)
  | persist (now : Int) (file : SourceFile) (outline : Outline) :
      IssuedFor q (.persist now q.id file outline)
  | removeFile (path : String) : IssuedFor q (.removeFile q.id path)
  | prune (keep : List String) : IssuedFor q (.prune q.id keep)
  | resolveLinks : IssuedFor q (.resolveLinks q.id)
  | refresh (now : Int) : IssuedFor q (.refresh now q.id)

namespace Store

variable {s t : Store} {p q : Int}

/-- **All rows that a project owns.** -/
def holdings (s : Store) (p : Int) : Holdings where
  projects := s.projects.filter (·.id == p)
  files := s.files.filter (·.projectId == p)
  symbols := s.symbols.filter fun r => s.ownsFile p r.fileId
  imports := s.imports.filter fun r => s.ownsFile p r.fileId
  relationships := s.relationships.filter fun r => s.ownsFile p r.fileId
  references := s.references.filter fun r => s.ownsFile p r.fileId

/-! ## Stores with the same holdings -/

/-- Two stores agree on a project: on its row, on its files, and on the rows of each of them. -/
structure Untouched (s t : Store) (p : Int) : Prop where
  projects : t.projects.filter (·.id == p) = s.projects.filter (·.id == p)
  files : ∀ f : FileRow, f.projectId = p → (f ∈ t.files ↔ f ∈ s.files)
  rows : ∀ f ∈ s.files, f.projectId = p → SameRows s t f.id
  links : ∀ f ∈ s.files, f.projectId = p → SameLinks s t f.id

theorem Untouched.refl (s : Store) (p : Int) : Untouched s s p :=
  ⟨rfl, fun _ _ => Iff.rfl, fun _ _ _ => .refl _ _, fun _ _ _ => .refl _ _⟩

theorem Untouched.ownsFile_eq (h : Untouched s t p) (i : Int) :
    t.ownsFile p i = s.ownsFile p i := by
  rw [Bool.eq_iff_iff, ownsFile_iff, ownsFile_iff]
  constructor
  · rintro ⟨f, hf, hi, hp⟩
    exact ⟨f, (h.files f hp).mp hf, hi, hp⟩
  · rintro ⟨f, hf, hi, hp⟩
    exact ⟨f, (h.files f hp).mpr hf, hi, hp⟩

/-- A table agrees on a project if it agrees on each file of the project. -/
theorem Untouched.table_eq {ρ : Type} {key file : ρ → Int} (h : Untouched s t p) {rows rows' : List ρ}
    (hk : (rows.map key).Pairwise (· < ·)) (hk' : (rows'.map key).Pairwise (· < ·))
    (hrows : ∀ f ∈ s.files, f.projectId = p →
      rows'.filter (file · == f.id) = rows.filter (file · == f.id)) :
    rows'.filter (fun r => t.ownsFile p (file r)) = rows.filter fun r => s.ownsFile p (file r) := by
  simp only [h.ownsFile_eq]
  refine eq_of_mem_iff (hk'.sublist (List.filter_sublist.map key))
    (hk.sublist (List.filter_sublist.map key)) fun r => ?_
  rw [List.mem_filter, List.mem_filter]
  refine and_congr_left fun hr => ?_
  obtain ⟨f, hf, hi, hp⟩ := ownsFile_iff.mp hr
  have hmem : r ∈ rows'.filter (file · == f.id) ↔ r ∈ rows.filter (file · == f.id) := by
    rw [hrows f hf hp]
  simpa [List.mem_filter, hi] using hmem

theorem Untouched.holdings_eq (hs : s.Keyed) (ht : t.Keyed) (h : Untouched s t p) :
    t.holdings p = s.holdings p := by
  have hfiles : t.files.filter (·.projectId == p) = s.files.filter (·.projectId == p) := by
    refine eq_of_mem_iff (ht.files.grows.sublist (List.filter_sublist.map _))
      (hs.files.grows.sublist (List.filter_sublist.map _)) fun f => ?_
    rw [List.mem_filter, List.mem_filter]
    exact and_congr_left fun hf => h.files f (by simpa using hf)
  unfold holdings
  rw [h.projects, hfiles,
    h.table_eq hs.symbols.grows ht.symbols.grows fun f hf hp => (h.rows f hf hp).symbols,
    h.table_eq hs.imports.grows ht.imports.grows fun f hf hp => (h.rows f hf hp).imports,
    h.table_eq hs.relationships.grows ht.relationships.grows
      fun f hf hp => (h.links f hf hp).relationships,
    h.table_eq hs.references.grows ht.references.grows fun f hf hp => (h.links f hf hp).references]

/-! ## Single writes -/

/-- Rows that are rewritten in place, apart from the row of a project. -/
theorem filter_id_map {g : ProjectRow → ProjectRow} {rows : List ProjectRow}
    (hid : ∀ r, (g r).id = r.id) (hfix : ∀ r ∈ rows, r.id = p → g r = r) :
    (rows.map g).filter (·.id == p) = rows.filter (·.id == p) := by
  rw [List.filter_map]
  have hcomp : ((fun r : ProjectRow => r.id == p) ∘ g) = fun r => r.id == p := by
    funext r
    simp [hid]
  rw [hcomp]
  refine (List.map_congr_left fun r hr => ?_).trans (List.map_id _)
  obtain ⟨hr, hp⟩ := List.mem_filter.mp hr
  exact hfix r hr (by simpa using hp)

/-- New rows of projects leave the files alone. -/
theorem untouched_withProjects {projects : List ProjectRow} {last : Counters}
    (h : projects.filter (·.id == p) = s.projects.filter (·.id == p)) :
    Untouched s { s with projects, last } p :=
  ⟨h, fun _ _ => Iff.rfl, fun _ _ _ => ⟨rfl, rfl, rfl, rfl⟩, fun _ _ _ => ⟨rfl, rfl⟩⟩

theorem untouched_upsertProject (hs : s.Keyed) {r : ProjectRow} (hr : r ∈ s.projects) {now : Int}
    {path name : String} (hne : r.path ≠ path) {x : Project}
    (ht : s.upsertProject now path name = .ok (x, t)) : Untouched s t r.id := by
  rw [upsertProject_state ht]
  refine untouched_withProjects ?_
  unfold projectsAfter
  split
  · refine filter_id_map (fun r' => by split <;> rfl) fun r' hr' hid => if_neg ?_
    rw [List.inj_on_of_nodup_map hs.projects.nodup hr' hr hid]
    simpa using hne
  · -- the new row has an id that was not given out before
    have hb := hs.projects.bound _ (List.mem_map_of_mem hr)
    have hid : s.last.projects + 1 ≠ r.id := by omega
    rw [List.filter_append, List.filter_cons_of_neg (by simpa [newProject] using hid),
      List.filter_nil, List.append_nil]

theorem Persisted.untouched (hs : s.Sound) {now i : Int} {f : SourceFile} {o : Outline}
    (h : s.Persisted now q f o i t) (hne : p ≠ q) : Untouched s t p := by
  -- a file of another project has another row
  have hid : ∀ g ∈ s.files, g.projectId = p → g.id ≠ i := by
    rintro g hg rfl hgi
    rcases h.files.old_or_new with ⟨old, hold, hoi, hoq, -⟩ | ⟨hi, -⟩
    · rw [hs.keyed.file_eq hg hold (hgi.trans hoi.symm)] at hne
      exact hne hoq
    · have hb := hs.keyed.files.bound _ (List.mem_map_of_mem hg)
      omega
  refine ⟨by rw [h.projects], fun g hg => ?_, fun g hg hp => h.sameRows hs (hid g hg hp),
    fun g hg hp => h.sameLinks hs hg (by rw [hp]; exact hne) (hid g hg hp)⟩
  rw [h.files.mem_iff hs.keyed]
  constructor
  · rintro (rfl | ⟨hmem, -⟩)
    · exact absurd hg.symm hne
    · exact hmem
  · exact fun hmem => Or.inr ⟨hmem, hid g hmem hg⟩

theorem untouched_dropFiles (hs : s.Sound) {gone : FileRow → Bool}
    (hgone : ∀ f, gone f = true → f.projectId = q) (hne : p ≠ q) :
    Untouched s (s.dropFiles gone) p := by
  have hkeep : ∀ f : FileRow, f.projectId = p → gone f = false := fun f hf =>
    Bool.eq_false_iff.mpr fun hg => hne (hf.symm.trans (hgone f hg))
  refine ⟨rfl, fun f hf => ?_, fun f hf hp => sameRows_dropFiles hs hf (hkeep f hp),
    fun f hf hp => sameLinks_dropFiles hs hf (by rw [hp]; exact hne) fun g _ hg => hgone g hg⟩
  rw [mem_dropFiles, hkeep f hf]
  simp

theorem untouched_resolveLinks (hs : s.Keyed) (hne : p ≠ q) :
    Untouched s (s.resolveLinks q).2 p := by
  refine ⟨rfl, fun _ _ => Iff.rfl, fun f _ _ => sameRows_resolveLinks q s f.id, fun f hf hp =>
    sameLinks_resolveLinks (Bool.eq_false_iff.mpr fun hq => hne ?_)⟩
  exact hs.owner_unique (ownsFile_iff.mpr ⟨f, hf, rfl, hp⟩) hq

theorem untouched_refresh {now : Int} {x : Project} (hne : p ≠ q)
    (ht : s.refresh now q = .ok (x, t)) : Untouched s t p := by
  rw [refresh_state ht]
  refine untouched_withProjects (filter_id_map (fun r => by split <;> rfl) fun r _ hp => if_neg ?_)
  rw [hp]
  simpa using hne

theorem Untouched.afterWrite {α : Type} {x : StoreM (α × Store)}
    (h : ∀ a t, x = .ok (a, t) → Untouched s t p) : Untouched s (afterWrite s x) p := by
  cases x with
  | error e => exact .refl s p
  | ok y => exact h y.1 y.2 rfl

/-- A write issued for one project leaves another one alone. -/
theorem untouched_apply (hs : s.Sound) {p q : ProjectRow} (hp : p ∈ s.projects)
    (hid : p.id ≠ q.id) (hpath : p.path ≠ q.path) {w : Write} (hw : w.IssuedFor q) :
    Untouched s (s.apply w) p.id := by
  cases hw with
  | upsertProject now name =>
    exact .afterWrite fun _ _ ht => untouched_upsertProject hs.keyed hp hpath ht
  | persist now f o =>
    refine .afterWrite fun _ _ ht => ?_
    obtain ⟨i, h, -⟩ := persist_spec hs ht
    exact h.untouched hs hid
  | removeFile path =>
    refine untouched_dropFiles hs (fun f hf => ?_) hid
    exact beq_iff_eq.mp (Bool.and_eq_true_iff.mp hf).1
  | prune keep =>
    refine untouched_dropFiles hs (fun f hf => ?_) hid
    exact beq_iff_eq.mp (Bool.and_eq_true_iff.mp hf).1
  | resolveLinks => exact untouched_resolveLinks hs.keyed hid
  | refresh now => exact .afterWrite fun _ _ ht => untouched_refresh hid ht

/-! ## What an audit reads -/

theorem mem_symbols_holdings {f : FileRow} {r : SymbolRow} (hf : f ∈ s.files)
    (hp : f.projectId = p) (hr : f.id = r.fileId) : r ∈ (s.holdings p).symbols ↔ r ∈ s.symbols := by
  rw [holdings, List.mem_filter]
  exact and_iff_left (ownsFile_iff.mpr ⟨f, hf, hr, hp⟩)

/-- The symbols of a project with their files depend on its holdings only. -/
theorem sitedSymbols_congr (hs : s.Sound) (ht : t.Sound) (h : t.holdings p = s.holdings p) :
    t.sitedSymbols.filter (·.1.projectId == p) = s.sitedSymbols.filter (·.1.projectId == p) := by
  have hgrows : ∀ {u : Store}, u.Sound → ((u.sitedSymbols.filter (·.1.projectId == p)).map
      fun x => x.2.id).Pairwise (· < ·) := by
    intro u hu
    refine List.Pairwise.sublist (List.filter_sublist.map _) ?_
    have := hu.keyed.symbols.grows
    rwa [← sitedSymbols_snd hu, List.map_map] at this
  have hfile : ∀ f : FileRow, f.projectId = p → (f ∈ t.files ↔ f ∈ s.files) := by
    intro f hf
    have hmem : f ∈ (t.holdings p).files ↔ f ∈ (s.holdings p).files := by rw [h]
    simpa [holdings, List.mem_filter, hf] using hmem
  refine eq_of_mem_iff (hgrows ht) (hgrows hs) fun x => ?_
  obtain ⟨f, r⟩ := x
  rw [List.mem_filter, List.mem_filter, mem_sitedSymbols ht.keyed, mem_sitedSymbols hs.keyed]
  refine and_congr_left fun hp => ?_
  have hp : f.projectId = p := by simpa using hp
  rw [hfile f hp]
  refine and_congr_right fun hf => and_congr_left fun hr => ?_
  rw [← mem_symbols_holdings hf hp hr, ← mem_symbols_holdings ((hfile f hp).mpr hf) hp hr, h]

/-- **An audit reads nothing but the holdings of its project.** -/
theorem audit_congr (hs : s.Sound) (ht : t.Sound) (h : t.holdings p = s.holdings p)
    (rule : ImportRule) : t.audit rule p = s.audit rule p := by
  have hfiles : t.filesOf p = s.filesOf p := by
    unfold filesOf
    rw [show t.files.filter (·.projectId == p) = s.files.filter (·.projectId == p) from
      congrArg Holdings.files h]
  have hsymbols : t.symbolsOf p = s.symbolsOf p := by
    unfold symbolsOf
    rw [sitedSymbols_congr hs ht h]
  have himports : t.importsOf p = s.importsOf p := by
    unfold importsOf
    rw [show (t.imports.filter fun r => t.ownsFile p r.fileId) = _ from congrArg Holdings.imports h]
    rfl
  have hedges : t.relationshipsOf p = s.relationshipsOf p :=
    congrArg decodeEdges (congrArg Holdings.relationships h)
  have huses : t.referencesOf p = s.referencesOf p :=
    congrArg decodeUses (congrArg Holdings.references h)
  unfold audit
  rw [hfiles, hsymbols, himports, hedges, huses]

/-! ## Isolation -/

/-- **Projects are isolated.** In every state that writes lead to, a write issued for one of two
projects, whether it succeeds or fails, leaves the row of the other one and all its files, symbols,
imports, edges and uses as they are, links included; so its audit, by any rule for imports, gives the
same report. -/
theorem Reachable.project_isolated (h : s.Reachable) {p q : ProjectRow} (hp : p ∈ s.projects)
    (hq : q ∈ s.projects) (hne : p ≠ q) {w : Write} (hw : w.IssuedFor q) :
    (s.apply w).holdings p.id = s.holdings p.id ∧
      ∀ rule : ImportRule, (s.apply w).audit rule p.id = s.audit rule p.id := by
  have hs := h.sound
  have hid : p.id ≠ q.id := fun he => hne (List.inj_on_of_nodup_map hs.keyed.projects.nodup hp hq he)
  have hpath : p.path ≠ q.path := fun he =>
    hne (List.inj_on_of_nodup_map hs.keyed.projectPaths hp hq he)
  have hholdings : (s.apply w).holdings p.id = s.holdings p.id :=
    (untouched_apply hs hp hid hpath hw).holdings_eq hs.keyed (hs.apply w).keyed
  exact ⟨hholdings, audit_congr hs (hs.apply w) hholdings⟩

/-- Two projects that declare and use the same name in files at the same path. -/
def neighbours : List Write :=
  [.upsertProject 0 "/p" "p", .upsertProject 0 "/q" "q",
    .persist 0 1 { relativePath := "a.go" }
      { symbols := [{ name := "f" }], uses := [⟨.call, none, "f", none, 4, 1⟩] },
    .persist 0 2 { relativePath := "a.go" }
      { symbols := [{ name := "f" }], uses := [⟨.call, none, "f", none, 4, 1⟩] }]

/-- The file of one project goes, and the use in the other one keeps its link. -/
theorem project_isolated_neighbours :
    ((run neighbours).apply (.removeFile 2 "a.go")).symbols.map (·.id) = [1] ∧
    (((run neighbours).apply (.removeFile 2 "a.go")).holdings 1).references.map (·.targetId) =
      [some 1] := by
  have hp : (run neighbours).projects =
      [{ id := 1, path := "/p", name := "p", languageStats := [], createdAt := 0
         lastIndexed := none },
       { id := 2, path := "/q", name := "q", languageStats := [], createdAt := 0
         lastIndexed := none }] := by decide +kernel
  obtain ⟨hsame, -⟩ := (reachable_run neighbours).project_isolated
    (hp ▸ List.mem_cons_self) (hp ▸ List.mem_cons_of_mem _ List.mem_cons_self) (by decide)
    (.removeFile "a.go")
  refine ⟨by decide +kernel, ?_⟩
  rw [hsame]
  decide +kernel

end Store

end CodeAtlas
