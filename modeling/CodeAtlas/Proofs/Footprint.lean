import CodeAtlas.Proofs.Accounting
import CodeAtlas.Proofs.Atomic

/-!
# What a write leaves alone

* `Store.lost`: a symbol has no row any more. `others`: the rows of all files but some.
* **`Store.Framed`**: all rows that do not belong to some files are as they were, apart from links to
  symbols that are lost, which are cleared.
* `Persisted.framed`, `framed_dropFiles`: storing a file, or removing files, touches no other file.
* **`Reachable.writes_framed`**: a write that fails changes nothing, and one that succeeds leaves all
  other files alone.
-/

namespace CodeAtlas.Store

variable {s t : Store} {mine : Int → Bool}

/-- Whether a symbol has no row in a store. -/
def lost (t : Store) (r : SymbolRow) : Bool := !t.symbols.any (·.id == r.id)

/-- The rows of all files but some. -/
def others {ρ : Type} (file : ρ → Int) (mine : Int → Bool) (rows : List ρ) : List ρ :=
  rows.filter fun r => !mine (file r)

/-- **All rows that do not belong to some files are as they were**, apart from links to symbols that
are lost, which are cleared. -/
structure Framed (s t : Store) (mine : Int → Bool) : Prop where
  projects : t.projects = s.projects
  files : others (·.id) mine t.files = others (·.id) mine s.files
  symbols : others (·.fileId) mine t.symbols = others (·.fileId) mine s.symbols
  imports : others (·.fileId) mine t.imports = others (·.fileId) mine s.imports
  relationships : others (·.fileId) mine t.relationships =
    (others (·.fileId) mine s.relationships).map (s.clearEdge t.lost)
  references : others (·.fileId) mine t.references =
    (others (·.fileId) mine s.references).map (s.clearUse t.lost)

section Others

variable {ρ : Type} {file : ρ → Int}

/-- Tables agree on all other files if they agree on each of them. -/
theorem others_eq (key : ρ → Int) {rows rows' : List ρ} (hk : (rows.map key).Pairwise (· < ·))
    (hk' : (rows'.map key).Pairwise (· < ·))
    (h : ∀ j, mine j = false → rows'.filter (file · == j) = rows.filter (file · == j)) :
    others file mine rows' = others file mine rows := by
  refine eq_of_mem_iff (hk'.sublist (List.filter_sublist.map key))
    (hk.sublist (List.filter_sublist.map key)) fun r => ?_
  rw [others, others, List.mem_filter, List.mem_filter]
  refine and_congr_left fun hr => ?_
  have hmem : r ∈ rows'.filter (file · == file r) ↔ r ∈ rows.filter (file · == file r) := by
    rw [h (file r) (by simpa using hr)]
  simpa [List.mem_filter] using hmem

theorem others_map {g : ρ → ρ} (hg : ∀ r, file (g r) = file r) (rows : List ρ) :
    others file mine (rows.map g) = (others file mine rows).map g :=
  (map_filter (fun r => by rw [hg]) rows).symm

theorem others_filter (rows : List ρ) :
    others file mine (rows.filter fun r => !mine (file r)) = others file mine rows := by
  rw [others, List.filter_filter]
  exact List.filter_congr fun r _ => Bool.and_self _

end Others

/-! ## Symbols that are lost -/

section Lost

variable {gone gone' : SymbolRow → Bool}

theorem lost_eq_false {r : SymbolRow} : t.lost r = false ↔ ∃ y ∈ t.symbols, y.id = r.id := by
  simp [lost]

/-- Links are cleared alike if the same symbols go. -/
theorem cleared_congr (h : ∀ x ∈ s.symbols, gone x = gone' x) : s.cleared gone = s.cleared gone' := by
  funext link
  rw [cleared, cleared, List.filter_congr h]

theorem clearEdge_congr (h : ∀ x ∈ s.symbols, gone x = gone' x) :
    s.clearEdge gone = s.clearEdge gone' := by
  funext r
  rw [clearEdge, clearEdge, cleared_congr h]

theorem clearUse_congr (h : ∀ x ∈ s.symbols, gone x = gone' x) :
    s.clearUse gone = s.clearUse gone' := by
  funext r
  rw [clearUse, clearUse, cleared_congr h]

end Lost

/-! ## Storing a file -/

section Persist

variable {now p i : Int} {f : SourceFile} {o : Outline}

/-- The symbols that are left over are those that are lost. -/
theorem Persisted.leaves_eq_lost (h : s.Persisted now p f o i t) (hs : s.Keyed) {x : SymbolRow}
    (hx : x ∈ s.symbols) : s.leaves i o.symbols x = t.lost x := by
  rw [← removes_eq_leaves hs hx, Bool.eq_iff_iff, ← not_iff_not, Bool.not_eq_true, Bool.not_eq_true,
    lost_eq_false]
  have hstored := @reconcile_stored i s.last.symbols (s.rowsOfFile i) o.symbols
  constructor
  · intro hr
    by_cases hi : x.fileId = i
    · have hmem := hstored.mem_iff.mpr (List.mem_map_of_mem (mem_rowsOfFile.mpr ⟨hx, hi⟩))
      rcases List.mem_append.mp hmem with hk | hg
      · obtain ⟨y, hy, he⟩ := List.mem_map.mp hk
        exact ⟨y, (h.symbols y).mpr (Or.inr (Reconciled.mem_rows_iff.mpr (Or.inl hy))), he⟩
      · rw [reconciled_removes_iff.mpr hg] at hr
        cases hr
    · exact ⟨x, (h.symbols x).mpr (Or.inl ⟨hx, hi⟩), rfl⟩
  · rintro ⟨y, hy, he⟩
    by_contra hr
    have hg := reconciled_removes_iff.mp (by simpa using hr)
    obtain ⟨z, hz, hzi, hze⟩ := exists_of_removes (by simpa using hr)
    obtain rfl := hs.symbol_eq hz hx hze
    rcases (h.symbols y).mp hy with ⟨hy, hyi⟩ | hy
    · rw [hs.symbol_eq hy hx he] at hyi
      exact hyi hzi
    · rcases Reconciled.mem_rows_iff.mp hy with hk | hf
      · have hnd := hstored.nodup_iff.mpr (rowsOfFile_nodup hs i)
        exact List.disjoint_of_nodup_append hnd (List.mem_map.mpr ⟨y, hk, he⟩) hg
      · have hnew := (reconcile_issued s.last.symbols (s.rowsOfFile i) o.symbols).2.2 _
          (List.mem_map_of_mem hf)
        have hold := hs.symbols.bound _ (List.mem_map_of_mem hx)
        omega

/-- The file at the path is the one that was stored. -/
theorem Persisted.isFileAt_eq (h : s.Persisted now p f o i t) (ht : t.Keyed) (j : Int) :
    t.isFileAt p f.relativePath j = (j == i) := by
  rw [Bool.eq_iff_iff, isFileAt_iff, beq_iff_eq]
  constructor
  · rintro ⟨g, hg, rfl, hproject, hpath⟩
    exact congrArg (·.id) (ht.file_eq_of_path hg h.files.id_mem hproject hpath)
  · rintro rfl
    exact ⟨_, h.files.id_mem, rfl, rfl, rfl⟩

/-- **Storing a file touches no other file.** -/
theorem Persisted.framed (h : s.Persisted now p f o i t) (hs : s.Keyed) (ht : t.Keyed) :
    Framed s t (t.isFileAt p f.relativePath) := by
  have hmine : t.isFileAt p f.relativePath = (· == i) := funext (h.isFileAt_eq ht)
  have hne : ∀ j, (j == i) = false → j ≠ i := fun j hj => by simpa using hj
  rw [hmine]
  exact {
    projects := h.projects
    files := eq_of_mem_iff (ht.files.grows.sublist (List.filter_sublist.map _))
      (hs.files.grows.sublist (List.filter_sublist.map _)) fun g => by
        rw [others, others, List.mem_filter, List.mem_filter, h.files.mem_iff hs]
        have hrow : (fileRow now p i f).id = i := rfl
        constructor
        · rintro ⟨rfl | ⟨hg, -⟩, hi⟩
          · simp [hrow] at hi
          · exact ⟨hg, hi⟩
        · rintro ⟨hg, hi⟩
          exact ⟨Or.inr ⟨hg, by simpa using hi⟩, hi⟩
    symbols := others_eq (·.id) hs.symbols.grows ht.symbols.grows fun j hj => h.otherSymbols j (hne j hj)
    imports := others_eq (·.id) hs.imports.grows ht.imports.grows fun j hj => h.otherImports j (hne j hj)
    relationships := by
      rw [← clearEdge_congr fun x hx => h.leaves_eq_lost hs hx,
        ← others_map (g := s.clearEdge (s.leaves i o.symbols)) fun _ => rfl]
      refine others_eq (·.id) ?_ ht.relationships.grows fun j hj => ?_
      · rw [List.map_map]
        exact hs.relationships.grows
      · exact (h.otherRelationships j (hne j hj)).trans (relationshipsIn_dropSymbols _ _).symm
    references := by
      rw [← clearUse_congr fun x hx => h.leaves_eq_lost hs hx,
        ← others_map (g := s.clearUse (s.leaves i o.symbols)) fun _ => rfl]
      refine others_eq (·.id) ?_ ht.references.grows fun j hj => ?_
      · rw [List.map_map]
        exact hs.references.grows
      · exact (h.otherReferences j (hne j hj)).trans (referencesIn_dropSymbols _ _).symm }

end Persist

/-! ## Removing files -/

section DropFiles

variable {gone : FileRow → Bool}

theorem goesWith_eq_lost (hs : s.Keyed) {x : SymbolRow} (hx : x ∈ s.symbols) :
    s.goesWith gone x = (s.dropFiles gone).lost x := by
  rw [Bool.eq_iff_iff, ← not_iff_not, Bool.not_eq_true, Bool.not_eq_true, lost_eq_false]
  simp only [goesWith, mem_symbols_dropFiles]
  constructor
  · intro hg
    exact ⟨x, ⟨hx, by simpa using hg⟩, rfl⟩
  · rintro ⟨y, ⟨hy, hg⟩, he⟩
    rw [hs.symbol_eq hy hx he] at hg
    simpa using hg

/-- **Removing files touches no other file.** -/
theorem framed_dropFiles (hs : s.Keyed) (hmine : ∀ i, mine i = (goneIds gone s).contains i) :
    Framed s (s.dropFiles gone) mine ∧ (s.dropFiles gone).files = others (·.id) mine s.files := by
  obtain rfl : mine = (goneIds gone s).contains := funext hmine
  have hfiles : (s.dropFiles gone).files = others (·.id) (goneIds gone s).contains s.files := by
    refine List.filter_congr fun f hf => ?_
    rw [Bool.eq_iff_iff, Bool.not_eq_true', Bool.not_eq_true', ← not_iff_not, Bool.not_eq_false,
      Bool.not_eq_false, List.contains_iff_mem, mem_goneIds gone hs hf]
  refine ⟨?_, hfiles⟩
  exact {
    projects := rfl
    files := by rw [hfiles]; exact others_filter _
    symbols := others_filter _
    imports := others_filter _
    relationships := by
      rw [← clearEdge_congr fun x hx => goesWith_eq_lost hs hx,
        ← others_map (g := s.clearEdge (s.goesWith gone)) fun _ => rfl]
      exact others_filter _
    references := by
      rw [← clearUse_congr fun x hx => goesWith_eq_lost hs hx,
        ← others_map (g := s.clearUse (s.goesWith gone)) fun _ => rfl]
      exact others_filter _ }

/-- Whether a file of a project is not to be kept. -/
def isStale (s : Store) (p : Int) (keep : List String) (i : Int) : Bool :=
  s.files.any fun f => f.id == i && f.projectId == p && !keep.contains f.relativePath

theorem contains_goneIds (s : Store) (gone : FileRow → Bool) (i : Int) :
    (s.files.any fun f => f.id == i && gone f) = (goneIds gone s).contains i := by
  rw [Bool.eq_iff_iff, List.any_eq_true, List.contains_iff_mem, goneIds, List.mem_map]
  simp only [List.mem_filter, Bool.and_eq_true, beq_iff_eq]
  refine exists_congr fun f => ?_
  rw [and_right_comm, and_assoc]

theorem framed_removeFile (hs : s.Keyed) (p : Int) (path : String) :
    Framed s (s.removeFile p path).2 (s.isFileAt p path) ∧
      (s.removeFile p path).2.files = others (·.id) (s.isFileAt p path) s.files :=
  framed_dropFiles hs fun i => by
    rw [← contains_goneIds, isFileAt]
    simp only [Bool.and_assoc]

theorem framed_prune (hs : s.Keyed) (p : Int) (keep : List String) :
    Framed s (s.prune p keep).2 (s.isStale p keep) ∧
      (s.prune p keep).2.files = others (·.id) (s.isStale p keep) s.files :=
  framed_dropFiles hs fun i => by
    rw [← contains_goneIds, isStale]
    simp only [Bool.and_assoc]

end DropFiles

/-! ## All of these -/

/-- **Writes of files are atomic, and touch no other file.** Whatever statements fail, and in
whichever order rows are deleted: a file is stored as `persist` says, and all rows that do not belong
to the file are as they were, apart from links of other files to symbols that are lost, which are
cleared; or the store is as it was, because `persist` or a statement fails. The same holds where files
are removed, with respect to the files that go. -/
theorem Reachable.writes_framed (h : s.Reachable) :
    (∀ faults shuffle now p f o x t, s.persistInSteps faults shuffle now p f o = (x, t) →
      (∀ e, x = .error e → t = s ∧ (s.persist now p f o = .error e ∨ ∃ k, faults k = some e)) ∧
      ∀ stats, x = .ok stats → s.persist now p f o = .ok (stats, t) ∧
        Framed s t (t.isFileAt p f.relativePath)) ∧
    (∀ p path, Framed s (s.removeFile p path).2 (s.isFileAt p path) ∧
      (s.removeFile p path).2.files = others (·.id) (s.isFileAt p path) s.files) ∧
    ∀ faults p keep x t, s.pruneInSteps faults p keep = (x, t) →
      (∀ e, x = .error e → t = s ∧ ∃ k, faults k = some e) ∧
      ∀ n, x = .ok n → s.prune p keep = (n, t) ∧ Framed s t (s.isStale p keep) ∧
        t.files = others (·.id) (s.isStale p keep) s.files := by
  have hs := h.sound
  refine ⟨?_, fun p path => framed_removeFile hs.keyed p path, ?_⟩
  · intro faults shuffle now p f o x t hrun
    rcases hs.persistInSteps_cases faults shuffle now p f o with ⟨e, hwhy, he⟩ | ⟨stats, t', ht, hok⟩
    · rw [he] at hrun
      cases hrun
      refine ⟨fun e' hx => ?_, fun _ hx => by cases hx⟩
      cases hx
      exact ⟨rfl, hwhy⟩
    · rw [hok] at hrun
      cases hrun
      refine ⟨fun _ hx => absurd hx (by simp), fun stats' hx => ?_⟩
      cases hx
      obtain ⟨i, hp, -, hts⟩ := persist_spec hs ht
      exact ⟨ht, hp.framed hs.keyed hts.keyed⟩
  · intro faults p keep x t hrun
    rcases s.pruneInSteps_cases faults p keep with ⟨e, k, hk, he⟩ | hok
    · rw [he] at hrun
      cases hrun
      refine ⟨fun e' hx => ?_, fun _ hx => by cases hx⟩
      cases hx
      exact ⟨rfl, k, hk⟩
    · rw [hok] at hrun
      cases hrun
      refine ⟨fun _ hx => absurd hx (by simp), fun n hx => ?_⟩
      cases hx
      exact ⟨rfl, framed_prune hs.keyed p keep⟩

/-- A function that another file calls makes way for a constant. -/
def replaceCallee (faults : Faults) : StoreM WriteStats × Store :=
  (run crossFile).persistInSteps faults ⟨id, fun _ => .refl _⟩ 0 1 { relativePath := "a.go" }
    { symbols := [{ name := "k", kind := .constant }] }

/-- The link of the call is cleared and no other row of its file changes; and if the statement after
the deletion of the function fails, nothing changes at all. -/
theorem writes_framed_crossFile :
    (∃ stats t, replaceCallee (fun _ => none) = (.ok stats, t) ∧ stats.symbolsRemoved = 1 ∧
      Framed (run crossFile) t (t.isFileAt 1 "a.go") ∧ t.references.map (·.targetId) = [none]) ∧
    ∃ e, replaceCallee (fun k => if k = 4 then some .refused else none) = (.error e, run crossFile) := by
  obtain ⟨hpersist, -, -⟩ := (reachable_run crossFile).writes_framed
  constructor
  · have hremoved : (replaceCallee fun _ => none).1.toOption.map (·.symbolsRemoved) = some 1 := by
      decide +kernel
    have hlinks : (replaceCallee fun _ => none).2.references.map (·.targetId) = [none] := by
      decide +kernel
    cases hrun : replaceCallee fun _ => none with
    | mk x t =>
      rw [hrun] at hremoved hlinks
      cases x with
      | error e => cases hremoved
      | ok stats =>
        have hframed := (hpersist _ _ _ _ _ _ _ _ hrun).2 stats rfl
        exact ⟨stats, t, rfl, Option.some.inj hremoved, hframed.2, hlinks⟩
  · have hfails : (replaceCallee fun k => if k = 4 then some .refused else none).1.toOption.isNone :=
      by decide +kernel
    cases hrun : replaceCallee fun k => if k = 4 then some .refused else none with
    | mk x t =>
      rw [hrun] at hfails
      cases x with
      | ok stats => cases hfails
      | error e => exact ⟨e, by rw [((hpersist _ _ _ _ _ _ _ _ hrun).1 e rfl).1]⟩

end CodeAtlas.Store
