import CodeAtlas.Proofs.Frame
import CodeAtlas.Proofs.Transaction

/-!
# Transactions do what writes do

* `Tx.does_resolve`: a name that was looked up before still has the same link.
* `Tx.does_numbered`: rows that are inserted one by one take the next ids.
* **`Tx.does_persist`**, **`Tx.does_prune`**: statement by statement, files are stored and removed.
* **`Sound.persistInSteps_cases`**, **`pruneInSteps_cases`**: a transaction does what the write does, or
  leaves the tables as they were. `Sound.persistInSteps_eq`: without faults it does what the write does.
-/

namespace CodeAtlas

variable {s t : Store}

namespace Tx

/-! ## Links -/

section Resolve

variable {p : Int} {locals : List (String × Int)} {cache : Cache} {r : Reconciled}

/-- What was looked up is what would be found now. -/
def Fresh (s : Store) (p : Int) (cache : Cache) : Prop :=
  ∀ n link, cache.lookup n = some link → link = s.uniqueId? p n

theorem fresh_nil (s : Store) (p : Int) : Fresh s p [] := fun _ _ h => by cases h

theorem Fresh.cons (h : Fresh s p cache) (n : String) : Fresh s p ((n, s.uniqueId? p n) :: cache) := by
  intro m link hm
  rw [List.lookup_cons] at hm
  cases hmn : m == n with
  | true =>
    rw [hmn] at hm
    rw [beq_iff_eq.mp hmn]
    exact (Option.some.inj hm).symm
  | false =>
    rw [hmn] at hm
    exact h m link hm

/-- **A name is resolved as if it were looked up anew.** -/
theorem does_resolve (hlocals : ∀ n, locals.lookup n = r.localId? n) (hc : Fresh s p cache)
    (n : String) : ∃ cache', Fresh s p cache' ∧
      Does (resolve p locals cache n) s (s.resolve p r n, cache') s := by
  unfold resolve Store.resolve
  rw [hlocals n]
  cases r.localId? n with
  | some i => exact ⟨cache, hc, .pure _ _⟩
  | none =>
    cases hl : cache.lookup n with
    | some link =>
      rw [← hc n link hl]
      exact ⟨cache, hc, .pure _ _⟩
    | none =>
      have hquery : Does (query fun s => pure (s.uniqueId? p n)) s (s.uniqueId? p n) s := .query rfl
      exact ⟨_, hc.cons n, hquery.bind (.pure _ _)⟩

end Resolve

theorem forM_eq_foldlM {α : Type} (f : α → Tx Unit) (l : List α) :
    l.forM f = l.foldlM (fun _ a => f a) () := by
  induction l with
  | nil => rfl
  | cons a l ih =>
    rw [List.foldlM_cons, List.forM, ih]

/-- **Rows that are inserted one by one take the next ids.** What is carried along keeps its property. -/
theorem does_numbered {α γ ρ : Type} {step : γ → α → Tx γ} {P : γ → Prop}
    (table : List ρ → Int → Store) (row : Int → α → ρ)
    (h : ∀ c a rows last, P c → ∃ c', P c' ∧
      Does (step c a) (table rows last) c' (table (rows ++ [row (last + 1) a]) (last + 1)))
    (l : List α) {c : γ} (hc : P c) (rows : List ρ) (last : Int) :
    ∃ c', P c' ∧ Does (l.foldlM step c) (table rows last) c'
      (table (rows ++ Store.numbered row last l) (last + l.length)) := by
  induction l generalizing c rows last with
  | nil =>
    refine ⟨c, hc, ?_⟩
    rw [Store.numbered, List.append_nil, List.length_nil, Int.natCast_zero, Int.add_zero]
    exact .pure _ _
  | cons a l ih =>
    obtain ⟨c', hc', hstep⟩ := h c a rows last hc
    obtain ⟨c'', hc'', hrest⟩ := ih hc' (rows ++ [row (last + 1) a]) (last + 1)
    have hlast : last + ((a :: l).length : Int) = last + 1 + l.length := by
      rw [List.length_cons]
      push_cast
      omega
    refine ⟨c'', hc'', ?_⟩
    rw [List.foldlM_cons, Store.numbered, List.append_cons, hlast]
    exact hstep.bind hrest

section Links

variable {p i : Int} {path : String} {locals : List (String × Int)} {r : Reconciled}

theorem does_insertImports (s : Store) (i : Int) (path : String) (cs : List ImportClause) :
    Does (cs.forM fun c => change (·.insertImport i path c)) s ()
      { s with
        imports := s.imports ++ Store.numbered (Store.importRow i path) s.last.imports cs
        last := { s.last with imports := s.last.imports + cs.length } } := by
  have hstep : ∀ (_ : Unit) c rows last, True → ∃ u : Unit, True ∧
      Does (change (·.insertImport i path c))
        { s with imports := rows, last := { s.last with imports := last } } u
        { s with
          imports := rows ++ [Store.importRow i path (last + 1) c]
          last := { s.last with imports := last + 1 } } :=
    fun _ c _ _ _ => ⟨(), trivial, Does.change (·.insertImport i path c) _⟩
  rw [forM_eq_foldlM]
  obtain ⟨_, -, h⟩ := does_numbered
    (fun rows last => { s with imports := rows, last := { s.last with imports := last } })
    (Store.importRow i path) hstep cs trivial s.imports s.last.imports
  exact h

theorem does_insertEdges (hlocals : ∀ n, locals.lookup n = r.localId? n) {cache : Cache}
    (hc : Fresh s p cache) (i : Int) (path : String) (es : List Edge) :
    ∃ cache', Fresh s p cache' ∧ Does (es.foldlM (insertEdge p i path locals) cache) s cache'
      { s with
        relationships := s.relationships ++
          Store.numbered (s.edgeRow p i path r) s.last.relationships es
        last := { s.last with relationships := s.last.relationships + es.length } } := by
  refine does_numbered
    (fun rows last => { s with relationships := rows, last := { s.last with relationships := last } })
    (s.edgeRow p i path r) (fun cache e rows last hc => ?_) es hc s.relationships s.last.relationships
  set u : Store :=
    { s with relationships := rows, last := { s.last with relationships := last } } with hu
  obtain ⟨cache₁, hc₁, hsource⟩ := does_resolve (s := u) hlocals hc e.source
  obtain ⟨cache₂, hc₂, htarget⟩ := does_resolve (s := u) hlocals hc₁ e.target
  exact ⟨cache₂, hc₂, hsource.bind (htarget.bind ((Does.change _ _).bind (.pure _ _)))⟩

theorem does_insertUses (hlocals : ∀ n, locals.lookup n = r.localId? n) {cache : Cache}
    (hc : Fresh s p cache) (i : Int) (path : String) (us : List Use) :
    ∃ cache', Fresh s p cache' ∧ Does (us.foldlM (insertUse p i path locals) cache) s cache'
      { s with
        references := s.references ++
          Store.numbered (s.useRow p i path r) s.last.references us
        last := { s.last with references := s.last.references + us.length } } := by
  have hsource : (fun n => locals.lookup n) = r.localId? := funext hlocals
  refine does_numbered
    (fun rows last => { s with references := rows, last := { s.last with references := last } })
    (s.useRow p i path r) (fun cache e rows last hc => ?_) us hc s.references s.last.references
  set u : Store :=
    { s with references := rows, last := { s.last with references := last } } with hu
  obtain ⟨cache₁, hc₁, htarget⟩ := does_resolve (s := u) hlocals hc e.target
  refine ⟨cache₁, hc₁, ?_⟩
  rw [insertUse, hsource]
  exact htarget.bind ((Does.change _ _).bind (.pure _ _))

/-- **Statement by statement, the imports and links of a file are replaced.** -/
theorem does_replaceLinks (hlocals : ∀ n, locals.lookup n = r.localId? n) (s : Store) (i : Int)
    (path : String) (o : Outline) :
    Does (replaceLinks p i path locals o) s () (s.replaceLinks p i path r o) := by
  set cleared := ((s.clearImports i).clearEdges i).clearUses i with hcleared
  set imported : Store :=
    { cleared with
      imports := cleared.imports ++
        Store.numbered (Store.importRow i path) cleared.last.imports o.imports
      last := { cleared.last with imports := cleared.last.imports + o.imports.length } }
    with himported
  obtain ⟨cache, hcache, hedges⟩ := does_insertEdges hlocals (fresh_nil imported p) i path o.edges
  obtain ⟨_, -, huses⟩ := does_insertUses hlocals (s := { imported with
      relationships := imported.relationships ++
        Store.numbered (imported.edgeRow p i path r) imported.last.relationships o.edges
      last := { imported.last with
        relationships := imported.last.relationships + o.edges.length } }) hcache i path o.uses
  rw [Store.replaceLinks_eq]
  exact (Does.change _ _).bind <| (Does.change _ _).bind <| (Does.change _ _).bind <|
    (does_insertImports cleared i path o.imports).bind <| hedges.bind <| huses.bind <| .pure () _

end Links

/-! ## Whole writes -/

section Persist

variable {now p : Int} {f : SourceFile} {o : Outline}

/-- **Statement by statement, a file is stored.** -/
theorem does_persist (h : s.Sound) (shuffle : Shuffle) {stats : WriteStats}
    (ht : s.persist now p f o = .ok (stats, t)) : Does (persist shuffle now p f o) s stats t := by
  rw [Store.persist_eq h] at ht
  cases hu : s.upsertFile now p f with
  | error e => rw [hu] at ht; cases ht
  | ok x =>
    obtain ⟨i, u⟩ := x
    rw [hu] at ht
    cases ht
    obtain ⟨m, hmatch, hlocals, hstats⟩ :=
      does_matchSymbols (h.upsertFile hu) shuffle i { filesWritten := 1 } o.symbols
    have hanswer : { m.stats with
        importsWritten := o.imports.length
        relationshipsWritten := o.edges.length
        referencesWritten := o.uses.length } = u.statsOf i o := by
      rw [hstats, Store.statsOf]
      simp only [Nat.zero_add]
    unfold persist
    rw [← hanswer]
    exact (Does.statement hu).bind (hmatch.bind ((does_replaceLinks hlocals _ i _ o).bind (.pure _ _)))

end Persist

end Tx

/-! ## Files that go one by one -/

namespace Store

theorem dropFiles_congr {gone gone' : FileRow → Bool} (h : ∀ f ∈ s.files, gone f = gone' f) :
    s.dropFiles gone = s.dropFiles gone' := by
  have hkeep : s.files.filter (fun f => !gone f) = s.files.filter fun f => !gone' f :=
    List.filter_congr fun f hf => by rw [h f hf]
  have hids : goneIds gone s = goneIds gone' s := by rw [goneIds, List.filter_congr h, goneIds]
  rw [dropFiles_eq, dropFiles_eq, hids, hkeep]

theorem map_filter {ρ : Type} {g : ρ → ρ} {keep : ρ → Bool} (h : ∀ r, keep (g r) = keep r)
    (rows : List ρ) : (rows.filter keep).map g = (rows.map g).filter keep := by
  rw [List.filter_map]
  exact congrArg (List.map g) (List.filter_congr fun r _ => (h r).symm)

section DropFiles

variable (s : Store) (gone gone' : FileRow → Bool)

/-- A file that goes, goes first or second. -/
theorem contains_goneIds_or (i : Int) : (goneIds (fun f => gone f || gone' f) s).contains i =
    ((goneIds gone s).contains i || (goneIds gone' (s.dropFiles gone)).contains i) := by
  rw [Bool.eq_iff_iff, Bool.or_eq_true, List.contains_iff_mem, List.contains_iff_mem,
    List.contains_iff_mem]
  simp only [goneIds, List.mem_map, List.mem_filter, mem_dropFiles, Bool.or_eq_true]
  constructor
  · rintro ⟨f, ⟨hf, hg⟩, hi⟩
    by_cases hgone : gone f = true
    · exact Or.inl ⟨f, ⟨hf, hgone⟩, hi⟩
    · exact Or.inr ⟨f, ⟨⟨hf, by simpa using hgone⟩, hg.resolve_left hgone⟩, hi⟩
  · rintro (⟨f, ⟨hf, hg⟩, hi⟩ | ⟨f, ⟨⟨hf, -⟩, hg⟩, hi⟩)
    · exact ⟨f, ⟨hf, Or.inl hg⟩, hi⟩
    · exact ⟨f, ⟨hf, Or.inr hg⟩, hi⟩

/-- The rows that stay are those that stay twice. -/
theorem filter_goneIds_or {ρ : Type} (file : ρ → Int) (rows : List ρ) :
    (rows.filter fun r => !(goneIds gone s).contains (file r)).filter
        (fun r => !(goneIds gone' (s.dropFiles gone)).contains (file r)) =
      rows.filter fun r => !(goneIds (fun f => gone f || gone' f) s).contains (file r) := by
  rw [List.filter_filter]
  exact List.filter_congr fun r _ => by rw [contains_goneIds_or, Bool.not_or, Bool.and_comm]

/-- Symbols go with their files, first or second. -/
theorem dropSymbols_goesWith_or :
    (s.dropSymbols (s.goesWith gone)).dropSymbols ((s.dropFiles gone).goesWith gone') =
      s.dropSymbols (s.goesWith fun f => gone f || gone' f) := by
  rw [dropSymbols_dropSymbols]
  exact dropSymbols_congr fun x _ => (contains_goneIds_or s gone gone' x.fileId).symm

/-- Files that go one after the other go at once. -/
theorem dropFiles_dropFiles :
    (s.dropFiles gone).dropFiles gone' = s.dropFiles fun f => gone f || gone' f := by
  have hfiles : (s.files.filter fun f => !gone f).filter (fun f => !gone' f) =
      s.files.filter fun f => !(gone f || gone' f) := by
    rw [List.filter_filter]
    exact List.filter_congr fun f _ => by rw [Bool.not_or, Bool.and_comm]
  have hdrop := dropSymbols_goesWith_or s gone gone'
  -- links are cleared alike before and after the rows of the files are gone
  have hedges : ((s.dropFiles gone).dropSymbols ((s.dropFiles gone).goesWith gone')).relationships =
      (s.dropSymbols (s.goesWith fun f => gone f || gone' f)).relationships.filter
        fun r => !(goneIds gone s).contains r.fileId := by
    rw [← hdrop]
    exact @map_filter _ ((s.dropSymbols (s.goesWith gone)).clearEdge ((s.dropFiles gone).goesWith gone'))
      (fun r => !(goneIds gone s).contains r.fileId) (fun _ => rfl)
      (s.dropSymbols (s.goesWith gone)).relationships
  have huses : ((s.dropFiles gone).dropSymbols ((s.dropFiles gone).goesWith gone')).references =
      (s.dropSymbols (s.goesWith fun f => gone f || gone' f)).references.filter
        fun r => !(goneIds gone s).contains r.fileId := by
    rw [← hdrop]
    exact @map_filter _ ((s.dropSymbols (s.goesWith gone)).clearUse ((s.dropFiles gone).goesWith gone'))
      (fun r => !(goneIds gone s).contains r.fileId) (fun _ => rfl)
      (s.dropSymbols (s.goesWith gone)).references
  have hsymbols : ((s.dropFiles gone).dropSymbols ((s.dropFiles gone).goesWith gone')).symbols =
      (s.dropSymbols (s.goesWith fun f => gone f || gone' f)).symbols := by
    rw [← hdrop]
    rfl
  calc (s.dropFiles gone).dropFiles gone'
      = { s with
          files := (s.files.filter fun f => !gone f).filter fun f => !gone' f
          symbols :=
            ((s.dropFiles gone).dropSymbols ((s.dropFiles gone).goesWith gone')).symbols
          imports := (s.imports.filter fun r => !(goneIds gone s).contains r.fileId).filter
            fun r => !(goneIds gone' (s.dropFiles gone)).contains r.fileId
          relationships :=
            ((s.dropFiles gone).dropSymbols
              ((s.dropFiles gone).goesWith gone')).relationships.filter
                fun r => !(goneIds gone' (s.dropFiles gone)).contains r.fileId
          references :=
            ((s.dropFiles gone).dropSymbols
              ((s.dropFiles gone).goesWith gone')).references.filter
                fun r => !(goneIds gone' (s.dropFiles gone)).contains r.fileId } := rfl
    _ = s.dropFiles fun f => gone f || gone' f := by
      rw [hfiles, hsymbols, hedges, huses, filter_goneIds_or, filter_goneIds_or, filter_goneIds_or]
      rfl

end DropFiles

end Store

namespace Tx

/-- Files that are removed one by one are removed at once. -/
theorem does_removeAll (s : Store) (p : Int) (paths : List String) :
    Does (paths.forM fun path => change fun s => (s.removeFile p path).2) s ()
      (s.dropFiles fun f => f.projectId == p && paths.contains f.relativePath) := by
  induction paths generalizing s with
  | nil =>
    have hnone : s.dropFiles (fun f => f.projectId == p && [].contains f.relativePath) = s :=
      Store.dropFiles_eq_self fun f _ => Bool.and_false _
    rw [hnone]
    exact .pure _ _
  | cons path paths ih =>
    have hdrop : s.dropFiles (fun f => f.projectId == p && (path :: paths).contains f.relativePath) =
        (s.removeFile p path).2.dropFiles
          fun f => f.projectId == p && paths.contains f.relativePath := by
      rw [Store.removeFile, Store.dropFiles_dropFiles]
      exact Store.dropFiles_congr fun f _ => by
        rw [List.contains_cons, Bool.and_or_distrib_left]
    rw [hdrop]
    exact (Does.change _ _).bind (ih _)

/-- **Statement by statement, files are removed.** -/
theorem does_prune (s : Store) (p : Int) (keep : List String) :
    Does (prune p keep) s (s.prune p keep).1 (s.prune p keep).2 := by
  set paths := (s.files.filter (·.projectId == p)).map (·.relativePath) with hpaths
  set stale := paths.filter fun path => !keep.contains path with hstale
  have hquery : Does (query fun s =>
      pure ((s.files.filter (·.projectId == p)).map (·.relativePath))) s paths s := .query rfl
  have hcount : stale.length = (s.prune p keep).1 := by
    rw [hstale, hpaths, List.filter_map, List.length_map, List.filter_filter, Store.prune]
    exact congrArg List.length (List.filter_congr fun f _ => Bool.and_comm _ _)
  have hdrop : s.dropFiles (fun f => f.projectId == p && stale.contains f.relativePath) =
      (s.prune p keep).2 := by
    refine Store.dropFiles_congr fun f hf => ?_
    cases hp : f.projectId == p with
    | false => rfl
    | true =>
      have hmem : f.relativePath ∈ paths :=
        List.mem_map_of_mem (List.mem_filter.mpr ⟨hf, hp⟩)
      rw [Bool.true_and, Bool.true_and, Bool.eq_iff_iff, List.contains_iff_mem, hstale,
        List.mem_filter, and_iff_right hmem]
  rw [← hcount, ← hdrop]
  exact hquery.bind ((does_removeAll s p stale).bind (.pure _ _))

end Tx

/-! ## Transactions -/

namespace Store

/-- A transaction whose first statement is refused leaves the tables as they were. -/
theorem transaction_refused {α β : Type} {run : Store → StoreM (α × Store)} {e : StoreError}
    (h : run s = .error e) (rest : α → Tx β) (faults : Faults) :
    ∃ e', (e' = e ∨ faults 0 = some e') ∧
      s.transaction faults (Tx.statement run >>= rest) = (.error e', s) := by
  have hrun : ∀ e' p, Tx.statement run faults ⟨0, s⟩ = (.error e', p) →
      s.transaction faults (Tx.statement run >>= rest) = (.error e', s) := by
    intro e' p hp
    rw [transaction, Tx.bind_of_error hp]
  cases hk : faults 0 with
  | some e' => exact ⟨e', Or.inr rfl, hrun e' ⟨1, s⟩ (by simp only [Tx.statement, hk, Nat.zero_add])⟩
  | none => exact ⟨e, Or.inl rfl, hrun e ⟨1, s⟩ (by simp only [Tx.statement, hk, h, Nat.zero_add])⟩

/-- **A transaction stores a file, or leaves the tables as they were.** It fails where the write
fails, and where a statement does. -/
theorem Sound.persistInSteps_cases (h : s.Sound) (faults : Faults) (shuffle : Tx.Shuffle)
    (now p : Int) (f : SourceFile) (o : Outline) :
    (∃ e, (s.persist now p f o = .error e ∨ ∃ k, faults k = some e) ∧
      s.persistInSteps faults shuffle now p f o = (.error e, s)) ∨
    ∃ stats t, s.persist now p f o = .ok (stats, t) ∧
      s.persistInSteps faults shuffle now p f o = (.ok stats, t) := by
  cases ht : s.persist now p f o with
  | ok x =>
    obtain ⟨stats, t⟩ := x
    rcases (Tx.does_persist h shuffle ht).transaction faults with ⟨e, k, hk, he⟩ | hok
    · exact Or.inl ⟨e, Or.inr ⟨k, hk⟩, he⟩
    · exact Or.inr ⟨stats, t, rfl, hok⟩
  | error e =>
    have hu : s.upsertFile now p f = .error e := by
      rw [persist_eq h] at ht
      cases hu : s.upsertFile now p f with
      | ok x => rw [hu] at ht; cases ht
      | error e' => rw [hu] at ht; cases ht; rfl
    obtain ⟨e', he', hrun⟩ := @transaction_refused s _ _ (·.upsertFile now p f) e hu _ faults
    refine Or.inl ⟨e', ?_, hrun⟩
    rcases he' with rfl | hk
    · exact Or.inl rfl
    · exact Or.inr ⟨0, hk⟩

/-- Without faults, a transaction does what the write does. -/
theorem Sound.persistInSteps_eq (h : s.Sound) {faults : Faults} (hfaults : ∀ k, faults k = none)
    (shuffle : Tx.Shuffle) (now p : Int) (f : SourceFile) (o : Outline) :
    s.persistInSteps faults shuffle now p f o =
      ((s.persist now p f o).map (·.1), CodeAtlas.afterWrite s (s.persist now p f o)) := by
  rcases h.persistInSteps_cases faults shuffle now p f o with ⟨e, he | ⟨k, hk⟩, hrun⟩ |
    ⟨stats, t, ht, hrun⟩
  · rw [hrun, he]
    rfl
  · rw [hfaults k] at hk
    cases hk
  · rw [hrun, ht]
    rfl

/-- **A transaction removes files, or leaves the tables as they were.** -/
theorem pruneInSteps_cases (s : Store) (faults : Faults) (p : Int) (keep : List String) :
    (∃ e k, faults k = some e ∧ s.pruneInSteps faults p keep = (.error e, s)) ∨
      s.pruneInSteps faults p keep = (.ok (s.prune p keep).1, (s.prune p keep).2) :=
  (Tx.does_prune s p keep).transaction faults

end Store

end CodeAtlas
