import CodeAtlas.Proofs.Persist

/-!
# What each file was last stored with

* `Filing`: an outline with the ids of the rows of its declarations; `Filing.first?`: the row of the
  first declaration of a name.
* `Store.Holds`: the rows of a file are those of a filing, and its links to names it declares lead to
  their first declarations.
* `Archive`: a store with the filings of its files. `Archive.apply` makes one write.
* **`Archive.Faithful.apply`**: a write keeps the rows of every file to its filing;
  `Reachable.exists_holds`: so they are after any writes.
-/

namespace CodeAtlas

/-- What a file was stored with: its outline, and the ids of the rows of its declarations. -/
structure Filing where
  outline : Outline
  ids : List Int

namespace Filing

/-- The row of the first declaration of a name. -/
def first? (x : Filing) (n : String) : Option Int :=
  ((x.outline.symbols.zip x.ids).find? (·.1.name == n)).map (·.2)

theorem first?_mem {x : Filing} {n : String} {i : Int} (h : x.first? n = some i) : i ∈ x.ids := by
  obtain ⟨y, hy, rfl⟩ := Option.map_eq_some_iff.mp h
  exact (List.of_mem_zip (List.mem_of_find?_eq_some hy)).2

end Filing

theorem forall₂_imp_right {α β : Type} {R S : α → β → Prop} {l : List α} {l' : List β}
    (h : List.Forall₂ R l l') (hs : ∀ a, ∀ b ∈ l', R a b → S a b) : List.Forall₂ S l l' := by
  induction h with
  | nil => exact .nil
  | cons hab _ ih =>
    exact .cons (hs _ _ List.mem_cons_self hab) (ih fun a b hb => hs a b (List.mem_cons_of_mem _ hb))

namespace Store

variable {s t : Store} {f : FileRow} {x : Filing}

/-- A row shows an edge of a file. Where the file declares a name, the link leads there. -/
structure ShowsEdge (path : String) (x : Filing) (e : Edge) (r : RelationshipRow) : Prop where
  edge : r.toEdge = e
  path : r.filePath = path
  source : ∀ i, x.first? e.source = some i → r.sourceId = some i
  target : ∀ i, x.first? e.target = some i → r.targetId = some i

/-- A row shows a use in a file. Where the file declares a name, the link leads there. -/
structure ShowsUse (path : String) (x : Filing) (u : Use) (r : ReferenceRow) : Prop where
  use : (⟨r.kind, u.source, r.target, r.qualifier, r.line, r.column⟩ : Use) = u
  path : r.filePath = path
  source : r.sourceId = u.source.bind x.first?
  target : ∀ i, x.first? u.target = some i → r.targetId = some i

/-- **The rows of a file are those of a filing.** -/
structure Holds (s : Store) (f : FileRow) (x : Filing) : Prop where
  rows : List.Forall₂ (fun d i => ∃ r ∈ s.symbols, r.id = i ∧ r.fileId = f.id ∧
    r.toDeclaration.shape = d.shape) x.outline.symbols x.ids
  all : ∀ r ∈ s.symbols, r.fileId = f.id → r.id ∈ x.ids
  nodup : x.ids.Nodup
  imports : List.Forall₂ (fun c r => r.toImportClause = c ∧ r.filePath = f.relativePath)
    x.outline.imports (s.importsIn f.id)
  edges : List.Forall₂ (ShowsEdge f.relativePath x) x.outline.edges (s.relationshipsIn f.id)
  uses : List.Forall₂ (ShowsUse f.relativePath x) x.outline.uses (s.referencesIn f.id)

/-- The row of a declaration of a file is one of its rows. -/
theorem Holds.row_of_mem (h : s.Holds f x) {i : Int} (hi : i ∈ x.ids) :
    ∃ r ∈ s.symbols, r.id = i ∧ r.fileId = f.id := by
  obtain ⟨k, hk, rfl⟩ := List.mem_iff_getElem.mp hi
  have hlen := h.rows.length_eq
  obtain ⟨r, hr, hri, hrf, -⟩ := (List.forall₂_iff_get.mp h.rows).2 k (by omega) hk
  exact ⟨r, hr, hri, hrf⟩

/-- The rows of a file in the order of its declarations. -/
theorem Holds.exists_rows (h : s.Holds f x) : ∃ rows : List SymbolRow,
    rows.map (·.id) = x.ids ∧ (∀ r ∈ rows, r ∈ s.symbolsIn f.id) ∧
      List.Forall₂ (fun d (r : SymbolRow) => r.toDeclaration.shape = d.shape)
        x.outline.symbols rows := by
  have hrows := h.rows
  generalize x.outline.symbols = ds at hrows ⊢
  generalize x.ids = is at hrows ⊢
  induction hrows with
  | nil => exact ⟨[], rfl, by simp, .nil⟩
  | cons hdi _ ih =>
    obtain ⟨r, hr, hri, hrf, hsh⟩ := hdi
    obtain ⟨rows, hids, hmem, hshapes⟩ := ih
    refine ⟨r :: rows, by rw [List.map_cons, hri, hids], fun y hy => ?_, .cons hsh hshapes⟩
    rcases List.mem_cons.mp hy with rfl | hy
    · exact mem_symbolsIn.mpr ⟨hr, hrf⟩
    · exact hmem y hy

/-- These are all rows of the file. -/
theorem Holds.rows_perm (h : s.Holds f x) (hs : s.Keyed) {rows : List SymbolRow}
    (hids : rows.map (·.id) = x.ids) (hmem : ∀ r ∈ rows, r ∈ s.symbolsIn f.id) :
    rows.Perm (s.symbolsIn f.id) := by
  have hnd : (rows.map (·.id)).Nodup := by rw [hids]; exact h.nodup
  have hnd' : (s.symbolsIn f.id).Nodup :=
    (hs.symbols.nodup.of_map).sublist List.filter_sublist
  refine (List.perm_ext_iff_of_nodup hnd.of_map hnd').mpr fun r => ⟨hmem r, fun hr => ?_⟩
  obtain ⟨hr, hrf⟩ := mem_symbolsIn.mp hr
  have hi := h.all r hr hrf
  rw [← hids] at hi
  obtain ⟨r', hr', he⟩ := List.mem_map.mp hi
  rw [← hs.symbol_eq (mem_symbolsIn.mp (hmem r' hr')).1 hr he]
  exact hr'

theorem zip_find_of_forall₂ {R : Declaration → Int → Prop} {P : Int → Prop} {n : String}
    (hR : ∀ d i, R d i → d.name = n → P i) {ds : List Declaration} {is : List Int}
    (h : List.Forall₂ R ds is) {i : Int}
    (hi : ((ds.zip is).find? (·.1.name == n)).map (·.2) = some i) : P i := by
  induction h with
  | nil => cases hi
  | @cons d j ds is hdj _ ih =>
    rw [List.zip_cons_cons, List.find?_cons] at hi
    split at hi
    · next hn =>
      cases hi
      exact hR d j hdj (by simpa using hn)
    · exact ih hi

theorem exists_zip_find {R : Declaration → Int → Prop} {n : String} {ds : List Declaration}
    {is : List Int} (h : List.Forall₂ R ds is) (hn : ∃ d ∈ ds, d.name = n) :
    ∃ i, ((ds.zip is).find? (·.1.name == n)).map (·.2) = some i := by
  induction h with
  | nil => obtain ⟨d, hd, -⟩ := hn; cases hd
  | @cons d j ds is _ _ ih =>
    rw [List.zip_cons_cons, List.find?_cons]
    split
    · exact ⟨j, rfl⟩
    · next hne =>
      obtain ⟨d', hd', hd'n⟩ := hn
      rcases List.mem_cons.mp hd' with rfl | hd'
      · exact absurd hd'n (by simpa using hne)
      · exact ih ⟨d', hd', hd'n⟩

/-- The first declaration of a name has that name. -/
theorem Holds.first?_row (h : s.Holds f x) {n : String} {i : Int} (hi : x.first? n = some i) :
    ∃ r ∈ s.symbols, r.id = i ∧ r.fileId = f.id ∧ r.name = n :=
  zip_find_of_forall₂ (P := fun i => ∃ r ∈ s.symbols, r.id = i ∧ r.fileId = f.id ∧ r.name = n)
    (fun _ _ ⟨r, hr, hri, hrf, hsh⟩ hn =>
      ⟨r, hr, hri, hrf, (Declaration.name_eq_of_shape hsh).trans hn⟩) h.rows hi

/-- A row of the file has the name of one of its declarations. -/
theorem Holds.exists_first? (h : s.Holds f x) (hs : s.Keyed) {r : SymbolRow} (hr : r ∈ s.symbols)
    (hf : r.fileId = f.id) : ∃ i, x.first? r.name = some i := by
  refine exists_zip_find h.rows ?_
  obtain ⟨k, hk, hki⟩ := List.mem_iff_getElem.mp (h.all r hr hf)
  have hlen := h.rows.length_eq
  obtain ⟨r', hr', hri', -, hsh⟩ := (List.forall₂_iff_get.mp h.rows).2 k (by omega) hk
  have he : r' = r := hs.symbol_eq hr' hr (hri'.trans hki)
  subst he
  exact ⟨_, List.getElem_mem _, (Declaration.name_eq_of_shape hsh).symm⟩

/-! ## Files that are left alone -/

/-- Rows with the same ids and shapes in one file. -/
def SameSymbols (s t : Store) (i : Int) : Prop :=
  (∀ r ∈ s.symbols, r.fileId = i → ∃ r' ∈ t.symbols, r'.id = r.id ∧ r'.fileId = i ∧
    r'.toDeclaration.shape = r.toDeclaration.shape) ∧
  ∀ r ∈ t.symbols, r.fileId = i → ∃ r' ∈ s.symbols, r'.id = r.id ∧ r'.fileId = i

/-- A change of an edge that keeps its links to some ids. -/
structure KeepsEdge (ids : List Int) (r r' : RelationshipRow) : Prop where
  edge : r'.toEdge = r.toEdge
  path : r'.filePath = r.filePath
  source : ∀ i ∈ ids, r.sourceId = some i → r'.sourceId = some i
  target : ∀ i ∈ ids, r.targetId = some i → r'.targetId = some i

/-- A change of a use that keeps its links to some ids. -/
structure KeepsUse (ids : List Int) (r r' : ReferenceRow) : Prop where
  use : ∀ n, (⟨r'.kind, n, r'.target, r'.qualifier, r'.line, r'.column⟩ : Use) =
    ⟨r.kind, n, r.target, r.qualifier, r.line, r.column⟩
  path : r'.filePath = r.filePath
  source : (∀ i, r.sourceId = some i → i ∈ ids) → r'.sourceId = r.sourceId
  target : ∀ i ∈ ids, r.targetId = some i → r'.targetId = some i

/-- **A file keeps its filing** as long as its symbols stay and its links to them do. -/
theorem Holds.frame (h : s.Holds f x) (hsym : SameSymbols s t f.id)
    (himp : t.importsIn f.id = s.importsIn f.id) {g : RelationshipRow → RelationshipRow}
    (hedge : t.relationshipsIn f.id = (s.relationshipsIn f.id).map g)
    (hg : ∀ r ∈ s.relationshipsIn f.id, KeepsEdge x.ids r (g r)) {k : ReferenceRow → ReferenceRow}
    (huse : t.referencesIn f.id = (s.referencesIn f.id).map k)
    (hk : ∀ r ∈ s.referencesIn f.id, KeepsUse x.ids r (k r)) : t.Holds f x where
  rows := h.rows.imp fun d i ⟨r, hr, hri, hrf, hsh⟩ => by
    obtain ⟨r', hr', hri', hrf', hsh'⟩ := hsym.1 r hr hrf
    exact ⟨r', hr', hri'.trans hri, hrf', hsh'.trans hsh⟩
  all := fun r hr hrf => by
    obtain ⟨r', hr', hri', hrf'⟩ := hsym.2 r hr hrf
    rw [← hri']
    exact h.all r' hr' hrf'
  nodup := h.nodup
  imports := by rw [himp]; exact h.imports
  edges := by
    rw [hedge, List.forall₂_map_right_iff]
    refine forall₂_imp_right h.edges fun e r hr hse => ?_
    have hk := hg r hr
    exact ⟨hk.edge.trans hse.edge, hk.path.trans hse.path,
      fun i hi => hk.source i (Filing.first?_mem hi) (hse.source i hi),
      fun i hi => hk.target i (Filing.first?_mem hi) (hse.target i hi)⟩
  uses := by
    rw [huse, List.forall₂_map_right_iff]
    refine forall₂_imp_right h.uses fun u r hr hsu => ?_
    have hk := hk r hr
    refine ⟨(hk.use u.source).trans hsu.use, hk.path.trans hsu.path, ?_,
      fun i hi => hk.target i (Filing.first?_mem hi) (hsu.target i hi)⟩
    rw [hk.source, hsu.source]
    intro i hi
    rw [hsu.source] at hi
    obtain ⟨n, -, hn⟩ := Option.bind_eq_some_iff.mp hi
    exact Filing.first?_mem hn

/-- Links into a file stay when only symbols of other files go. -/
theorem cleared_of_mem (h : s.Holds f x) (hs : s.Keyed) {gone : SymbolRow → Bool}
    (hgone : ∀ r ∈ s.symbols, gone r = true → r.fileId ≠ f.id) {i : Int} (hi : i ∈ x.ids) :
    s.cleared gone (some i) = some i := by
  refine (cleared_eq_some gone).mpr ⟨rfl, fun hmem => ?_⟩
  obtain ⟨r, hr, hrf⟩ := h.row_of_mem hi
  obtain ⟨r', hr', hri'⟩ := List.mem_map.mp hmem
  obtain ⟨hr', hg⟩ := List.mem_filter.mp hr'
  refine hgone r' hr' hg ?_
  rw [hs.symbol_eq hr' hr (hri'.trans hrf.1.symm)]
  exact hrf.2

theorem keepsEdge_clear (h : s.Holds f x) (hs : s.Keyed) {gone : SymbolRow → Bool}
    (hgone : ∀ r ∈ s.symbols, gone r = true → r.fileId ≠ f.id) (r : RelationshipRow) :
    KeepsEdge x.ids r (s.clearEdge gone r) where
  edge := rfl
  path := rfl
  source := fun i hi he => by
    change s.cleared gone r.sourceId = some i
    rw [he]
    exact cleared_of_mem h hs hgone hi
  target := fun i hi he => by
    change s.cleared gone r.targetId = some i
    rw [he]
    exact cleared_of_mem h hs hgone hi

theorem keepsUse_clear (h : s.Holds f x) (hs : s.Keyed) {gone : SymbolRow → Bool}
    (hgone : ∀ r ∈ s.symbols, gone r = true → r.fileId ≠ f.id) (r : ReferenceRow) :
    KeepsUse x.ids r (s.clearUse gone r) where
  use := fun _ => rfl
  path := rfl
  source := fun hids => by
    change s.cleared gone r.sourceId = r.sourceId
    cases he : r.sourceId with
    | none => rfl
    | some i => exact cleared_of_mem h hs hgone (hids i he)
  target := fun i hi he => by
    change s.cleared gone r.targetId = some i
    rw [he]
    exact cleared_of_mem h hs hgone hi

theorem KeepsEdge.refl (ids : List Int) (r : RelationshipRow) : KeepsEdge ids r r :=
  ⟨rfl, rfl, fun _ _ h => h, fun _ _ h => h⟩

theorem KeepsUse.refl (ids : List Int) (r : ReferenceRow) : KeepsUse ids r r :=
  ⟨fun _ => rfl, rfl, fun _ => rfl, fun _ _ h => h⟩

/-- Files are kept to their filings when neither symbols nor edges change. -/
theorem Holds.congr (h : s.Holds f x) (hsym : SameSymbols s t f.id)
    (himp : t.imports = s.imports) (hedge : t.relationships = s.relationships)
    (huse : t.references = s.references) : t.Holds f x := by
  refine h.frame hsym (by unfold importsIn; rw [himp]) (g := id) ?_ (fun r _ => .refl _ r) (k := id)
    ?_ fun r _ => .refl _ r
  · rw [List.map_id, relationshipsIn, hedge, relationshipsIn]
  · rw [List.map_id, referencesIn, huse, referencesIn]

theorem SameSymbols.of_eq (h : t.symbols = s.symbols) (i : Int) : SameSymbols s t i :=
  ⟨fun r hr hf => ⟨r, by rw [h]; exact hr, rfl, hf, rfl⟩,
    fun r hr hf => ⟨r, by rw [← h]; exact hr, rfl, hf⟩⟩

/-- The link of a file to a name it declares stays in line. -/
theorem relink_of_mem (h : s.Holds f x) (hs : s.Keyed) {p i : Int} (hi : i ∈ x.ids) (n : String) :
    s.relink p f.id n (some i) = some i := by
  obtain ⟨r, hr, rfl, hrf⟩ := h.row_of_mem hi
  have hfile : s.fileOfSymbol? r.id = some f.id := by
    rw [fileOfSymbol?, find?_key hs.symbols.nodup hr, Option.map_some, hrf]
  simp [relink, Option.filter, hfile]

theorem Holds.resolveLinks (h : s.Holds f x) (hs : s.Keyed) (p : Int) :
    (s.resolveLinks p).2.Holds f x := by
  refine h.frame (SameSymbols.of_eq rfl _) rfl (g := s.relinkEdge p) ?_ ?_ (k := s.relinkUse p) ?_ ?_
  · exact @filter_fileId_map _ RelationshipRow.fileId (s.relinkEdge p)
      (fun r => by unfold relinkEdge; split <;> rfl) _ _
  · intro r hr
    obtain ⟨-, hrf⟩ := mem_relationshipsIn.mp hr
    unfold relinkEdge
    split
    · refine ⟨rfl, rfl, fun i hi he => ?_, fun i hi he => ?_⟩
      · rw [hrf, he]; exact relink_of_mem h hs hi _
      · rw [hrf, he]; exact relink_of_mem h hs hi _
    · exact .refl _ r
  · exact @filter_fileId_map _ ReferenceRow.fileId (s.relinkUse p)
      (fun r => by unfold relinkUse; split <;> rfl) _ _
  · intro r hr
    obtain ⟨-, hrf⟩ := mem_referencesIn.mp hr
    unfold relinkUse
    split
    · refine ⟨fun _ => rfl, rfl, fun _ => rfl, fun i hi he => ?_⟩
      rw [hrf, he]; exact relink_of_mem h hs hi _
    · exact .refl _ r

theorem Holds.setWorkflow (h : s.Holds f x) (id : Int) (w : Workflow) :
    (s.setWorkflow id w).2.Holds f x := by
  refine h.congr ⟨fun r hr hf => ?_, fun r hr hf => ?_⟩ rfl rfl rfl
  · obtain ⟨h1, h2, h3⟩ := worked_stays id w r
    exact ⟨worked id w r, List.mem_map_of_mem hr, h1, h2.trans hf, h3⟩
  · obtain ⟨r', hr', rfl⟩ := List.mem_map.mp hr
    obtain ⟨h1, h2, -⟩ := worked_stays id w r'
    exact ⟨r', hr', h1.symm, h2.symm.trans hf⟩

theorem Holds.dropFiles (h : s.Holds f x) (hs : s.Keyed) (hf : f ∈ s.files) {gone : FileRow → Bool}
    (hg : gone f = false) : (s.dropFiles gone).Holds f x := by
  have hi : f.id ∉ goneIds gone s := by rw [mem_goneIds gone hs hf, hg]; simp
  have hgone : ∀ r ∈ s.symbols, s.goesWith gone r = true → r.fileId ≠ f.id := by
    intro r _ hr he
    refine hi ?_
    rw [← he]
    simpa [goesWith] using hr
  refine h.frame ⟨fun r hr hrf => ?_, fun r hr hrf => ?_⟩ (importsIn_dropFiles hi)
    (relationshipsIn_dropFiles hi) (fun r _ => keepsEdge_clear h hs hgone r)
    (referencesIn_dropFiles hi) fun r _ => keepsUse_clear h hs hgone r
  · exact ⟨r, mem_symbols_dropFiles.mpr ⟨hr, by rw [hrf]; exact hi⟩, rfl, hrf, rfl⟩
  · exact ⟨r, (mem_symbols_dropFiles.mp hr).1, rfl, hrf⟩

/-! ## The file that is stored -/

/-- The filing of a file that is stored. -/
def filingOf (s : Store) (now p : Int) (f : SourceFile) (o : Outline) : Filing where
  outline := o
  ids := match s.upsertFile now p f with
    | .ok (i, t) => ((t.reconciled i o.symbols).rows.map (·.2)).map (·.id)
    | .error _ => []

/-- The first row of a name is the row of the first declaration of that name. -/
theorem first?_eq_localId? {r : Reconciled} {ds : List Declaration}
    (h : List.Forall₂ (fun d (x : Fate × SymbolRow) => x.2.toDeclaration.shape = d.shape) ds r.rows)
    (n : String) :
    ((ds.zip ((r.rows.map (·.2)).map (·.id))).find? (·.1.name == n)).map (·.2) = r.localId? n := by
  unfold Reconciled.localId?
  generalize r.rows = rows at h ⊢
  induction h with
  | nil => rfl
  | @cons d x ds xs hdx _ ih =>
    have hn : x.2.name = d.name := Declaration.name_eq_of_shape hdx
    simp only [List.map_cons, List.zip_cons_cons, List.find?_cons, hn]
    split
    · rfl
    · exact ih

theorem Persisted.holds {now p i : Int} {f : SourceFile} {o : Outline} (hs : s.Keyed)
    (h : s.Persisted now p f o i t) :
    t.Holds (fileRow now p i f) ⟨o, ((s.reconciled i o.symbols).rows.map (·.2)).map (·.id)⟩ := by
  set r := s.reconciled i o.symbols with hr
  have hshape := @reconcile_shape i s.last.symbols (s.rowsOfFile i) o.symbols
  have hfirst : ∀ n, Filing.first? ⟨o, (r.rows.map (·.2)).map (·.id)⟩ n = r.localId? n :=
    first?_eq_localId? hshape
  have hresolve : ∀ n j, Filing.first? ⟨o, (r.rows.map (·.2)).map (·.id)⟩ n = some j →
      t.resolve p r n = some j := by
    intro n j hj
    rw [hfirst] at hj
    rw [resolve, hj]
  exact {
    rows := by
      rw [List.map_map, List.forall₂_map_right_iff]
      refine forall₂_imp_right hshape fun d y hy hsh => ?_
      have hmem : y.2 ∈ r.rows.map (·.2) := List.mem_map_of_mem hy
      exact ⟨y.2, (h.symbols _).mpr (Or.inr hmem), rfl, reconciled_fileId i o.symbols hmem, hsh⟩
    all := fun y hy hyf => by
      rcases (h.symbols y).mp hy with ⟨-, hne⟩ | hmem
      · exact absurd hyf hne
      · exact List.mem_map_of_mem hmem
    nodup := reconciled_nodup i o.symbols hs
    imports := by
      rw [show (fileRow now p i f).id = i from rfl, h.imports]
      exact forall₂_numbered (fun _ _ => ⟨rfl, rfl⟩) _ _
    edges := by
      rw [show (fileRow now p i f).id = i from rfl, h.relationships]
      exact forall₂_numbered (fun _ e => ⟨rfl, rfl, hresolve e.source, hresolve e.target⟩) _ _
    uses := by
      rw [show (fileRow now p i f).id = i from rfl, h.references]
      refine forall₂_numbered (fun _ u => ⟨rfl, rfl, ?_, hresolve u.target⟩) _ _
      change u.source.bind r.localId? = u.source.bind (Filing.first? _)
      rw [funext hfirst] }

theorem Persisted.holds_other {now p i : Int} {f : SourceFile} {o : Outline} (hs : s.Keyed)
    (h : s.Persisted now p f o i t) {g : FileRow} (hg : s.Holds g x) (hne : g.id ≠ i) :
    t.Holds g x := by
  have hgone : ∀ r ∈ s.symbols, s.leaves i o.symbols r = true → r.fileId ≠ g.id := by
    intro r _ hr he
    simp only [leaves, Bool.and_eq_true, beq_iff_eq] at hr
    exact hne (he.symm.trans hr.1)
  refine hg.frame ⟨fun r hr hrf => ?_, fun r hr hrf => ?_⟩ (h.otherImports _ hne)
    (h.otherRelationships _ hne) (fun r _ => keepsEdge_clear hg hs hgone r)
    (h.otherReferences _ hne) fun r _ => keepsUse_clear hg hs hgone r
  · exact ⟨r, (h.symbols r).mpr (Or.inl ⟨hr, by rw [hrf]; exact hne⟩), rfl, hrf, rfl⟩
  · rcases (h.symbols r).mp hr with ⟨hr, -⟩ | hmem
    · exact ⟨r, hr, rfl, hrf⟩
    · exact absurd (reconciled_fileId i o.symbols hmem) (by rw [hrf]; exact hne)

end Store

/-! ## Archives -/

/-- A store with what each file was last stored with, by project and path. -/
structure Archive where
  store : Store
  filed : Int → String → Option Filing

namespace Archive

/-- Nothing was stored. -/
def empty : Archive := ⟨.empty, fun _ _ => none⟩

/-- The filings after a write. Only a file that is stored gets a new one. -/
def filedAfter (a : Archive) : Write → Int → String → Option Filing
  | .persist now p f o =>
    match a.store.persist now p f o with
    | .ok _ => fun q path =>
      if q = p ∧ path = f.relativePath then some (a.store.filingOf now p f o) else a.filed q path
    | .error _ => a.filed
  | _ => a.filed

/-- One write. -/
def apply (a : Archive) (w : Write) : Archive := ⟨a.store.apply w, a.filedAfter w⟩

/-- A sequence of writes. -/
def run (ws : List Write) : Archive := ws.foldl apply empty

/-- The states that writes lead to are those of the archives. -/
theorem exists_run {s : Store} (h : s.Reachable) : ∃ ws, (run ws).store = s := by
  induction h with
  | empty => exact ⟨[], rfl⟩
  | @write s h w ih =>
    obtain ⟨ws, hws⟩ := ih
    refine ⟨ws ++ [w], ?_⟩
    rw [run, List.foldl_append, List.foldl_cons, List.foldl_nil, ← hws]
    rfl

/-- **The rows of every file are those of its filing.** -/
structure Faithful (a : Archive) : Prop where
  sound : a.store.Sound
  holds : ∀ f ∈ a.store.files, ∃ x, a.filed f.projectId f.relativePath = some x ∧ a.store.Holds f x

variable {a : Archive}

theorem faithful_empty : Faithful empty := ⟨Store.sound_empty, fun f hf => by cases hf⟩

/-- A change of the store that keeps every file that is left to its filing. -/
theorem Faithful.of_store (h : a.Faithful) {t : Store} (ht : t.Sound)
    (hold : ∀ f ∈ t.files, ∀ x, a.filed f.projectId f.relativePath = some x → a.store.Holds f x →
      t.Holds f x) (hsub : ∀ f ∈ t.files, f ∈ a.store.files) : Faithful ⟨t, a.filed⟩ where
  sound := ht
  holds := fun f hf => by
    obtain ⟨x, hx, hh⟩ := h.holds f (hsub f hf)
    exact ⟨x, hx, hold f hf x hx hh⟩

theorem Faithful.afterWrite (h : a.Faithful) {α : Type} {y : StoreM (α × Store)}
    (hy : ∀ b t, y = .ok (b, t) → Faithful ⟨t, a.filed⟩) :
    Faithful ⟨CodeAtlas.afterWrite a.store y, a.filed⟩ := by
  cases y with
  | error e => exact h
  | ok z => exact hy z.1 z.2 rfl

/-- Storing a file keeps every other file to its filing and gives it its own. -/
theorem Faithful.persist (h : a.Faithful) {now p : Int} {f : SourceFile} {o : Outline}
    {stats : WriteStats} {t : Store} (ht : a.store.persist now p f o = .ok (stats, t)) :
    Faithful ⟨t, fun q path =>
      if q = p ∧ path = f.relativePath then some (a.store.filingOf now p f o)
      else a.filed q path⟩ := by
  obtain ⟨i, hp, -, hts⟩ := Store.persist_spec h.sound ht
  have hfiling : a.store.filingOf now p f o =
      ⟨o, ((a.store.reconciled i o.symbols).rows.map (·.2)).map (·.id)⟩ := by
    unfold Store.filingOf
    rw [hp.upserted]
    rfl
  refine ⟨hts, fun g hg => ?_⟩
  rcases (hp.files.mem_iff h.sound.keyed).mp hg with rfl | ⟨hg, hne⟩
  · refine ⟨_, if_pos ⟨rfl, rfl⟩, ?_⟩
    rw [hfiling]
    exact hp.holds h.sound.keyed
  · obtain ⟨x, hx, hh⟩ := h.holds g hg
    refine ⟨x, ?_, hp.holds_other h.sound.keyed hh hne⟩
    exact (if_neg (hp.files.path_ne h.sound.keyed hg hne)).trans hx

/-- **A write keeps the rows of every file to its filing.** -/
theorem Faithful.apply (h : a.Faithful) (w : Write) : (a.apply w).Faithful := by
  have hs := h.sound
  cases w with
  | upsertProject now path name =>
    refine h.afterWrite fun y t ht => ?_
    have htt := hs.upsertProject ht
    rw [Store.upsertProject_state ht] at htt ⊢
    exact h.of_store htt (fun f _ x _ hh => hh.congr (.of_eq rfl _) rfl rfl rfl) fun f hf => hf
  | persist now p f o =>
    cases ht : a.store.persist now p f o with
    | error e =>
      simp only [Archive.apply, Store.apply, filedAfter, ht]
      exact h
    | ok y =>
      simp only [Archive.apply, Store.apply, filedAfter, ht]
      exact h.persist ht
  | removeFile p path =>
    exact h.of_store (hs.apply _) (fun f hf x _ hh =>
        hh.dropFiles hs.keyed ((Store.mem_dropFiles _).mp hf).1 ((Store.mem_dropFiles _).mp hf).2)
      fun f hf => ((Store.mem_dropFiles _).mp hf).1
  | prune p keep =>
    exact h.of_store (hs.apply _) (fun f hf x _ hh =>
        hh.dropFiles hs.keyed ((Store.mem_dropFiles _).mp hf).1 ((Store.mem_dropFiles _).mp hf).2)
      fun f hf => ((Store.mem_dropFiles _).mp hf).1
  | resolveLinks p =>
    exact h.of_store (hs.apply _) (fun f _ x _ hh => hh.resolveLinks hs.keyed p) fun f hf => hf
  | refresh now p =>
    refine h.afterWrite fun y t ht => ?_
    have htt := hs.refresh ht
    rw [Store.refresh_state ht] at htt ⊢
    exact h.of_store htt (fun f _ x _ hh => hh.congr (.of_eq rfl _) rfl rfl rfl) fun f hf => hf
  | setWorkflow id w =>
    exact h.of_store (hs.apply _) (fun f _ x _ hh => hh.setWorkflow id w) fun f hf => hf

/-- **So does every sequence of writes.** -/
theorem faithful_run (ws : List Write) : (run ws).Faithful := by
  suffices ∀ a : Archive, a.Faithful → (ws.foldl Archive.apply a).Faithful from
    this _ faithful_empty
  induction ws with
  | nil => exact fun a h => h
  | cons w ws ih => exact fun a h => ih _ (h.apply w)

end Archive

/-- After any writes, every file holds what was filed for it. -/
theorem Store.Reachable.exists_holds {s : Store} (h : s.Reachable) {f : FileRow}
    (hf : f ∈ s.files) : ∃ x, s.Holds f x := by
  obtain ⟨ws, rfl⟩ := Archive.exists_run h
  obtain ⟨x, -, hx⟩ := (Archive.faithful_run ws).holds f hf
  exact ⟨x, hx⟩

end CodeAtlas
