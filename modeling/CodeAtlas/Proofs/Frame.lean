import CodeAtlas.Proofs.Archive

/-!
# Rows that stay

* `Store.SameRows`: the rows of a file are the same, apart from where links lead.
* `Store.SameLinks`: its links are the same, too.
* `Persisted.sameRows`, `sameRows_dropFiles`, `sameRows_resolveLinks`: what leaves the rows of a file
  alone.
* `Persisted.sameLinks`, `sameLinks_dropFiles`, `sameLinks_resolveLinks`: writes to one project leave
  the links of others alone.
-/

namespace CodeAtlas

/-- An edge without its links. -/
def RelationshipRow.unlinked (r : RelationshipRow) : RelationshipRow :=
  { r with sourceId := none, targetId := none }

/-- A use without its link. What it lies in counts as a part of it. -/
def ReferenceRow.unlinked (r : ReferenceRow) : ReferenceRow := { r with targetId := none }

namespace Store

variable {s t u : Store} {i : Int}

/-- **The rows of a file are the same**, apart from where links lead. -/
structure SameRows (s t : Store) (i : Int) : Prop where
  symbols : t.symbolsIn i = s.symbolsIn i
  imports : t.importsIn i = s.importsIn i
  relationships : (t.relationshipsIn i).map (·.unlinked) = (s.relationshipsIn i).map (·.unlinked)
  references : (t.referencesIn i).map (·.unlinked) = (s.referencesIn i).map (·.unlinked)

/-- The links of a file are the same. -/
structure SameLinks (s t : Store) (i : Int) : Prop where
  relationships : t.relationshipsIn i = s.relationshipsIn i
  references : t.referencesIn i = s.referencesIn i

theorem SameRows.refl (s : Store) (i : Int) : SameRows s s i := ⟨rfl, rfl, rfl, rfl⟩

theorem SameRows.trans (h : SameRows s t i) (h' : SameRows t u i) : SameRows s u i :=
  ⟨h'.symbols.trans h.symbols, h'.imports.trans h.imports,
    h'.relationships.trans h.relationships, h'.references.trans h.references⟩

theorem SameRows.relationshipIds (h : SameRows s t i) :
    (t.relationshipsIn i).map (·.id) = (s.relationshipsIn i).map (·.id) := by
  have h' := congrArg (List.map fun r : RelationshipRow => r.id) h.relationships
  rwa [List.map_map, List.map_map] at h'

theorem SameRows.referenceIds (h : SameRows s t i) :
    (t.referencesIn i).map (·.id) = (s.referencesIn i).map (·.id) := by
  have h' := congrArg (List.map fun r : ReferenceRow => r.id) h.references
  rwa [List.map_map, List.map_map] at h'

theorem SameLinks.refl (s : Store) (i : Int) : SameLinks s s i := ⟨rfl, rfl⟩

theorem SameLinks.trans (h : SameLinks s t i) (h' : SameLinks t u i) : SameLinks s u i :=
  ⟨h'.relationships.trans h.relationships, h'.references.trans h.references⟩

theorem SameRows.withProjects (h : SameRows s t i) (projects : List ProjectRow) :
    SameRows s { t with projects } i := ⟨h.symbols, h.imports, h.relationships, h.references⟩

theorem SameLinks.withProjects (h : SameLinks s t i) (projects : List ProjectRow) :
    SameLinks s { t with projects } i := ⟨h.relationships, h.references⟩

/-! ## Symbols that go -/

section Clear

variable {gone : SymbolRow → Bool}

/-- A link that leads to no symbol that goes stays. -/
theorem cleared_eq_self (hs : s.Keyed) {link : Option Int}
    (h : ∀ j, link = some j → ∃ x ∈ s.symbols, x.id = j ∧ gone x = false) :
    s.cleared gone link = link := by
  cases link with
  | none => rfl
  | some j =>
    refine (cleared_eq_some gone).mpr ⟨rfl, fun hmem => ?_⟩
    obtain ⟨x, hx, hxj, hg⟩ := h j rfl
    obtain ⟨y, hy, hyj⟩ := List.mem_map.mp hmem
    obtain ⟨hy, hyg⟩ := List.mem_filter.mp hy
    rw [hs.symbol_eq hy hx (hyj.trans hxj.symm), hg] at hyg
    cases hyg

/-- Only links are cleared, and what a use lies in stays with it. -/
theorem map_unlinked_clear (hs : s.Sound)
    (hgone : ∀ x ∈ s.symbols, x.fileId = i → gone x = false) :
    ((s.relationshipsIn i).map (s.clearEdge gone)).map (·.unlinked) =
        (s.relationshipsIn i).map (·.unlinked) ∧
      ((s.referencesIn i).map (s.clearUse gone)).map (·.unlinked) =
        (s.referencesIn i).map (·.unlinked) := by
  rw [List.map_map, List.map_map]
  refine ⟨rfl, List.map_congr_left fun r hr => ?_⟩
  obtain ⟨hr, hri⟩ := mem_referencesIn.mp hr
  have hsource : s.cleared gone r.sourceId = r.sourceId := by
    refine cleared_eq_self hs.keyed fun j hj => ?_
    obtain ⟨x, hx, hxj, hxf⟩ := hs.linked.users r hr j hj
    exact ⟨x, hx, hxj, hgone x hx (hxf.trans hri)⟩
  simp only [Function.comp, ReferenceRow.unlinked, clearUse, hsource]

/-- Symbols of one project that go leave the links of others alone. -/
theorem map_clear (hs : s.Sound) {p q : Int} (hq : s.ownsFile q i = true) (hne : q ≠ p)
    (hgone : ∀ x ∈ s.symbols, gone x = true → s.ownsFile p x.fileId = true) :
    (s.relationshipsIn i).map (s.clearEdge gone) = s.relationshipsIn i ∧
      (s.referencesIn i).map (s.clearUse gone) = s.referencesIn i := by
  have hreach : ∀ {n link}, s.Reaches i n link → s.cleared gone link = link := by
    intro n link h
    refine cleared_eq_self hs.keyed fun j hj => ?_
    obtain ⟨x, hx, hxj, -, q', hx', hi'⟩ := h j hj
    refine ⟨x, hx, hxj, Bool.eq_false_iff.mpr fun hg => hne ?_⟩
    rw [← hs.keyed.owner_unique hi' hq]
    exact hs.keyed.owner_unique hx' (hgone x hx hg)
  constructor
  · refine (List.map_congr_left fun r hr => ?_).trans (List.map_id _)
    obtain ⟨hr, hri⟩ := mem_relationshipsIn.mp hr
    have hsource := hs.linked.sources r hr
    have htarget := hs.linked.targets r hr
    rw [hri] at hsource htarget
    rw [clearEdge, hreach hsource, hreach htarget]
    rfl
  · refine (List.map_congr_left fun r hr => ?_).trans (List.map_id _)
    obtain ⟨hr, hri⟩ := mem_referencesIn.mp hr
    have htarget := hs.linked.uses r hr
    rw [hri] at htarget
    have hsource : s.cleared gone r.sourceId = r.sourceId := by
      refine cleared_eq_self hs.keyed fun j hj => ?_
      obtain ⟨x, hx, hxj, hxf⟩ := hs.linked.users r hr j hj
      refine ⟨x, hx, hxj, Bool.eq_false_iff.mpr fun hg => hne ?_⟩
      have hp := hgone x hx hg
      rw [hxf, hri] at hp
      exact hs.keyed.owner_unique hq hp
    rw [clearUse, hreach htarget, hsource]
    rfl

end Clear

/-! ## Single writes -/

section Persisted

variable {now p k : Int} {f : SourceFile} {o : Outline}

theorem leaves_eq_false {x : SymbolRow} (hx : x.fileId ≠ k) : s.leaves k o.symbols x = false := by
  simp [leaves, hx]

theorem Persisted.sameRows (hs : s.Sound) (h : s.Persisted now p f o k t) (hi : i ≠ k) :
    SameRows s t i := by
  obtain ⟨hrel, href⟩ := @map_unlinked_clear s i (s.leaves k o.symbols) hs
    fun x _ hx => leaves_eq_false (by rw [hx]; exact hi)
  exact ⟨h.otherSymbols i hi, h.otherImports i hi,
    by rw [h.otherRelationships i hi]; exact hrel, by rw [h.otherReferences i hi]; exact href⟩

/-- Storing a file leaves the links of other projects alone. -/
theorem Persisted.sameLinks (hs : s.Sound) (h : s.Persisted now p f o k t) {g : FileRow}
    (hg : g ∈ s.files) (hp : g.projectId ≠ p) (hi : g.id ≠ k) : SameLinks s t g.id := by
  have hown : s.ownsFile g.projectId g.id = true := ownsFile_iff.mpr ⟨g, hg, rfl, rfl⟩
  have hgone : ∀ x ∈ s.symbols, s.leaves k o.symbols x = true → s.ownsFile p x.fileId = true := by
    intro x hx hl
    have hxk : x.fileId = k := by
      simp only [leaves, Bool.and_eq_true, beq_iff_eq] at hl
      exact hl.1
    obtain ⟨g', hg', hg'i⟩ := hs.owned.symbols x hx
    refine ownsFile_iff.mpr ⟨g', hg', hg'i, ?_⟩
    by_contra hne
    have hg'k : g'.id = k := hg'i.trans hxk
    rcases h.files.old_or_new with ⟨old, hold, holdk, hp', -⟩ | ⟨hk, -⟩
    · rw [hs.keyed.file_eq hg' hold (hg'k.trans holdk.symm)] at hne
      exact hne hp'
    · have hb := hs.keyed.files.bound _ (List.mem_map_of_mem hg')
      omega
  obtain ⟨hrel, href⟩ := map_clear hs hown hp hgone
  exact ⟨by rw [h.otherRelationships _ hi]; exact hrel, by rw [h.otherReferences _ hi]; exact href⟩

end Persisted

section DropFiles

variable {gone : FileRow → Bool} {f : FileRow}

/-- Where no file goes, all stays as it is. -/
theorem dropFiles_eq_self (h : ∀ f ∈ s.files, gone f = false) : s.dropFiles gone = s := by
  have hids : goneIds gone s = [] := by
    rw [goneIds, List.filter_eq_nil_iff.mpr fun f hf => by simp [h f hf]]
    rfl
  have hfiles : s.files.filter (fun f => !gone f) = s.files :=
    List.filter_eq_self.mpr fun f hf => by simp [h f hf]
  have hclear : ∀ link, s.cleared (fun _ => false) link = link := by
    intro link
    cases link <;> simp [cleared]
  have hedges : s.relationships.map (s.clearEdge fun _ => false) = s.relationships :=
    (List.map_congr_left fun r _ => by rw [clearEdge, hclear, hclear]; rfl).trans (List.map_id _)
  have huses : s.references.map (s.clearUse fun _ => false) = s.references :=
    (List.map_congr_left fun r _ => by rw [clearUse, hclear, hclear]; rfl).trans (List.map_id _)
  rw [dropFiles_eq, dropSymbols_eq]
  simp [hids, hfiles, hedges, huses]

theorem sameRows_dropFiles (hs : s.Sound) (hf : f ∈ s.files) (hg : gone f = false) :
    SameRows s (s.dropFiles gone) f.id := by
  have hi : f.id ∉ goneIds gone s := by rw [mem_goneIds gone hs.keyed hf, hg]; simp
  obtain ⟨hrel, href⟩ := @map_unlinked_clear s f.id (s.goesWith gone) hs fun x _ hx => by
    simpa [goesWith, hx] using hi
  refine ⟨?_, importsIn_dropFiles hi, by rw [relationshipsIn_dropFiles hi]; exact hrel,
    by rw [referencesIn_dropFiles hi]; exact href⟩
  exact @filter_fileId_filter _ _ (fun j => !(goneIds gone s).contains j) f.id (by simpa using hi) _

/-- Files of one project that go leave the links of others alone. -/
theorem sameLinks_dropFiles (hs : s.Sound) (hf : f ∈ s.files) {p : Int} (hp : f.projectId ≠ p)
    (hgone : ∀ g ∈ s.files, gone g = true → g.projectId = p) :
    SameLinks s (s.dropFiles gone) f.id := by
  have hg : gone f = false := Bool.eq_false_iff.mpr fun h => hp (hgone f hf h)
  have hi : f.id ∉ goneIds gone s := by rw [mem_goneIds gone hs.keyed hf, hg]; simp
  have hown : s.ownsFile f.projectId f.id = true := ownsFile_iff.mpr ⟨f, hf, rfl, rfl⟩
  have hsym : ∀ x ∈ s.symbols, s.goesWith gone x = true → s.ownsFile p x.fileId = true := by
    intro x _ hx
    have hmem : x.fileId ∈ goneIds gone s := by simpa [goesWith] using hx
    obtain ⟨g, hg, hgi⟩ := List.mem_map.mp hmem
    obtain ⟨hg, hgg⟩ := List.mem_filter.mp hg
    exact ownsFile_iff.mpr ⟨g, hg, hgi, hgone g hg hgg⟩
  obtain ⟨hrel, href⟩ := map_clear hs hown hp hsym
  exact ⟨by rw [relationshipsIn_dropFiles hi]; exact hrel,
    by rw [referencesIn_dropFiles hi]; exact href⟩

end DropFiles

section ResolveLinks

variable (p : Int)

theorem relationshipsIn_resolveLinks (s : Store) (i : Int) :
    (s.resolveLinks p).2.relationshipsIn i = (s.relationshipsIn i).map (s.relinkEdge p) :=
  @filter_fileId_map _ RelationshipRow.fileId (s.relinkEdge p)
    (fun r => by unfold relinkEdge; split <;> rfl) _ _

theorem referencesIn_resolveLinks (s : Store) (i : Int) :
    (s.resolveLinks p).2.referencesIn i = (s.referencesIn i).map (s.relinkUse p) :=
  @filter_fileId_map _ ReferenceRow.fileId (s.relinkUse p)
    (fun r => by unfold relinkUse; split <;> rfl) _ _

theorem sameRows_resolveLinks (s : Store) (i : Int) : SameRows s (s.resolveLinks p).2 i := by
  refine ⟨rfl, rfl, ?_, ?_⟩
  · rw [relationshipsIn_resolveLinks, List.map_map]
    refine List.map_congr_left fun r _ => ?_
    simp only [Function.comp, relinkEdge]
    split <;> rfl
  · rw [referencesIn_resolveLinks, List.map_map]
    refine List.map_congr_left fun r _ => ?_
    simp only [Function.comp, relinkUse]
    split <;> rfl

/-- Links of other projects are left alone. -/
theorem sameLinks_resolveLinks {p : Int} (h : s.ownsFile p i = false) :
    SameLinks s (s.resolveLinks p).2 i := by
  constructor
  · rw [relationshipsIn_resolveLinks]
    refine (List.map_congr_left fun r hr => ?_).trans (List.map_id _)
    rw [relinkEdge, (mem_relationshipsIn.mp hr).2, h]
    rfl
  · rw [referencesIn_resolveLinks]
    refine (List.map_congr_left fun r hr => ?_).trans (List.map_id _)
    rw [relinkUse, (mem_referencesIn.mp hr).2, h]
    rfl

end ResolveLinks

end Store

end CodeAtlas
