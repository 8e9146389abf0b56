import CodeAtlas.Proofs.Links
import CodeAtlas.Proofs.Log

/-!
# Stores that differ in ids only

* `Renaming`: new ids for the rows of each table. `Store.Renames`: a store is another one with new ids
  for rows that were added later.
* `exists_sheet_renaming`: rows that stand at the same places of files at the same paths get each
  other's ids.
* `SymbolRow.eq_rename`, …: when a row is another one with its new id.
* `perm_flatMap_filter`, **`table_perm`**: a table is made of the rows of its files, and is another one
  with new ids if the rows of each file are.
-/

namespace CodeAtlas

open scoped List

/-- New ids for the rows of each table. -/
structure Renaming where
  files : Int → Int
  symbols : Int → Int
  imports : Int → Int
  relationships : Int → Int
  references : Int → Int

variable (ρ : Renaming)

/-- A file with its new id. -/
def FileRow.rename (f : FileRow) : FileRow := { f with id := ρ.files f.id }

/-- A symbol with its new id. -/
def SymbolRow.rename (r : SymbolRow) : SymbolRow :=
  { r with id := ρ.symbols r.id, fileId := ρ.files r.fileId }

/-- An import with its new id. -/
def ImportRow.rename (r : ImportRow) : ImportRow :=
  { r with id := ρ.imports r.id, fileId := ρ.files r.fileId }

/-- An edge with its new id, which leads to the new ids of its ends. -/
def RelationshipRow.rename (r : RelationshipRow) : RelationshipRow :=
  { r with
    id := ρ.relationships r.id, fileId := ρ.files r.fileId
    sourceId := r.sourceId.map ρ.symbols, targetId := r.targetId.map ρ.symbols }

/-- A use with its new id, which leads to the new id of what is used. -/
def ReferenceRow.rename (r : ReferenceRow) : ReferenceRow :=
  { r with
    id := ρ.references r.id, fileId := ρ.files r.fileId
    sourceId := r.sourceId.map ρ.symbols, targetId := r.targetId.map ρ.symbols }

/-- A renaming leaves the ids alone that were given out before. -/
structure Renaming.Fixes (c : Counters) : Prop where
  files : ∀ i ≤ c.files, ρ.files i = i
  symbols : ∀ i ≤ c.symbols, ρ.symbols i = i
  imports : ∀ i ≤ c.imports, ρ.imports i = i
  relationships : ∀ i ≤ c.relationships, ρ.relationships i = i
  references : ∀ i ≤ c.references, ρ.references i = i

/-- **A store is another one with new ids.** No two rows of a table get the same. -/
structure Store.Renames (s t : Store) : Prop where
  files : t.files.Perm (s.files.map (·.rename ρ))
  symbols : t.symbols.Perm (s.symbols.map (·.rename ρ))
  imports : t.imports.Perm (s.imports.map (·.rename ρ))
  relationships : t.relationships.Perm (s.relationships.map (·.rename ρ))
  references : t.references.Perm (s.references.map (·.rename ρ))
  fileIds : (s.files.map fun r => ρ.files r.id).Nodup
  symbolIds : (s.symbols.map fun r => ρ.symbols r.id).Nodup
  importIds : (s.imports.map fun r => ρ.imports r.id).Nodup
  relationshipIds : (s.relationships.map fun r => ρ.relationships r.id).Nodup
  referenceIds : (s.references.map fun r => ρ.references r.id).Nodup

section Rows

variable {ρ}

theorem SymbolRow.eq_rename {r r' : SymbolRow} (hd : r'.toDeclaration = r.toDeclaration)
    (hflaws : r'.flaws = r.flaws) (hid : r'.id = ρ.symbols r.id)
    (hfile : r'.fileId = ρ.files r.fileId) : r' = r.rename ρ := by
  cases r'
  simp only at hd hflaws hid hfile
  subst hd hflaws hid hfile
  rfl

theorem ImportRow.eq_rename {r r' : ImportRow} (hc : r'.toImportClause = r.toImportClause)
    (hpath : r'.filePath = r.filePath) (hflaws : r'.flaws = r.flaws)
    (hid : r'.id = ρ.imports r.id) (hfile : r'.fileId = ρ.files r.fileId) : r' = r.rename ρ := by
  obtain ⟨⟨c', i', p'⟩, f', l'⟩ := r'
  simp only at hc hpath hflaws hid hfile
  subst hc hpath hflaws hid hfile
  rfl

theorem RelationshipRow.eq_rename {r r' : RelationshipRow} (he : r'.toEdge = r.toEdge)
    (hpath : r'.filePath = r.filePath) (hflaws : r'.flaws = r.flaws)
    (hid : r'.id = ρ.relationships r.id) (hfile : r'.fileId = ρ.files r.fileId)
    (hsource : r'.sourceId = r.sourceId.map ρ.symbols)
    (htarget : r'.targetId = r.targetId.map ρ.symbols) : r' = r.rename ρ := by
  obtain ⟨⟨e', i', s', t', p'⟩, f', l'⟩ := r'
  simp only at he hpath hflaws hid hfile hsource htarget
  subst he hpath hflaws hid hfile hsource htarget
  rfl

theorem ReferenceRow.eq_rename {r r' : ReferenceRow} {n : Option String}
    (hu : (⟨r'.kind, n, r'.target, r'.qualifier, r'.line, r'.column⟩ : Use) =
      ⟨r.kind, n, r.target, r.qualifier, r.line, r.column⟩)
    (hpath : r'.filePath = r.filePath) (hflaws : r'.flaws = r.flaws)
    (hid : r'.id = ρ.references r.id) (hfile : r'.fileId = ρ.files r.fileId)
    (hsource : r'.sourceId = r.sourceId.map ρ.symbols)
    (htarget : r'.targetId = r.targetId.map ρ.symbols) : r' = r.rename ρ := by
  obtain ⟨⟨i', s', n', t', q', k', p', m', c'⟩, f', l'⟩ := r'
  simp only [Use.mk.injEq] at hu hpath hflaws hid hfile hsource htarget
  obtain ⟨hk, -, hn, hq, hm, hc⟩ := hu
  subst hk hn hq hm hc hpath hflaws hid hfile hsource htarget
  rfl

end Rows

/-! ## Renamings from places -/

/-- A relation that gives one id for each can be read as a renaming. -/
theorem exists_renaming {P : Int → Int → Prop} {last : Int}
    (hfun : ∀ i j k, P i j → P i k → j = k) (hold : ∀ i j, P i j → i ≤ last → i = j) :
    ∃ ρ : Int → Int, (∀ i j, P i j → ρ i = j) ∧ ∀ i ≤ last, ρ i = i := by
  classical
  refine ⟨fun i => if h : ∃ j, P i j then h.choose else i, fun i j hij => ?_, fun i hi => ?_⟩
  · have h : ∃ j, P i j := ⟨j, hij⟩
    exact (dif_pos h).trans (hfun i _ _ h.choose_spec hij)
  · dsimp only
    split
    · next h => exact (hold i _ h.choose_spec hi).symm
    · rfl

theorem map_eq_of_zip {l l' : List Int} {ρ : Int → Int} (hlen : l.length = l'.length)
    (h : ∀ i j, (i, j) ∈ l.zip l' → ρ i = j) : l' = l.map ρ := by
  induction l generalizing l' with
  | nil =>
    rw [List.length_nil] at hlen
    exact List.eq_nil_of_length_eq_zero hlen.symm
  | cons i l ih =>
    cases l' with
    | nil => cases hlen
    | cons j l' =>
      rw [List.map_cons, h i j List.mem_cons_self,
        ← ih (Nat.succ.inj hlen) fun k m hkm => h k m (List.mem_cons_of_mem _ hkm)]

theorem zip_right_unique {l l' : List Int} (hnd : l.Nodup) {i j k : Int}
    (hj : (i, j) ∈ l.zip l') (hk : (i, k) ∈ l.zip l') : j = k := by
  induction l generalizing l' with
  | nil => simp at hj
  | cons i' l ih =>
    cases l' with
    | nil => simp at hj
    | cons j' l' =>
      obtain ⟨hi', hl⟩ := List.nodup_cons.mp hnd
      rw [List.zip_cons_cons, List.mem_cons] at hj hk
      rcases hj with hj | hj <;> rcases hk with hk | hk
      · cases hj; cases hk; rfl
      · cases hj; exact absurd (List.of_mem_zip hk).1 hi'
      · cases hk; exact absurd (List.of_mem_zip hj).1 hi'
      · exact ih hl hj hk

/-- Two files at the same path. -/
def SameKey (g h : FileRow) : Prop :=
  g.projectId = h.projectId ∧ g.relativePath = h.relativePath

/-- **Rows that stand at the same places of files at the same paths get each other's ids.** -/
theorem exists_sheet_renaming {files files' : List FileRow} {sheet sheet' : FileRow → List Int}
    {last : Int} (hkey : ∀ h ∈ files', ∀ h' ∈ files', SameKey h h' → h = h')
    (hdis : ∀ g ∈ files, ∀ g' ∈ files, ∀ i, i ∈ sheet g → i ∈ sheet g' → g = g')
    (hnd : ∀ g ∈ files, (sheet g).Nodup)
    (hpair : ∀ g ∈ files, ∀ h ∈ files', SameKey g h →
      List.Forall₂ (Paired last) (sheet g) (sheet' h)) :
    ∃ ρ : Int → Int, (∀ g ∈ files, ∀ h ∈ files', SameKey g h → sheet' h = (sheet g).map ρ) ∧
      ∀ i ≤ last, ρ i = i := by
  let P (i j : Int) : Prop :=
    ∃ g ∈ files, ∃ h ∈ files', SameKey g h ∧ (i, j) ∈ (sheet g).zip (sheet' h)
  have hfun : ∀ i j k, P i j → P i k → j = k := by
    rintro i j k ⟨g, hg, h, hh, hk, hij⟩ ⟨g', hg', h', hh', hk', hik⟩
    have he : g = g' := hdis g hg g' hg' i (List.of_mem_zip hij).1 (List.of_mem_zip hik).1
    subst he
    have he' : h = h' := hkey h hh h' hh' ⟨hk.1.symm.trans hk'.1, hk.2.symm.trans hk'.2⟩
    subst he'
    exact zip_right_unique (hnd g hg) hij hik
  have hold : ∀ i j, P i j → i ≤ last → i = j := by
    rintro i j ⟨g, hg, h, hh, hk, hij⟩ hi
    have hp : Paired last i j := (List.forall₂_iff_zip.mp (hpair g hg h hh hk)).2 hij
    exact hp.eq_of_le hi
  obtain ⟨ρ, hρ, hfix⟩ := exists_renaming hfun hold
  refine ⟨ρ, fun g hg h hh hk => ?_, hfix⟩
  exact map_eq_of_zip (hpair g hg h hh hk).length_eq fun i j hij => hρ i j ⟨g, hg, h, hh, hk, hij⟩

/-! ## Tables from files -/

/-- A table is made of the rows of its files. -/
theorem perm_flatMap_filter {ρ : Type} {file : ρ → Int} {ids : List Int} (hnd : ids.Nodup)
    {rows : List ρ} (h : ∀ r ∈ rows, file r ∈ ids) :
    rows.Perm (ids.flatMap fun i => rows.filter (file · == i)) := by
  induction ids generalizing rows with
  | nil =>
    have hnil : rows = [] := List.eq_nil_iff_forall_not_mem.mpr fun r hr => by simpa using h r hr
    rw [hnil]
    exact List.Perm.refl _
  | cons i ids ih =>
    obtain ⟨hi, hids⟩ := List.nodup_cons.mp hnd
    have hrest : ∀ r ∈ rows.filter (fun r => !(file r == i)), file r ∈ ids := by
      intro r hr
      obtain ⟨hr, hne⟩ := List.mem_filter.mp hr
      exact (List.mem_cons.mp (h r hr)).resolve_left (by simpa using hne)
    have hsame : ids.flatMap (fun k => (rows.filter fun r => !(file r == i)).filter (file · == k)) =
        ids.flatMap fun k => rows.filter (file · == k) := by
      refine List.flatMap_congr fun k hk => ?_
      have hki : k ≠ i := fun he => hi (he ▸ hk)
      exact @Store.filter_fileId_filter _ file (fun f => !(f == i)) k (by simpa using hki) rows
    have hperm := (ih hids hrest)
    rw [hsame] at hperm
    rw [List.flatMap_cons]
    exact (List.filter_append_perm (fun r => file r == i) rows).symm.trans
      ((List.Perm.refl _).append hperm)

/-- A table is another one with new ids if the rows of each file are. -/
theorem table_perm {row : Type} {file : row → Int} {files files' : List FileRow}
    {rows rows' : List row} {k : row → row} (hfiles : files'.Perm (files.map (·.rename ρ)))
    (hnd : (files.map (·.id)).Nodup) (hnd' : (files'.map (·.id)).Nodup)
    (hrows : ∀ r ∈ rows, file r ∈ files.map (·.id))
    (hrows' : ∀ r ∈ rows', file r ∈ files'.map (·.id))
    (h : ∀ g ∈ files, (rows'.filter (file · == ρ.files g.id)).Perm
      ((rows.filter (file · == g.id)).map k)) : rows'.Perm (rows.map k) := by
  have hids : (files'.map (·.id)).Perm (files.map fun g => ρ.files g.id) := by
    have hmap := hfiles.map fun g : FileRow => g.id
    rwa [List.map_map] at hmap
  calc rows'
      _ ~ (files'.map (·.id)).flatMap fun i => rows'.filter (file · == i) :=
        perm_flatMap_filter hnd' hrows'
      _ ~ (files.map fun g => ρ.files g.id).flatMap fun i => rows'.filter (file · == i) :=
        hids.flatMap_right _
      _ ~ files.flatMap fun g => rows'.filter (file · == ρ.files g.id) := by
        rw [List.flatMap_map]
      _ ~ files.flatMap fun g => (rows.filter (file · == g.id)).map k :=
        List.Perm.flatMap_left _ h
      _ ~ ((files.map (·.id)).flatMap fun i => rows.filter (file · == i)).map k := by
        rw [List.map_flatMap, List.flatMap_map]
      _ ~ rows.map k := (perm_flatMap_filter hnd hrows).symm.map k

end CodeAtlas
