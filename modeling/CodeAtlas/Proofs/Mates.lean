import CodeAtlas.Proofs.Rename

/-!
# Files whose rows agree

* `Mates`: two files whose rows agree one by one, apart from ids that were given out later and from
  where links lead.
* `InLine`: the links of both are in line. `Abroad`: the files belong to another project, and nothing
  has happened to them.
* `Matched`: two archives whose files are mates.
* `Matched.canonical?_eq`: canonical links agree.
* **`Matched.exists_renames`**: two archives that are matched differ in ids only.
-/

namespace CodeAtlas

variable {c : Counters} {p : Int} {a b : Archive} {g h : FileRow} {x y : Filing} {ρ : Renaming}

/-- **Two files whose rows agree one by one**, apart from where links lead. -/
structure Mates (c : Counters) (a b : Archive) (g h : FileRow) (x y : Filing) : Prop where
  holds : a.store.Holds g x
  holds' : b.store.Holds h y
  row : h = { g with id := h.id }
  id : Paired c.files g.id h.id
  outline : y.outline = x.outline
  symbols : ∃ rows rows' : List SymbolRow, rows.map (·.id) = x.ids ∧ rows'.map (·.id) = y.ids ∧
    (∀ r ∈ rows, r ∈ a.store.symbolsIn g.id) ∧ (∀ r ∈ rows', r ∈ b.store.symbolsIn h.id) ∧
    List.Forall₂ (SymbolRow.Twin c.symbols) rows rows'
  imports : List.Forall₂ (Paired c.imports) ((a.store.importsIn g.id).map (·.id))
    ((b.store.importsIn h.id).map (·.id))
  relationships : List.Forall₂ (Paired c.relationships)
    ((a.store.relationshipsIn g.id).map (·.id)) ((b.store.relationshipsIn h.id).map (·.id))
  references : List.Forall₂ (Paired c.references) ((a.store.referencesIn g.id).map (·.id))
    ((b.store.referencesIn h.id).map (·.id))

/-- The links of both files are in line. -/
structure InLine (p : Int) (a b : Archive) (g h : FileRow) (x y : Filing) : Prop where
  settled : a.store.Settled p g x
  settled' : b.store.Settled p h y

/-- Nothing has happened to the links of the file. -/
structure Abroad (c : Counters) (a b : Archive) (g h : FileRow) : Prop where
  relationships : b.store.relationshipsIn h.id = a.store.relationshipsIn g.id
  references : b.store.referencesIn h.id = a.store.referencesIn g.id
  oldEdges : ∀ r ∈ a.store.relationshipsIn g.id, r.id ≤ c.relationships ∧
    (∀ i, r.sourceId = some i → i ≤ c.symbols) ∧ ∀ i, r.targetId = some i → i ≤ c.symbols
  oldUses : ∀ r ∈ a.store.referencesIn g.id, r.id ≤ c.references ∧
    (∀ i, r.sourceId = some i → i ≤ c.symbols) ∧ ∀ i, r.targetId = some i → i ≤ c.symbols

/-- **Two archives whose files are mates.** -/
structure Matched (c : Counters) (p : Int) (a b : Archive) : Prop where
  left : a.Faithful
  right : b.Faithful
  keys : ∀ g ∈ a.store.files, ∃ h ∈ b.store.files, SameKey g h
  keys' : ∀ h ∈ b.store.files, ∃ g ∈ a.store.files, SameKey g h
  mates : ∀ g ∈ a.store.files, ∀ h ∈ b.store.files, SameKey g h → ∃ x y,
    a.filed g.projectId g.relativePath = some x ∧ b.filed h.projectId h.relativePath = some y ∧
    Mates c a b g h x y ∧ (InLine p a b g h x y ∨ Abroad c a b g h)

/-! ## The renaming -/

/-- The ids of the declarations of a file, in order. -/
def Archive.idsOf (a : Archive) (g : FileRow) : List Int :=
  ((a.filed g.projectId g.relativePath).map (·.ids)).getD []

theorem Archive.idsOf_eq (h : a.filed g.projectId g.relativePath = some x) : a.idsOf g = x.ids := by
  rw [Archive.idsOf, h]
  rfl

/-- A renaming that takes the rows of each file to those of its mate. -/
structure Guides (ρ : Renaming) (a b : Archive) : Prop where
  files : ∀ g ∈ a.store.files, ∀ h ∈ b.store.files, SameKey g h → h.id = ρ.files g.id
  symbols : ∀ g ∈ a.store.files, ∀ h ∈ b.store.files, SameKey g h →
    b.idsOf h = (a.idsOf g).map ρ.symbols
  imports : ∀ g ∈ a.store.files, ∀ h ∈ b.store.files, SameKey g h →
    (b.store.importsIn h.id).map (·.id) = ((a.store.importsIn g.id).map (·.id)).map ρ.imports
  relationships : ∀ g ∈ a.store.files, ∀ h ∈ b.store.files, SameKey g h →
    (b.store.relationshipsIn h.id).map (·.id) =
      ((a.store.relationshipsIn g.id).map (·.id)).map ρ.relationships
  references : ∀ g ∈ a.store.files, ∀ h ∈ b.store.files, SameKey g h →
    (b.store.referencesIn h.id).map (·.id) =
      ((a.store.referencesIn g.id).map (·.id)).map ρ.references

theorem file_unique {row : Type} {key file : row → Int} {rows : List row}
    (hnd : (rows.map key).Nodup) {i k l : Int} (hk : i ∈ (rows.filter (file · == k)).map key)
    (hl : i ∈ (rows.filter (file · == l)).map key) : k = l := by
  obtain ⟨r, hr, rfl⟩ := List.mem_map.mp hk
  obtain ⟨r', hr', he⟩ := List.mem_map.mp hl
  obtain ⟨hr, hrk⟩ := List.mem_filter.mp hr
  obtain ⟨hr', hrl⟩ := List.mem_filter.mp hr'
  have hsame : r' = r := List.inj_on_of_nodup_map hnd hr' hr he
  rw [hsame] at hrl
  exact (beq_iff_eq.mp hrk).symm.trans (beq_iff_eq.mp hrl)

theorem Matched.exists_guides (hm : Matched c p a b) : ∃ ρ, Guides ρ a b ∧ ρ.Fixes c := by
  have ha := hm.left.sound.keyed
  have hb := hm.right.sound.keyed
  have hkey : ∀ h ∈ b.store.files, ∀ h' ∈ b.store.files, SameKey h h' → h = h' :=
    fun h hh h' hh' hk => hb.file_eq_of_path hh hh' hk.1 hk.2
  have hsub : ∀ {row : Type} {key : row → Int} {file : row → Int} {rows : List row} (i : Int),
      (rows.map key).Nodup → ((rows.filter (file · == i)).map key).Nodup :=
    fun _ hnd => hnd.sublist (List.filter_sublist.map _)
  have hsymbol : ∀ g ∈ a.store.files, ∀ i ∈ a.idsOf g, ∃ r ∈ a.store.symbols, r.id = i ∧
      r.fileId = g.id := by
    intro g hg i hi
    obtain ⟨x, hx, hh⟩ := hm.left.holds g hg
    rw [Archive.idsOf_eq hx] at hi
    exact hh.row_of_mem hi
  obtain ⟨ρf, hf, hff⟩ := @exists_sheet_renaming a.store.files b.store.files (fun g => [g.id])
    (fun h => [h.id]) c.files hkey
    (fun g hg g' hg' i hi hi' => ha.file_eq hg hg'
      ((List.mem_singleton.mp hi).symm.trans (List.mem_singleton.mp hi')))
    (fun g _ => List.nodup_singleton _)
    (fun g hg h hh hk => by
      obtain ⟨x, y, -, -, hmate, -⟩ := hm.mates g hg h hh hk
      exact .cons hmate.id .nil)
  obtain ⟨ρs, hs, hsf⟩ := @exists_sheet_renaming a.store.files b.store.files a.idsOf b.idsOf
    c.symbols hkey
    (fun g hg g' hg' i hi hi' => by
      obtain ⟨r, hr, hri, hrf⟩ := hsymbol g hg i hi
      obtain ⟨r', hr', hri', hrf'⟩ := hsymbol g' hg' i hi'
      have hsame : r = r' := ha.symbol_eq hr hr' (hri.trans hri'.symm)
      rw [hsame] at hrf
      exact ha.file_eq hg hg' (hrf.symm.trans hrf'))
    (fun g hg => by
      obtain ⟨x, hx, hh⟩ := hm.left.holds g hg
      rw [Archive.idsOf_eq hx]
      exact hh.nodup)
    (fun g hg h hh hk => by
      obtain ⟨x, y, hx, hy, hmate, -⟩ := hm.mates g hg h hh hk
      obtain ⟨rows, rows', hids, hids', -, -, htwin⟩ := hmate.symbols
      rw [Archive.idsOf_eq hx, Archive.idsOf_eq hy, ← hids, ← hids', List.forall₂_map_left_iff,
        List.forall₂_map_right_iff]
      exact htwin.imp fun _ _ ht => ht.id)
  obtain ⟨ρi, hi, hif⟩ := @exists_sheet_renaming a.store.files b.store.files
    (fun g => (a.store.importsIn g.id).map (·.id)) (fun h => (b.store.importsIn h.id).map (·.id))
    c.imports hkey
    (fun g hg g' hg' i hi hi' => ha.file_eq hg hg' (file_unique ha.imports.nodup hi hi'))
    (fun g _ => hsub _ ha.imports.nodup)
    (fun g hg h hh hk => by
      obtain ⟨x, y, -, -, hmate, -⟩ := hm.mates g hg h hh hk
      exact hmate.imports)
  obtain ⟨ρr, hr, hrf⟩ := @exists_sheet_renaming a.store.files b.store.files
    (fun g => (a.store.relationshipsIn g.id).map (·.id))
    (fun h => (b.store.relationshipsIn h.id).map (·.id)) c.relationships hkey
    (fun g hg g' hg' i hi hi' => ha.file_eq hg hg' (file_unique ha.relationships.nodup hi hi'))
    (fun g _ => hsub _ ha.relationships.nodup)
    (fun g hg h hh hk => by
      obtain ⟨x, y, -, -, hmate, -⟩ := hm.mates g hg h hh hk
      exact hmate.relationships)
  obtain ⟨ρu, hu, huf⟩ := @exists_sheet_renaming a.store.files b.store.files
    (fun g => (a.store.referencesIn g.id).map (·.id))
    (fun h => (b.store.referencesIn h.id).map (·.id)) c.references hkey
    (fun g hg g' hg' i hi hi' => ha.file_eq hg hg' (file_unique ha.references.nodup hi hi'))
    (fun g _ => hsub _ ha.references.nodup)
    (fun g hg h hh hk => by
      obtain ⟨x, y, -, -, hmate, -⟩ := hm.mates g hg h hh hk
      exact hmate.references)
  refine ⟨⟨ρf, ρs, ρi, ρr, ρu⟩, ⟨fun g hg h hh hk => ?_, hs, hi, hr, hu⟩, ⟨hff, hsf, hif, hrf, huf⟩⟩
  exact List.singleton_injective (hf g hg h hh hk)

/-! ## Links of one archive and the other -/

theorem Filing.first?_map {x y : Filing} {ρ : Int → Int} (ho : y.outline = x.outline)
    (hids : y.ids = x.ids.map ρ) (n : String) : y.first? n = (x.first? n).map ρ := by
  unfold Filing.first?
  rw [ho, hids, List.zip_map_right, List.find?_map, Option.map_map, Option.map_map]
  rfl

/-- The only id of a name goes with the only id of the name. -/
theorem uniqueId?_of_perm {s t : Store} {q : Int} {n : String} {ρ : Int → Int}
    (h : (t.idsNamed q n).Perm ((s.idsNamed q n).map ρ)) :
    t.uniqueId? q n = (s.uniqueId? q n).map ρ := by
  rw [Store.uniqueId?_eq_only?, Store.uniqueId?_eq_only?, only?_perm h, only?_map]

/-- A link to a symbol that was there before leads to where it did. -/
theorem Renaming.Fixes.link (hfix : ρ.Fixes c) {link : Option Int}
    (h : ∀ i, link = some i → i ≤ c.symbols) : link = link.map ρ.symbols := by
  cases link with
  | none => rfl
  | some i => rw [Option.map_some, hfix.symbols i (h i rfl)]

/-! ## The tables -/

/-- Two lists that go with a third, and whose ids go with each other. -/
theorem eq_map_of_forall₂ {α row : Type} {R R' : α → row → Prop} {key : row → Int} {k : row → row}
    {ρ : Int → Int} {l : List α} {L L' : List row} (h : List.Forall₂ R l L)
    (h' : List.Forall₂ R' l L') (hid : L'.map key = (L.map key).map ρ)
    (hk : ∀ a, ∀ r ∈ L, ∀ r' ∈ L', R a r → R' a r' → key r' = ρ (key r) → r' = k r) :
    L' = L.map k := by
  induction h generalizing L' with
  | nil => cases h'; rfl
  | @cons a r l L har _ ih =>
    cases h' with
    | @cons _ r' _ L' har' h' =>
      rw [List.map_cons, List.map_cons, List.map_cons] at hid
      obtain ⟨hkey, hid⟩ := List.cons.inj hid
      rw [List.map_cons, hk a r List.mem_cons_self r' List.mem_cons_self har har' hkey,
        ← ih h' hid fun a s hs s' hs' =>
          hk a s (List.mem_cons_of_mem _ hs) s' (List.mem_cons_of_mem _ hs')]

section Tables

variable (hm : Matched c p a b) (hρ : Guides ρ a b)
include hm hρ

/-- A file with its new id is its mate. -/
theorem Matched.rename_eq (hg : g ∈ a.store.files) (hh : h ∈ b.store.files) (hk : SameKey g h) :
    g.rename ρ = h := by
  obtain ⟨x, y, -, -, hmate, -⟩ := hm.mates g hg h hh hk
  rw [FileRow.rename, ← hρ.files g hg h hh hk]
  exact hmate.row.symm

theorem Matched.files_perm : b.store.files.Perm (a.store.files.map (·.rename ρ)) := by
  have hnd : (a.store.files.map (·.rename ρ)).Nodup := by
    refine List.Nodup.map_on (fun g hg g' hg' he => ?_) hm.left.sound.keyed.files.nodup.of_map
    have hproject : (g.rename ρ).projectId = (g'.rename ρ).projectId := by rw [he]
    have hpath : (g.rename ρ).relativePath = (g'.rename ρ).relativePath := by rw [he]
    exact hm.left.sound.keyed.file_eq_of_path hg hg' hproject hpath
  refine (List.perm_ext_iff_of_nodup hm.right.sound.keyed.files.nodup.of_map hnd).mpr fun h => ?_
  rw [List.mem_map]
  constructor
  · intro hh
    obtain ⟨g, hg, hk⟩ := hm.keys' h hh
    exact ⟨g, hg, hm.rename_eq hρ hg hh hk⟩
  · rintro ⟨g, hg, rfl⟩
    obtain ⟨h, hh, hk⟩ := hm.keys g hg
    rw [hm.rename_eq hρ hg hh hk]
    exact hh

/-- A table is that of the other archive with new ids if this holds for the rows of mates. -/
theorem Matched.table_perm {row : Type} (file : row → Int) {k : row → row} {rows rows' : List row}
    (hrows : ∀ r ∈ rows, a.store.HasFile (file r)) (hrows' : ∀ r ∈ rows', b.store.HasFile (file r))
    (hmates : ∀ g ∈ a.store.files, ∀ h ∈ b.store.files, SameKey g h →
      (rows'.filter (file · == h.id)).Perm ((rows.filter (file · == g.id)).map k)) :
    rows'.Perm (rows.map k) := by
  refine @CodeAtlas.table_perm ρ row file _ _ _ _ k (hm.files_perm hρ) hm.left.sound.keyed.files.nodup
    hm.right.sound.keyed.files.nodup (fun r hr => ?_) (fun r hr => ?_) fun g hg => ?_
  · obtain ⟨g, hg, hgi⟩ := hrows r hr
    exact List.mem_map.mpr ⟨g, hg, hgi⟩
  · obtain ⟨g, hg, hgi⟩ := hrows' r hr
    exact List.mem_map.mpr ⟨g, hg, hgi⟩
  · obtain ⟨h, hh, hk⟩ := hm.keys g hg
    rw [← hρ.files g hg h hh hk]
    exact hmates g hg h hh hk

theorem Matched.symbols_perm : b.store.symbols.Perm (a.store.symbols.map (·.rename ρ)) := by
  refine hm.table_perm hρ SymbolRow.fileId hm.left.sound.owned.symbols
    hm.right.sound.owned.symbols fun g hg h hh hk => ?_
  obtain ⟨x, y, hx, hy, hmate, -⟩ := hm.mates g hg h hh hk
  obtain ⟨rows, rows', hids, hids', hmem, hmem', htwin⟩ := hmate.symbols
  have hsheet := hρ.symbols g hg h hh hk
  rw [Archive.idsOf_eq hx, Archive.idsOf_eq hy, ← hids, ← hids'] at hsheet
  have hrows : rows' = rows.map (·.rename ρ) := by
    refine eq_map_of_forall₂ (List.forall₂_same.mpr fun r _ => rfl) htwin hsheet ?_
    rintro r _ hr r' hr' rfl ht hid
    refine SymbolRow.eq_rename ht.declaration ht.flaws hid ?_
    rw [(Store.mem_symbolsIn.mp (hmem' r' hr')).2, (Store.mem_symbolsIn.mp (hmem r hr)).2]
    exact hρ.files g hg h hh hk
  have hperm := (hmate.holds.rows_perm hm.left.sound.keyed hids hmem).map (·.rename ρ)
  rw [← hrows] at hperm
  exact (hmate.holds'.rows_perm hm.right.sound.keyed hids' hmem').symm.trans hperm

theorem Matched.imports_perm : b.store.imports.Perm (a.store.imports.map (·.rename ρ)) := by
  refine hm.table_perm hρ ImportRow.fileId hm.left.sound.owned.imports
    hm.right.sound.owned.imports fun g hg h hh hk => ?_
  obtain ⟨x, y, -, -, hmate, -⟩ := hm.mates g hg h hh hk
  have himp' := hmate.holds'.imports
  rw [hmate.outline] at himp'
  refine List.Perm.of_eq (eq_map_of_forall₂ hmate.holds.imports himp'
    (hρ.imports g hg h hh hk) ?_)
  rintro clause r hr r' hr' ⟨hc, hp⟩ ⟨hc', hp'⟩ hid
  obtain ⟨hr, hrg⟩ := Store.mem_importsIn.mp hr
  obtain ⟨hr', hrh⟩ := Store.mem_importsIn.mp hr'
  refine ImportRow.eq_rename (hc'.trans hc.symm) (hp'.trans (hk.2.symm.trans hp.symm)) ?_ hid ?_
  · rw [hm.left.sound.flawless.imports r hr, hm.right.sound.flawless.imports r' hr']
  · rw [hrg, hrh]
    exact hρ.files g hg h hh hk

/-! ## Links -/

/-- The symbols of a name are those of the other archive with their new ids. -/
theorem Matched.idsNamed_perm (q : Int) (n : String) :
    (b.store.idsNamed q n).Perm ((a.store.idsNamed q n).map ρ.symbols) := by
  have howns : ∀ r ∈ a.store.symbols,
      b.store.ownsFile q (ρ.files r.fileId) = a.store.ownsFile q r.fileId := by
    intro r hr
    obtain ⟨g, hg, hgr⟩ := hm.left.sound.owned.symbols r hr
    obtain ⟨h, hh, hk⟩ := hm.keys g hg
    rw [← hgr, ← hρ.files g hg h hh hk, Bool.eq_iff_iff, Store.ownsFile_iff, Store.ownsFile_iff]
    constructor
    · rintro ⟨h', hh', hid, hq⟩
      rw [hm.right.sound.keyed.file_eq hh' hh hid] at hq
      exact ⟨g, hg, rfl, hk.1.trans hq⟩
    · rintro ⟨g', hg', hid, hq⟩
      rw [hm.left.sound.keyed.file_eq hg' hg hid] at hq
      exact ⟨h, hh, rfl, hk.1.symm.trans hq⟩
  have hperm := ((hm.symbols_perm hρ).filter fun r =>
    r.name == n && b.store.ownsFile q r.fileId).map fun r : SymbolRow => r.id
  rw [List.filter_map, List.map_map] at hperm
  have hfilter : a.store.symbols.filter
      ((fun r => r.name == n && b.store.ownsFile q r.fileId) ∘ (·.rename ρ)) =
        a.store.symbols.filter fun r => r.name == n && a.store.ownsFile q r.fileId := by
    refine List.filter_congr fun r hr => ?_
    rw [← howns r hr]
    rfl
  rw [hfilter] at hperm
  unfold Store.idsNamed
  rw [List.map_map]
  exact hperm

/-- **Canonical links agree.** -/
theorem Matched.canonical?_eq (q : Int) (n : String) (ho : y.outline = x.outline)
    (hids : y.ids = x.ids.map ρ.symbols) :
    b.store.canonical? q y n = (a.store.canonical? q x n).map ρ.symbols := by
  unfold Store.canonical?
  rw [Filing.first?_map ho hids, uniqueId?_of_perm (hm.idsNamed_perm hρ q n)]
  cases x.first? n <;> rfl

theorem Matched.relationships_perm (hfix : ρ.Fixes c) :
    b.store.relationships.Perm (a.store.relationships.map (·.rename ρ)) := by
  refine hm.table_perm hρ RelationshipRow.fileId hm.left.sound.owned.relationships
    hm.right.sound.owned.relationships fun g hg h hh hk => ?_
  obtain ⟨x, y, hx, hy, hmate, hlinks⟩ := hm.mates g hg h hh hk
  have hfile : h.id = ρ.files g.id := hρ.files g hg h hh hk
  have hids : y.ids = x.ids.map ρ.symbols := by
    rw [← Archive.idsOf_eq hx, ← Archive.idsOf_eq hy]
    exact hρ.symbols g hg h hh hk
  refine List.Perm.of_eq ?_
  rcases hlinks with hline | habroad
  · have hedges' := hmate.holds'.edges
    rw [hmate.outline] at hedges'
    refine eq_map_of_forall₂ hmate.holds.edges hedges' (hρ.relationships g hg h hh hk) ?_
    intro e r hr r' hr' hs hs' hid
    obtain ⟨hr, hrg⟩ := Store.mem_relationshipsIn.mp hr
    obtain ⟨hr', hrh⟩ := Store.mem_relationshipsIn.mp hr'
    have hedge : r'.toEdge = r.toEdge := hs'.edge.trans hs.edge.symm
    refine RelationshipRow.eq_rename hedge (hs'.path.trans (hk.2.symm.trans hs.path.symm)) ?_ hid
      (by rw [hrg, hrh, hfile]) ?_ ?_
    · rw [hm.left.sound.flawless.relationships r hr, hm.right.sound.flawless.relationships r' hr']
    · rw [hline.settled'.sources r' hr' hrh, hline.settled.sources r hr hrg, hedge]
      exact hm.canonical?_eq hρ p _ hmate.outline hids
    · rw [hline.settled'.targets r' hr' hrh, hline.settled.targets r hr hrg, hedge]
      exact hm.canonical?_eq hρ p _ hmate.outline hids
  · rw [show b.store.relationships.filter (·.fileId == h.id) = a.store.relationships.filter
      (·.fileId == g.id) from habroad.relationships]
    refine (List.map_id _).symm.trans (List.map_congr_left fun r hr => ?_)
    obtain ⟨hid, hsource, htarget⟩ := habroad.oldEdges r hr
    have hrg := (Store.mem_relationshipsIn.mp hr).2
    have hrh : r ∈ b.store.relationshipsIn h.id := by rw [habroad.relationships]; exact hr
    replace hrh := (Store.mem_relationshipsIn.mp hrh).2
    refine RelationshipRow.eq_rename rfl rfl rfl (hfix.relationships _ hid).symm ?_
      (hfix.link hsource) (hfix.link htarget)
    rw [hrg, ← hfile]
    exact hrh

theorem Matched.references_perm (hfix : ρ.Fixes c) :
    b.store.references.Perm (a.store.references.map (·.rename ρ)) := by
  refine hm.table_perm hρ ReferenceRow.fileId hm.left.sound.owned.references
    hm.right.sound.owned.references fun g hg h hh hk => ?_
  obtain ⟨x, y, hx, hy, hmate, hlinks⟩ := hm.mates g hg h hh hk
  have hfile : h.id = ρ.files g.id := hρ.files g hg h hh hk
  have hids : y.ids = x.ids.map ρ.symbols := by
    rw [← Archive.idsOf_eq hx, ← Archive.idsOf_eq hy]
    exact hρ.symbols g hg h hh hk
  refine List.Perm.of_eq ?_
  rcases hlinks with hline | habroad
  · have huses' := hmate.holds'.uses
    rw [hmate.outline] at huses'
    refine eq_map_of_forall₂ hmate.holds.uses huses' (hρ.references g hg h hh hk) ?_
    intro u r hr r' hr' hs hs' hid
    obtain ⟨hr, hrg⟩ := Store.mem_referencesIn.mp hr
    obtain ⟨hr', hrh⟩ := Store.mem_referencesIn.mp hr'
    have huse := hs'.use.trans hs.use.symm
    have htarget : r'.target = r.target := congrArg Use.target huse
    refine ReferenceRow.eq_rename huse (hs'.path.trans (hk.2.symm.trans hs.path.symm)) ?_ hid
      (by rw [hrg, hrh, hfile]) ?_ ?_
    · rw [hm.left.sound.flawless.references r hr, hm.right.sound.flawless.references r' hr']
    · rw [hs'.source, hs.source]
      cases u.source with
      | none => rfl
      | some n => exact Filing.first?_map hmate.outline hids n
    · rw [hline.settled'.uses r' hr' hrh, hline.settled.uses r hr hrg, htarget]
      exact hm.canonical?_eq hρ p _ hmate.outline hids
  · rw [show b.store.references.filter (·.fileId == h.id) = a.store.references.filter
      (·.fileId == g.id) from habroad.references]
    refine (List.map_id _).symm.trans (List.map_congr_left fun r hr => ?_)
    obtain ⟨hid, hsource, htarget⟩ := habroad.oldUses r hr
    have hrg := (Store.mem_referencesIn.mp hr).2
    have hrh : r ∈ b.store.referencesIn h.id := by rw [habroad.references]; exact hr
    replace hrh := (Store.mem_referencesIn.mp hrh).2
    refine ReferenceRow.eq_rename (n := none) rfl rfl rfl (hfix.references _ hid).symm ?_
      (hfix.link hsource) (hfix.link htarget)
    rw [hrg, ← hfile]
    exact hrh

end Tables

theorem nodup_of_perm_rename {row : Type} {key : row → Int} {k : row → row} {ρ : Int → Int}
    {rows rows' : List row} (h : rows'.Perm (rows.map k)) (hk : ∀ r, key (k r) = ρ (key r))
    (hnd : (rows'.map key).Nodup) : (rows.map fun r => ρ (key r)).Nodup := by
  have hmap := (h.map key).nodup_iff.mp hnd
  rw [List.map_map] at hmap
  convert hmap using 1
  exact List.map_congr_left fun r _ => (hk r).symm

/-- **Two archives that are matched differ in ids only**, and only in ids that were given out later. -/
theorem Matched.exists_renames (hm : Matched c p a b) :
    ∃ ρ : Renaming, ρ.Fixes c ∧ Store.Renames ρ a.store b.store := by
  obtain ⟨ρ, hρ, hfix⟩ := hm.exists_guides
  have hb := hm.right.sound.keyed
  have hf := hm.files_perm hρ
  have hs := hm.symbols_perm hρ
  have hi := hm.imports_perm hρ
  have hr := hm.relationships_perm hρ hfix
  have hu := hm.references_perm hρ hfix
  exact ⟨ρ, hfix, hf, hs, hi, hr, hu,
    nodup_of_perm_rename hf (fun _ => rfl) hb.files.nodup,
    nodup_of_perm_rename hs (fun _ => rfl) hb.symbols.nodup,
    nodup_of_perm_rename hi (fun _ => rfl) hb.imports.nodup,
    nodup_of_perm_rename hr (fun _ => rfl) hb.relationships.nodup,
    nodup_of_perm_rename hu (fun _ => rfl) hb.references.nodup⟩

end CodeAtlas
