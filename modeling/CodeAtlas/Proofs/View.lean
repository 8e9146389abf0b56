import CodeAtlas.Proofs.FullRun

/-!
# A project without its ids

* `Store.view`: what a store holds of a project, with paths and places instead of ids.
* `View.ofDocs`: the same, computed from the files and their outlines alone. A link leads to the first
  declaration of its name in its file, or else to the only one in all files.
* `Archive.Mirrors`: an archive holds some files and nothing else.
* **`Mirrors.view_same`**: then its view is the one that is computed from the files.
-/

namespace CodeAtlas

open scoped List

/-! ## Views -/

/-- What is shown of a file. -/
structure FileView where
  path : String
  language : String
  size : Nat
  linesOfCode : Nat
  hash : String

/-- What is shown of a file before or after it is stored. -/
def SourceFile.view (f : SourceFile) : FileView :=
  ⟨f.relativePath, f.language, f.size, f.linesOfCode, f.hash⟩

/-- Where a symbol stands. -/
structure Site where
  path : String
  name : String
  kind : SymbolKind
  range : Range

/-- Where a declaration stands in the file at a path. -/
def Declaration.site (path : String) (d : Declaration) : Site := ⟨path, d.name, d.kind, d.range⟩

/-- What is shown of an edge. -/
structure EdgeView where
  path : String
  edge : Edge
  source : Option Site
  target : Option Site

/-- What is shown of a use. -/
structure UseView where
  path : String
  kind : UseKind
  target : String
  qualifier : Option String
  line : Nat
  column : Nat
  user : Option Site
  used : Option Site

/-- What is shown of a project. -/
structure View where
  files : List FileView
  symbols : List (Site × String)
  imports : List (String × ImportClause)
  relationships : List EdgeView
  references : List UseView
  languages : List (String × Nat)

/-- **Two views show the same**, in any order. -/
structure View.Same (v w : View) : Prop where
  files : v.files.Perm w.files
  symbols : v.symbols.Perm w.symbols
  imports : v.imports.Perm w.imports
  relationships : v.relationships.Perm w.relationships
  references : v.references.Perm w.references
  languages : v.languages = w.languages

theorem View.Same.symm {v w : View} (h : v.Same w) : w.Same v :=
  ⟨h.files.symm, h.symbols.symm, h.imports.symm, h.relationships.symm, h.references.symm,
    h.languages.symm⟩

theorem View.Same.trans {v w x : View} (h : v.Same w) (h' : w.Same x) : v.Same x :=
  ⟨h.files.trans h'.files, h.symbols.trans h'.symbols, h.imports.trans h'.imports,
    h.relationships.trans h'.relationships, h.references.trans h'.references,
    h.languages.trans h'.languages⟩

namespace Store

/-- The path of a file. -/
def pathOf (s : Store) (i : Int) : String :=
  ((s.files.find? (·.id == i)).map (·.relativePath)).getD ""

/-- Where a symbol of the store stands. -/
def siteOf (s : Store) (r : SymbolRow) : Site := r.site (s.pathOf r.fileId)

/-- Where a link leads. -/
def siteAt? (s : Store) (link : Option Int) : Option Site :=
  (link.bind fun i => s.symbols.find? (·.id == i)).map s.siteOf

/-- What is shown of a symbol. -/
def symbolView (s : Store) (r : SymbolRow) : Site × String := (s.siteOf r, r.contentHash)

/-- What is shown of an import. -/
def importView (s : Store) (r : ImportRow) : String × ImportClause :=
  (s.pathOf r.fileId, r.toImportClause)

/-- What is shown of an edge. -/
def edgeView (s : Store) (r : RelationshipRow) : EdgeView :=
  ⟨s.pathOf r.fileId, r.toEdge, s.siteAt? r.sourceId, s.siteAt? r.targetId⟩

/-- What is shown of a use. -/
def useView (s : Store) (r : ReferenceRow) : UseView :=
  ⟨s.pathOf r.fileId, r.kind, r.target, r.qualifier, r.line, r.column, s.siteAt? r.sourceId,
    s.siteAt? r.targetId⟩

/-- The rows of a table that belong to a project. -/
def owned {row : Type} (s : Store) (p : Int) (file : row → Int) (rows : List row) : List row :=
  rows.filter fun r => s.ownsFile p (file r)

/-- **What a store holds of a project.** -/
def view (s : Store) (p : Int) : View where
  files := (s.files.filter (·.projectId == p)).map fun f => f.view
  symbols := (s.owned p (·.fileId) s.symbols).map s.symbolView
  imports := (s.owned p (·.fileId) s.imports).map s.importView
  relationships := (s.owned p (·.fileId) s.relationships).map s.edgeView
  references := (s.owned p (·.fileId) s.references).map s.useView
  languages := ((s.projects.find? (·.id == p)).map (·.languageStats)).getD []

end Store

/-! ## Views of files -/

namespace Parsed

/-- Where the declarations of a file stand. -/
def sites (x : Parsed) : List Site := x.2.symbols.map (·.site x.1.relativePath)

/-- The first declaration of a name in a file. -/
def first? (x : Parsed) (n : String) : Option Site := x.sites.find? (·.name == n)

/-- **Where a link has to lead.** -/
def link? (docs : List Parsed) (x : Parsed) (n : String) : Option Site :=
  (x.first? n).or (only? ((docs.flatMap sites).filter (·.name == n)))

/-- What is shown of a use. -/
def useView (docs : List Parsed) (x : Parsed) (u : Use) : UseView :=
  ⟨x.1.relativePath, u.kind, u.target, u.qualifier, u.line, u.column, u.source.bind x.first?,
    link? docs x u.target⟩

/-- What is shown of an edge. -/
def edgeView (docs : List Parsed) (x : Parsed) (e : Edge) : EdgeView :=
  ⟨x.1.relativePath, e, link? docs x e.source, link? docs x e.target⟩

end Parsed

/-- **What files show.** -/
def View.ofDocs (docs : List Parsed) : View where
  files := docs.map fun x => x.1.view
  symbols := docs.flatMap fun x =>
    x.2.symbols.map fun d => (d.site x.1.relativePath, d.contentHash)
  imports := docs.flatMap fun x => x.2.imports.map fun c => (x.1.relativePath, c)
  relationships := docs.flatMap fun x => x.2.edges.map (Parsed.edgeView docs x)
  references := docs.flatMap fun x => x.2.uses.map (Parsed.useView docs x)
  languages := countLanguages (docs.map fun x => x.1.language)

/-! ## Places -/

namespace Store

variable {s : Store} {f : FileRow} {r : SymbolRow}

theorem pathOf_id (hs : s.Keyed) (hf : f ∈ s.files) : s.pathOf f.id = f.relativePath := by
  rw [pathOf, find?_key hs.files.nodup hf]
  rfl

theorem siteAt?_id (hs : s.Keyed) (hr : r ∈ s.symbols) : s.siteAt? (some r.id) = some (s.siteOf r) := by
  rw [siteAt?, Option.bind_some, find?_key hs.symbols.nodup hr]
  rfl

/-- A row stands where its declaration does. -/
theorem siteOf_eq (hs : s.Keyed) (hf : f ∈ s.files) (hr : r ∈ s.symbolsIn f.id) {d : Declaration}
    (hd : r.toDeclaration.shape = d.shape) : s.siteOf r = d.site f.relativePath := by
  simp only [Declaration.shape, Prod.mk.injEq] at hd
  rw [siteOf, (mem_symbolsIn.mp hr).2, pathOf_id hs hf, Declaration.site, Declaration.site, hd.1,
    hd.2.1, hd.2.2.1]

/-- A link to the first declaration of a name leads to where the declaration stands. -/
theorem siteAt?_first? (hs : s.Keyed) (hf : f ∈ s.files) {y : Filing} (h : s.Holds f y) (n : String) :
    s.siteAt? (y.first? n) =
      (y.outline.symbols.map (·.site f.relativePath)).find? (·.name == n) := by
  obtain ⟨rows, hids, hmem, hshape⟩ := h.exists_rows
  unfold Filing.first?
  rw [← hids]
  generalize y.outline.symbols = ds at hshape
  clear hids
  induction hshape with
  | nil => rfl
  | @cons d r ds rows hd _ ih =>
    have hr := hmem r List.mem_cons_self
    simp only [List.map_cons, List.zip_cons_cons, List.find?_cons]
    have hname : (d.site f.relativePath).name = d.name := rfl
    rw [hname]
    cases hn : d.name == n with
    | true =>
      rw [Option.map_some, siteAt?_id hs (mem_symbolsIn.mp hr).1, siteOf_eq hs hf hr hd]
    | false => exact ih fun r hr => hmem r (List.mem_cons_of_mem _ hr)

end Store

/-! ## Archives that hold some files -/

namespace Archive

variable {p : Int} {docs : List Parsed} {a : Archive} {f : FileRow} {x : Parsed} {y : Filing}

/-- A file shows what was read of it, and its links are in line. -/
structure Shows (p : Int) (a : Archive) (f : FileRow) (x : Parsed) (y : Filing) : Prop where
  file : f ∈ a.store.files
  project : f.projectId = p
  view : f.view = x.1.view
  holds : a.store.Holds f y
  outline : y.outline = x.2
  settled : a.store.Settled p f y

/-- **An archive holds some files of a project and nothing else of it.** -/
structure Mirrors (p : Int) (docs : List Parsed) (a : Archive) : Prop where
  faithful : a.Faithful
  distinct : (logPaths docs).Nodup
  shown : ∀ f ∈ a.store.files, f.projectId = p → ∃ x ∈ docs, ∃ y, Shows p a f x y
  kept : ∀ x ∈ docs, ∃ f ∈ a.store.files, f.projectId = p ∧ f.relativePath = x.1.relativePath
  project : ∃ r ∈ a.store.projects, r.id = p
  counted : ∀ r ∈ a.store.projects, r.id = p → r.languageStats = a.store.languageCounts p

theorem Shows.path (h : Shows p a f x y) : f.relativePath = x.1.relativePath :=
  congrArg FileView.path h.view

/-- The files of a project go with those that it holds. -/
theorem Mirrors.exists_docs (h : a.Mirrors p docs) : ∃ docs' : List Parsed, docs'.Perm docs ∧
    List.Forall₂ (fun f x => ∃ y, Shows p a f x y) (a.store.files.filter (·.projectId == p)) docs' := by
  classical
  set F := a.store.files.filter (·.projectId == p) with hF
  have hmem : ∀ f, f ∈ F ↔ f ∈ a.store.files ∧ f.projectId = p := fun f => by simp [hF]
  have hex : ∀ f, ∃ x, f ∈ F → x ∈ docs ∧ ∃ y, Shows p a f x y := by
    intro f
    by_cases hf : f ∈ F
    · obtain ⟨hfile, hp⟩ := (hmem f).mp hf
      obtain ⟨x, hx, hy⟩ := h.shown f hfile hp
      exact ⟨x, fun _ => ⟨hx, hy⟩⟩
    · exact ⟨default, fun hf' => absurd hf' hf⟩
  choose g hg using hex
  have hpaths : logPaths (F.map g) = F.map (·.relativePath) := by
    rw [logPaths, List.map_map]
    refine List.map_congr_left fun f hf => ?_
    obtain ⟨-, y, hy⟩ := hg f hf
    exact hy.path.symm
  have hkey : (F.map (·.relativePath)).Nodup := by
    refine List.Nodup.map_on (fun f hf f' hf' he => ?_)
      (h.faithful.sound.keyed.files.nodup.of_map.sublist List.filter_sublist)
    obtain ⟨hfile, hp⟩ := (hmem f).mp hf
    obtain ⟨hfile', hp'⟩ := (hmem f').mp hf'
    exact h.faithful.sound.keyed.file_eq_of_path hfile hfile' (hp.trans hp'.symm) he
  have hnd : (F.map g).Nodup := by
    rw [← hpaths] at hkey
    exact hkey.of_map
  refine ⟨F.map g, (List.perm_ext_iff_of_nodup hnd h.distinct.of_map).mpr fun x => ?_, ?_⟩
  · rw [List.mem_map]
    constructor
    · rintro ⟨f, hf, rfl⟩
      exact (hg f hf).1
    · intro hx
      obtain ⟨f, hfile, hp, hr⟩ := h.kept x hx
      have hf : f ∈ F := (hmem f).mpr ⟨hfile, hp⟩
      obtain ⟨hgx, y, hy⟩ := hg f hf
      exact ⟨f, hf, List.inj_on_of_nodup_map h.distinct hgx hx (hy.path.symm.trans hr)⟩
  · rw [List.forall₂_map_right_iff]
    exact List.forall₂_same.mpr fun f hf => (hg f hf).2

theorem flatMap_perm_of_forall₂ {α β γ : Type} {R : α → β → Prop} {l : List α} {l' : List β}
    {g : α → List γ} {k : β → List γ} (h : List.Forall₂ R l l')
    (hR : ∀ a b, R a b → (g a).Perm (k b)) : (l.flatMap g).Perm (l'.flatMap k) := by
  induction h with
  | nil => exact List.Perm.refl _
  | cons hab _ ih =>
    rw [List.flatMap_cons, List.flatMap_cons]
    exact (hR _ _ hab).append ih

/-- **A table shows what files show if the rows of each file do.** -/
theorem Mirrors.table (h : a.Mirrors p docs) {row shown : Type} (file : row → Int)
    {rows : List row} {v : row → shown} {k : Parsed → List shown}
    (hk : ∀ f x y, Shows p a f x y → ((rows.filter (file · == f.id)).map v).Perm (k x)) :
    ((a.store.owned p file rows).map v).Perm (docs.flatMap k) := by
  obtain ⟨docs', hperm, hshow⟩ := h.exists_docs
  set F := a.store.files.filter (·.projectId == p) with hF
  have hmem : ∀ f, f ∈ F ↔ f ∈ a.store.files ∧ f.projectId = p := fun f => by simp [hF]
  have hnd : (F.map (·.id)).Nodup :=
    h.faithful.sound.keyed.files.nodup.sublist (List.filter_sublist.map _)
  have hrows : ∀ r ∈ a.store.owned p file rows, file r ∈ F.map (·.id) := by
    intro r hr
    obtain ⟨f, hf, hid, hp⟩ := Store.ownsFile_iff.mp (List.mem_filter.mp hr).2
    exact List.mem_map.mpr ⟨f, (hmem f).mpr ⟨hf, hp⟩, hid⟩
  have hfilter : ∀ f ∈ F, (a.store.owned p file rows).filter (file · == f.id) =
      rows.filter (file · == f.id) := by
    intro f hf
    obtain ⟨hfile, hp⟩ := (hmem f).mp hf
    refine @Store.filter_fileId_filter _ file (a.store.ownsFile p) f.id ?_ rows
    exact Store.ownsFile_iff.mpr ⟨f, hfile, rfl, hp⟩
  calc (a.store.owned p file rows).map v
      _ ~ ((F.map (·.id)).flatMap fun i => (a.store.owned p file rows).filter (file · == i)).map v :=
        (perm_flatMap_filter hnd hrows).map v
      _ ~ F.flatMap fun f => (rows.filter (file · == f.id)).map v := by
        rw [List.map_flatMap, List.flatMap_map]
        exact List.Perm.of_eq (List.flatMap_congr fun f hf => by rw [hfilter f hf])
      _ ~ docs'.flatMap k := flatMap_perm_of_forall₂ hshow fun f x ⟨y, hy⟩ => hk f x y hy
      _ ~ docs.flatMap k := hperm.flatMap_right k

/-! ## The tables -/

section Tables

variable (h : a.Mirrors p docs)
include h

theorem Mirrors.files : (a.store.view p).files.Perm (View.ofDocs docs).files := by
  obtain ⟨docs', hperm, hshow⟩ := h.exists_docs
  have hmap : docs'.map (fun x => x.1.view) =
      (a.store.files.filter (·.projectId == p)).map fun f => f.view :=
    map_eq_of_forall₂ hshow fun f x _ ⟨y, hy⟩ => hy.view.symm
  change List.Perm (List.map _ _) (docs.map fun x => x.1.view)
  rw [← hmap]
  exact hperm.map _

theorem Mirrors.symbols : (a.store.view p).symbols.Perm (View.ofDocs docs).symbols := by
  refine h.table (fun r : SymbolRow => r.fileId) fun f x y hy => ?_
  have hs := h.faithful.sound.keyed
  obtain ⟨rows, hids, hmem, hshape⟩ := hy.holds.exists_rows
  rw [hy.outline] at hshape
  refine ((hy.holds.rows_perm hs hids hmem).map _).symm.trans (List.Perm.of_eq ?_)
  refine map_eq_of_forall₂ hshape fun d r hr hd => ?_
  rw [Store.symbolView, Store.siteOf_eq hs hy.file (hmem r hr) hd, hy.path]
  simp only [Declaration.shape, Prod.mk.injEq] at hd
  rw [hd.2.2.2]

theorem Mirrors.imports : (a.store.view p).imports.Perm (View.ofDocs docs).imports := by
  refine h.table (fun r : ImportRow => r.fileId) fun f x y hy => List.Perm.of_eq ?_
  have himp := hy.holds.imports
  rw [hy.outline] at himp
  refine map_eq_of_forall₂ himp fun c r hr hc => ?_
  rw [Store.importView, (Store.mem_importsIn.mp hr).2,
    Store.pathOf_id h.faithful.sound.keyed hy.file, hy.path, hc.1]

/-- The symbols of a name stand where the files say. -/
theorem Mirrors.idsNamed (n : String) :
    ((a.store.idsNamed p n).map fun i => a.store.siteAt? (some i)).Perm
      (((docs.flatMap Parsed.sites).filter (·.name == n)).map some) := by
  have hsites : ((a.store.owned p (·.fileId) a.store.symbols).map a.store.siteOf).Perm
      (docs.flatMap Parsed.sites) := by
    have hsites : docs.flatMap Parsed.sites = (View.ofDocs docs).symbols.map Prod.fst := by
      change _ = (docs.flatMap _).map _
      rw [List.map_flatMap]
      refine List.flatMap_congr fun x _ => ?_
      rw [List.map_map]
      rfl
    have hperm := h.symbols.map Prod.fst
    rw [← hsites] at hperm
    change ((List.map _ _).map _).Perm _ at hperm
    rwa [List.map_map] at hperm
  have hfilter := ((hsites.filter (·.name == n)).map some)
  rw [List.filter_map, List.map_map] at hfilter
  refine List.Perm.trans (List.Perm.of_eq ?_) hfilter
  unfold Store.idsNamed Store.owned
  rw [List.map_map, List.filter_filter]
  refine (List.map_congr_left fun r hr => ?_)
  exact Store.siteAt?_id h.faithful.sound.keyed (List.mem_of_mem_filter hr)

/-- **A link that is in line leads to where the files say.** -/
theorem Mirrors.siteAt?_canonical? (hy : Shows p a f x y) (n : String) :
    a.store.siteAt? (a.store.canonical? p y n) = Parsed.link? docs x n := by
  have hfirst := Store.siteAt?_first? h.faithful.sound.keyed hy.file hy.holds n
  rw [hy.outline, hy.path] at hfirst
  unfold Store.canonical? Parsed.link?
  rw [Parsed.first?, Parsed.sites, ← hfirst]
  cases hn : y.first? n with
  | some i =>
    obtain ⟨r, hr, hri, -⟩ := hy.holds.first?_row hn
    rw [Option.some_or, ← hri, Store.siteAt?_id h.faithful.sound.keyed hr, Option.some_or]
  | none =>
    rw [Option.none_or]
    change _ = (none : Option Site).or _
    rw [Option.none_or]
    have honly := only?_perm (h.idsNamed n)
    rw [only?_map, only?_map, ← Store.uniqueId?_eq_only?] at honly
    cases hu : a.store.uniqueId? p n with
    | some i =>
      rw [hu, Option.map_some] at honly
      obtain ⟨s, hs, he⟩ := Option.map_eq_some_iff.mp honly.symm
      rw [hs, he]
    | none =>
      rw [hu, Option.map_none] at honly
      rw [Option.map_eq_none_iff.mp honly.symm]
      rfl

theorem Mirrors.relationships :
    (a.store.view p).relationships.Perm (View.ofDocs docs).relationships := by
  refine h.table (fun r : RelationshipRow => r.fileId) fun f x y hy => List.Perm.of_eq ?_
  have hedges := hy.holds.edges
  rw [hy.outline] at hedges
  refine map_eq_of_forall₂ hedges fun e r hr he => ?_
  obtain ⟨hr, hrf⟩ := Store.mem_relationshipsIn.mp hr
  rw [Store.edgeView, hrf, Store.pathOf_id h.faithful.sound.keyed hy.file, hy.path,
    hy.settled.sources r hr hrf, hy.settled.targets r hr hrf, h.siteAt?_canonical? hy,
    h.siteAt?_canonical? hy, he.edge]
  rfl

theorem Mirrors.references :
    (a.store.view p).references.Perm (View.ofDocs docs).references := by
  refine h.table (fun r : ReferenceRow => r.fileId) fun f x y hy => List.Perm.of_eq ?_
  have huses := hy.holds.uses
  rw [hy.outline] at huses
  refine map_eq_of_forall₂ huses fun u r hr hu => ?_
  obtain ⟨hr, hrf⟩ := Store.mem_referencesIn.mp hr
  have hsource : a.store.siteAt? r.sourceId = u.source.bind x.first? := by
    rw [hu.source]
    cases u.source with
    | none => rfl
    | some n =>
      have hfirst := Store.siteAt?_first? h.faithful.sound.keyed hy.file hy.holds n
      rw [hy.outline, hy.path] at hfirst
      exact hfirst
  rw [Store.useView, hrf, Store.pathOf_id h.faithful.sound.keyed hy.file, hy.path, hsource,
    hy.settled.uses r hr hrf, h.siteAt?_canonical? hy]
  obtain ⟨kind, source, target, qualifier, line, column⟩ := u
  have huse := hu.use
  simp only [Use.mk.injEq] at huse
  obtain ⟨h1, -, h2, h3, h4, h5⟩ := huse
  rw [h1, h2, h3, h4, h5]
  rfl

theorem Mirrors.languages : (a.store.view p).languages = (View.ofDocs docs).languages := by
  have hlang : ((a.store.files.filter (·.projectId == p)).map (·.language)).Perm
      (docs.map fun x => x.1.language) := by
    have hperm := h.files.map FileView.language
    change ((List.map _ _).map _).Perm ((List.map _ _).map _) at hperm
    rwa [List.map_map, List.map_map] at hperm
  obtain ⟨r, hr, hrp⟩ := h.project
  have hfind := find?_key h.faithful.sound.keyed.projects.nodup hr
  rw [hrp] at hfind
  change ((a.store.projects.find? (·.id == p)).map (·.languageStats)).getD [] = countLanguages _
  rw [hfind, Option.map_some, Option.getD_some, h.counted r hr hrp]
  exact countLanguages_perm hlang

end Tables

end Archive

end CodeAtlas
