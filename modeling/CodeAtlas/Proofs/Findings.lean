import CodeAtlas.Proofs.Affected
import CodeAtlas.Proofs.Direct
import CodeAtlas.Proofs.Reports
import CodeAtlas.Proofs.Walks

/-!
# What an audit finds

* `exists_audit`: an audit is made of the symbols, uses and imports of its project.
* `isUnused_iff`, `isOf_eq_linkMatches`: the uses that count for a symbol are those that are found by
  its name and id.
* **`Reachable.unused_iff`**: in a store with one project, a symbol that alone has its name is unused if
  its impact knows no use outside of it.
* `Store.Uncovered`: a name that is used on a line of a file, and neither defined in the project nor
  bound by an import of the file.
* `Reachable.isUndefined_iff`: when a use is undefined; its link does not matter.
* **`Reachable.undefined_iff`**: undefined references are the uncovered names, each once a line.
-/

namespace CodeAtlas

/-! ## Findings -/

/-- What is said of a symbol that nothing uses. -/
def Symbol.unusedFinding (d : Symbol) : Finding where
  severity := .warning
  message := d.kind.label ++ " '" ++ d.name ++ "' is never used"
  symbol := some d.name
  filePath := some d.filePath
  line := some d.range.startLine

/-- The place at which a name is used: the path, the name and the line. -/
def Reference.spot (u : Reference) : String × String × Nat := (u.filePath, u.target, u.line)

/-- What is said of a name that is undefined. -/
def undefinedFinding (spot : String × String × Nat) : Finding where
  severity := .error
  message := "undefined reference to '" ++ spot.2.1 ++ "'"
  symbol := some spot.2.1
  filePath := some spot.1
  line := some spot.2.2

section Predicates

variable {ds : List Symbol} {us : List Reference} {d : Symbol} {n : String}

theorem isEntryPoint_eq_false_iff :
    isEntryPoint n = false ↔ n ∉ entryPoints ∧ ¬ "test".toList <+: n.toList := by
  rw [isEntryPoint, Bool.or_eq_false_iff, ← Text.startsWith_iff, Bool.not_eq_true,
    List.contains_eq_mem, decide_eq_false_iff_not]

/-- **The uses of a symbol** are those that are found by its name and id. -/
theorem isOf_eq_linkMatches (u : Reference) :
    u.isOf d = Store.linkMatches d.name (some d.id) u.target u.targetId := by
  unfold Reference.isOf Store.linkMatches
  cases u.targetId <;> simp

theorem isUnused_iff : isUnused us d = true ↔
    d.isExported = false ∧ d.kind ≠ .field ∧ d.kind ≠ .moduleUnit ∧ isEntryPoint d.name = false ∧
      ∀ u ∈ us, u.isOf d = true → u.sourceId = some d.id := by
  simp only [isUnused, Bool.and_eq_true, Bool.not_eq_true', bne_iff_ne, ne_eq, List.all_eq_true,
    List.mem_filter, beq_iff_eq, and_imp, and_assoc]

theorem mem_unusedSymbols {f : Finding} : f ∈ unusedSymbols ds us ↔
    ∃ d ∈ ds, isUnused us d = true ∧ d.unusedFinding = f := by
  change f ∈ (ds.filter (isUnused us)).map Symbol.unusedFinding ↔ _
  simp only [List.mem_map, List.mem_filter, and_assoc]

theorem ImportClause.binds_eq_false_iff {i : ImportClause} : i.binds n = false ↔
    i.isWildcard = false ∧ i.bindingName ≠ n ∧ n ∉ i.names := by
  simp [binds, and_assoc]

end Predicates

namespace Store

variable {s : Store} {p : Int} {n : String}

/-! ## What an audit reads -/

/-- The uses in a project, by path, line and column. -/
def usesIn (s : Store) (p : Int) : List Reference :=
  useList (s.references.filter fun r => s.ownsFile p r.fileId)

/-- The imports of a project, by path and line. -/
def importList (s : Store) (p : Int) : List Import :=
  (sortBy (byPathAndLine (·.filePath) (·.startLine))
    (s.imports.filter fun r => s.ownsFile p r.fileId)).map (·.toImport)

theorem mem_usesIn {u : Reference} : u ∈ s.usesIn p ↔
    ∃ r ∈ s.references, s.ownsFile p r.fileId = true ∧ r.toReference = u := by
  simp only [usesIn, mem_useList, List.mem_filter, and_assoc]

theorem mem_importList {i : Import} : i ∈ s.importList p ↔
    ∃ r ∈ s.imports, s.ownsFile p r.fileId = true ∧ r.toImport = i := by
  simp only [importList, List.mem_map, mem_sortBy, List.mem_filter, and_assoc]

theorem mem_ofProject (h : s.Keyed) {d : Symbol} : d ∈ s.ofProject p ↔
    ∃ f ∈ s.files, ∃ r ∈ s.symbols, f.id = r.fileId ∧ f.projectId = p ∧
      d = r.sited f.relativePath := by
  simp only [ofProject, mem_listed h, beq_iff_eq]

theorem referencesOf_eq (h : s.Flawless) (p : Int) : s.referencesOf p = .ok (s.usesIn p) :=
  mapM_eq_ok fun r hr =>
    ReferenceRow.decode_eq (h.references r (List.mem_of_mem_filter (mem_sortBy.mp hr)))

theorem importsOf_eq (h : s.Flawless) (p : Int) : s.importsOf p = .ok (s.importList p) :=
  mapM_eq_ok fun r hr =>
    ImportRow.decode_eq (h.imports r (List.mem_of_mem_filter (mem_sortBy.mp hr)))

theorem exists_filesOf (h : s.Flawless) (p : Int) : ∃ fs, s.filesOf p = .ok fs :=
  ⟨_, mapM_eq_ok fun r hr =>
    FileRow.decode_eq (h.files r (List.mem_of_mem_filter (mem_sortBy.mp hr)))⟩

/-- **An audit always gives a report**, and finds what the symbols, uses and imports of the project
tell. -/
theorem exists_audit (h : s.Sound) (rule : ImportRule) (p : Int) : ∃ report,
    s.audit rule p = .ok report ∧
      report.unusedSymbols = unusedSymbols (s.ofProject p) (s.usesIn p) ∧
      report.undefinedReferences =
        undefinedReferences (s.ofProject p) (s.importList p) (s.usesIn p) := by
  obtain ⟨files, hfiles⟩ := exists_filesOf h.flawless p
  have hsymbols : s.symbolsOf p = .ok (s.ofProject p) := decodeByPath_eq h _
  have hedges : s.relationshipsOf p = _ := decodeEdges_eq h.flawless _
  unfold audit
  rw [hfiles, hsymbols, referencesOf_eq h.flawless, hedges, importsOf_eq h.flawless]
  exact ⟨_, rfl, rfl, rfl⟩

/-! ## Unused symbols -/

section Unused

variable {d e : Symbol} {q : ProjectRow}

/-- Where there is one project, every file is its own. -/
theorem ownsFile_of_only (h : s.Owned) (hq : s.projects = [q]) {i : Int} (hi : s.HasFile i) :
    s.ownsFile q.id i = true := by
  obtain ⟨f, hf, hfi⟩ := hi
  obtain ⟨x, hx, hxf⟩ := h.files f hf
  rw [hq, List.mem_singleton] at hx
  exact ownsFile_iff.mpr ⟨f, hf, hfi, by rw [← hxf, hx]⟩

/-- In a project that holds all uses, those of a symbol are the uses that count for it. -/
theorem useOf_iff_isOf (h : s.Sound) (hp : ∀ r ∈ s.references, s.ownsFile p r.fileId = true)
    {u : Reference} : s.UseOf d.name d.id u ↔ u ∈ s.usesIn p ∧ u.isOf d = true := by
  rw [useOf_iff h.flawless, mem_useList, mem_usesIn, isOf_eq_linkMatches]
  simp only [mem_matching]
  constructor
  · rintro ⟨r, ⟨hr, hm⟩, rfl⟩
    exact ⟨⟨r, hr, hp r hr, rfl⟩, hm⟩
  · rintro ⟨⟨r, hr, -, rfl⟩, hm⟩
    exact ⟨r, ⟨hr, hm⟩, rfl⟩

/-- A symbol of a project that has a name with one definition is this definition. -/
theorem eq_of_mem_ofProject (h : s.Keyed) (hone : s.DefinedOnce n) (hd : d ∈ s.named n)
    (he : e ∈ s.ofProject p) (hen : e.name = n) : e = d := by
  obtain ⟨f, hf, x, hx, hfx, hxn, rfl⟩ := (mem_named h).mp hd
  obtain ⟨g, hg, y, hy, hgy, -, rfl⟩ := (mem_ofProject h).mp he
  obtain rfl := hone.eq hx hxn hy hen
  rw [h.file_eq hf hg (hfx.trans hgy.symm)]

/-- **Unused symbols are those without a use in their impact.** After any writes that left one project,
a symbol that alone has its name is reported as unused, with its kind, name and place, exactly if it is
not exported, is no field or module, has no conventional name and none that starts with `test`, and all
uses in the impact of its name are in the symbol itself. -/
theorem Reachable.unused_iff (h : s.Reachable) (hq : s.projects = [q]) (hone : s.DefinedOnce n)
    (rule : ImportRule) (depth : Nat) :
    ∃ d report i, s.symbolsNamed n = .ok [d] ∧ s.audit rule q.id = .ok report ∧
      s.impact depth n = .ok i ∧
      (∀ f ∈ report.unusedSymbols, f.symbol = some n → f = d.unusedFinding) ∧
      (d.unusedFinding ∈ report.unusedSymbols ↔
        d.isExported = false ∧ d.kind ≠ .field ∧ d.kind ≠ .moduleUnit ∧ n ∉ entryPoints ∧
          ¬ "test".toList <+: n.toList ∧ ∀ u ∈ i.references, u.sourceId = some d.id) := by
  have hs := h.sound
  obtain ⟨d, hd, -⟩ := named_of_definedOnce hs hone
  have hmem : d ∈ s.named n := by rw [hd]; exact List.mem_singleton_self d
  have hname : d.name = n := name_of_mem_named hs.keyed hmem
  obtain ⟨f, hf, x, hx, hfx, hxn, hsited⟩ := (mem_named hs.keyed).mp hmem
  obtain ⟨report, hreport, hunused, -⟩ := exists_audit hs rule q.id
  obtain ⟨i, hi, hexact⟩ := exists_impact hs ⟨x, hx, hxn⟩ depth
  -- the project holds the symbol and all uses
  have howns : ∀ r ∈ s.references, s.ownsFile q.id r.fileId = true := fun r hr =>
    ownsFile_of_only hs.owned hq (hs.owned.references r hr)
  have hproject : d ∈ s.ofProject q.id := by
    obtain ⟨g, hg, hgx, hgq⟩ := ownsFile_iff.mp (ownsFile_of_only hs.owned hq ⟨f, hf, hfx⟩)
    obtain rfl := hs.keyed.file_eq hg hf (hgx.trans hfx.symm)
    exact (mem_ofProject hs.keyed).mpr ⟨g, hf, x, hx, hfx, hgq, hsited⟩
  have huses : ∀ u, u ∈ i.references ↔ u ∈ s.usesIn q.id ∧ u.isOf d = true := by
    intro u
    rw [hexact.uses, hd, ← useOf_iff_isOf hs howns]
    simp only [List.mem_singleton, exists_eq_left]
  -- a finding about the name is about the symbol
  have honly : ∀ e ∈ s.ofProject q.id, e.unusedFinding.symbol = some n → e = d := fun e he hen =>
    eq_of_mem_ofProject hs.keyed hone hmem he (Option.some.inj hen)
  refine ⟨d, report, i, by rw [symbolsNamed_eq hs, hd], hreport, hi, ?_, ?_⟩
  · rw [hunused]
    intro f hf hfn
    obtain ⟨e, he, -, rfl⟩ := mem_unusedSymbols.mp hf
    rw [honly e he hfn]
  · have hfound : d.unusedFinding ∈ report.unusedSymbols ↔ isUnused (s.usesIn q.id) d = true := by
      rw [hunused, mem_unusedSymbols]
      constructor
      · rintro ⟨e, he, hu, hed⟩
        rwa [← honly e he (by rw [hed, ← hname]; rfl)]
      · exact fun hu => ⟨d, hproject, hu, rfl⟩
    rw [hfound, isUnused_iff, hname, isEntryPoint_eq_false_iff]
    simp only [huses, and_imp, and_assoc]

/-- A hidden function whose only use is in itself. -/
def countdown : List Write :=
  [.upsertProject 0 "/p" "p",
    .persist 0 1 { relativePath := "count.py" }
      { symbols := [{ name := "countdown", visibility := .hidden }, { name := "run" }]
        uses := [⟨.call, some "countdown", "countdown", none, 4, 12⟩] }]

/-- It is reported. -/
theorem unused_iff_countdown : ∃ q d report, (run countdown).projects = [q] ∧
    (run countdown).symbolsNamed "countdown" = .ok [d] ∧
    (run countdown).audit .bySegments q.id = .ok report ∧
    d.unusedFinding ∈ report.unusedSymbols := by
  obtain ⟨q, hq⟩ := List.length_eq_one_iff.mp
    (by decide +kernel : (run countdown).projects.length = 1)
  obtain ⟨d, report, i, hd, hreport, hi, -, hunused⟩ := (reachable_run countdown).unused_iff hq
    (by decide +kernel : (run countdown).DefinedOnce "countdown") .bySegments 3
  have hshown : ((run countdown).symbolsNamed "countdown").toOption.map
      (·.map fun d => (d.id, d.isExported, d.kind)) = some [(1, false, .function)] := by
    decide +kernel
  have huses : ((run countdown).impact 3 "countdown").toOption.map
      (·.references.map (·.sourceId)) = some [some 1] := by decide +kernel
  rw [hd] at hshown
  rw [hi] at huses
  obtain ⟨hid, hexported, hkind⟩ : d.id = 1 ∧ d.isExported = false ∧ d.kind = .function := by
    simpa [Except.toOption] using hshown
  have hsources : i.references.map (·.sourceId) = [some 1] := Option.some.inj huses
  refine ⟨q, d, report, hq, hd, hreport, hunused.mpr ⟨hexported, by rw [hkind]; decide,
    by rw [hkind]; decide, by decide, by decide, fun u hu => ?_⟩⟩
  have hmem := List.mem_map_of_mem (f := Reference.sourceId) hu
  rw [hsources, List.mem_singleton] at hmem
  rw [hmem, hid]

end Unused

/-! ## Undefined references -/

section Undefined

variable {path : String} {line : Nat} {r : ReferenceRow}

/-- **An uncovered name**: a line of a file of a project uses it without a qualifier, no symbol of the
project has it, and no import of the file binds it. -/
def Uncovered (s : Store) (p : Int) (path n : String) (line : Nat) : Prop :=
  ∃ f ∈ s.files, f.projectId = p ∧ f.relativePath = path ∧
    (∃ r ∈ s.references, r.fileId = f.id ∧ r.target = n ∧ r.line = line ∧ r.qualifier = none) ∧
    (∀ x ∈ s.symbols, s.ownsFile p x.fileId = true → x.name ≠ n) ∧
    ∀ i ∈ s.imports, i.fileId = f.id → i.isWildcard = false ∧ i.bindingName ≠ n ∧ n ∉ i.names

/-- A link of a file in a project to a name that nothing there has leads nowhere. -/
theorem Reaches.eq_none (h : s.Keyed) {i : Int} {link : Option Int} (hreach : s.Reaches i n link)
    (hi : s.ownsFile p i = true)
    (hnone : ∀ x ∈ s.symbols, s.ownsFile p x.fileId = true → x.name ≠ n) : link = none := by
  cases hlink : link with
  | none => rfl
  | some j =>
    obtain ⟨x, hx, -, hxn, q, hq, hq'⟩ := hreach j hlink
    rw [h.owner_unique hq' hi] at hq
    exact absurd hxn (hnone x hx hq)

theorem any_name_eq_false_iff (h : s.Keyed) : (s.ofProject p).any (·.name == n) = false ↔
    ∀ x ∈ s.symbols, s.ownsFile p x.fileId = true → x.name ≠ n := by
  simp only [List.any_eq_false, beq_iff_eq, mem_ofProject h]
  constructor
  · intro hnone x hx hp
    obtain ⟨f, hf, hfx, hfp⟩ := ownsFile_iff.mp hp
    exact hnone (x.sited f.relativePath) ⟨f, hf, x, hx, hfx, hfp, rfl⟩
  · rintro hnone _ ⟨f, hf, x, hx, hfx, hfp, rfl⟩
    exact hnone x hx (ownsFile_iff.mpr ⟨f, hf, hfx, hfp⟩)

/-- An import has the path of its file. -/
theorem Reachable.exists_importer (h : s.Reachable) {i : ImportRow} (hi : i ∈ s.imports) :
    ∃ f ∈ s.files, f.id = i.fileId ∧ f.relativePath = i.filePath := by
  obtain ⟨f, hf, he⟩ := h.sound.owned.imports i hi
  obtain ⟨x, hholds⟩ := h.exists_holds hf
  obtain ⟨c, -, -, hpath⟩ := exists_left_of_forall₂ hholds.imports (mem_importsIn.mpr ⟨hi, he.symm⟩)
  exact ⟨f, hf, he, hpath.symm⟩

/-- The imports of a project at the path of one of its files are those of the file. -/
theorem Reachable.importList_at (h : s.Reachable) {f : FileRow} (hf : f ∈ s.files)
    (hfp : f.projectId = p) {i : Import} : i ∈ s.importList p ∧ i.filePath = f.relativePath ↔
      ∃ r ∈ s.imports, r.fileId = f.id ∧ r.toImport = i := by
  rw [mem_importList]
  constructor
  · rintro ⟨⟨r, hr, hp, rfl⟩, hpath⟩
    obtain ⟨g, hg, hid, hgpath⟩ := h.exists_importer hr
    obtain ⟨g', hg', hid', hgp⟩ := ownsFile_iff.mp hp
    obtain rfl := h.sound.keyed.file_eq hg hg' (hid.trans hid'.symm)
    obtain rfl := h.sound.keyed.file_eq_of_path hg hf (hgp.trans hfp.symm) (hgpath.trans hpath)
    exact ⟨r, hr, hid.symm, rfl⟩
  · rintro ⟨r, hr, hrf, rfl⟩
    obtain ⟨g, hg, hid, hgpath⟩ := h.exists_importer hr
    obtain rfl := h.sound.keyed.file_eq hg hf (hid.trans hrf)
    exact ⟨⟨r, hr, ownsFile_iff.mpr ⟨g, hg, hid, hfp⟩, rfl⟩, hgpath.symm⟩

/-- **A use is undefined** if its name is neither defined in the project nor bound in its file; the link
of the use does not matter. -/
theorem Reachable.isUndefined_iff (h : s.Reachable) {f : FileRow} (hf : f ∈ s.files)
    (hfp : f.projectId = p) (hr : r ∈ s.references) (hrf : r.fileId = f.id) :
    isUndefined (s.ofProject p) (s.importList p) r.toReference = true ↔
      r.qualifier = none ∧ (∀ x ∈ s.symbols, s.ownsFile p x.fileId = true → x.name ≠ r.target) ∧
      ∀ i ∈ s.imports, i.fileId = f.id →
        i.isWildcard = false ∧ i.bindingName ≠ r.target ∧ r.target ∉ i.names := by
  have hs := h.sound
  have hp : s.ownsFile p r.fileId = true := ownsFile_iff.mpr ⟨f, hf, hrf.symm, hfp⟩
  obtain ⟨g, hg, hid, hpath⟩ := h.exists_owner hr
  obtain rfl := hs.keyed.file_eq hg hf (hid.trans hrf)
  have hbound : (s.importList p).any (fun i => i.filePath == r.filePath && i.binds r.target) = false ↔
      ∀ i ∈ s.imports, i.fileId = g.id →
        i.isWildcard = false ∧ i.bindingName ≠ r.target ∧ r.target ∉ i.names := by
    simp only [List.any_eq_false, Bool.and_eq_true, beq_iff_eq, not_and, Bool.not_eq_true,
      ImportClause.binds_eq_false_iff, ← hpath]
    constructor
    · intro hnone i hi hig
      obtain ⟨hmem, hpath⟩ := (h.importList_at hf hfp).mpr ⟨i, hi, hig, rfl⟩
      exact hnone i.toImport hmem hpath
    · intro hnone i hi hpath
      obtain ⟨x, hx, hxg, rfl⟩ := (h.importList_at hf hfp).mp ⟨hi, hpath⟩
      exact hnone x hx hxg
  simp only [isUndefined, Bool.and_eq_true, Bool.not_eq_true', Option.isNone_iff_eq_none, and_assoc]
  rw [hbound, any_name_eq_false_iff hs.keyed]
  exact and_iff_right_of_imp fun hrest =>
    (hs.linked.uses r hr).eq_none hs.keyed hp hrest.2.1

/-- The uncovered names are those of the undefined uses. -/
theorem Reachable.uncovered_iff (h : s.Reachable) : s.Uncovered p path n line ↔
    ∃ u ∈ s.usesIn p, isUndefined (s.ofProject p) (s.importList p) u = true ∧
      u.spot = (path, n, line) := by
  have hs := h.sound
  constructor
  · rintro ⟨f, hf, hfp, rfl, ⟨r, hr, hrf, rfl, rfl, hqual⟩, hdefined, hbound⟩
    obtain ⟨g, hg, hid, hpath⟩ := h.exists_owner hr
    obtain rfl := hs.keyed.file_eq hg hf (hid.trans hrf)
    refine ⟨r.toReference, mem_usesIn.mpr ⟨r, hr, ownsFile_iff.mpr ⟨g, hf, hid, hfp⟩, rfl⟩, ?_, ?_⟩
    · exact (h.isUndefined_iff hf hfp hr hrf).mpr ⟨hqual, hdefined, hbound⟩
    · rw [Reference.spot, hpath]
  · rintro ⟨u, hmem, hu, he⟩
    obtain ⟨r, hr, hp, rfl⟩ := mem_usesIn.mp hmem
    obtain ⟨f, hf, hfr, hfp⟩ := ownsFile_iff.mp hp
    obtain ⟨g, hg, hid, hpath⟩ := h.exists_owner hr
    obtain rfl := hs.keyed.file_eq hg hf (hid.trans hfr.symm)
    obtain ⟨hqual, hdefined, hbound⟩ := (h.isUndefined_iff hf hfp hr hfr.symm).mp hu
    cases he
    exact ⟨g, hf, hfp, hpath, ⟨r, hr, hfr.symm, rfl, rfl, hqual⟩, hdefined, hbound⟩

/-- **Undefined references are the uncovered names.** After any writes and for every project, an audit
reports the uncovered names of the project, with path and line, and each of these once. -/
theorem Reachable.undefined_iff (h : s.Reachable) (rule : ImportRule) (p : Int) :
    ∃ report, ∃ spots : List (String × String × Nat), s.audit rule p = .ok report ∧
      report.undefinedReferences = spots.map undefinedFinding ∧ spots.Nodup ∧
      ∀ path n line, (path, n, line) ∈ spots ↔ s.Uncovered p path n line := by
  obtain ⟨report, hreport, -, hundefined⟩ := exists_audit h.sound rule p
  set uses := (s.usesIn p).filter (isUndefined (s.ofProject p) (s.importList p)) with huses
  refine ⟨report, (distinctOn Reference.spot uses).map Reference.spot, hreport, ?_,
    nodup_distinctOn _ _, fun path n line => ?_⟩
  · rw [hundefined, List.map_map]
    rfl
  · rw [mem_keys_distinctOn, h.uncovered_iff, huses]
    simp only [List.mem_filter, and_assoc]

instance (path n : String) (line : Nat) : Decidable (s.Uncovered p path n line) :=
  inferInstanceAs (Decidable (∃ f ∈ s.files, f.projectId = p ∧ f.relativePath = path ∧
    (∃ r ∈ s.references, r.fileId = f.id ∧ r.target = n ∧ r.line = line ∧ r.qualifier = none) ∧
    (∀ x ∈ s.symbols, s.ownsFile p x.fileId = true → x.name ≠ n) ∧
    ∀ i ∈ s.imports, i.fileId = f.id → i.isWildcard = false ∧ i.bindingName ≠ n ∧ n ∉ i.names))

/-- Names that an import binds, that a file defines, and that come from nowhere. -/
def loose : List Write :=
  [.upsertProject 0 "/p" "p",
    .persist 0 1 { relativePath := "a.py" }
      { symbols := [{ name := "f" }]
        imports := [{ path := "os.path", names := ["join"] }]
        uses := [⟨.call, none, "join", none, 3, 1⟩, ⟨.call, none, "path", none, 3, 9⟩,
          ⟨.call, some "f", "f", none, 4, 1⟩, ⟨.call, some "f", "g", none, 5, 1⟩,
          ⟨.use, some "f", "g", none, 5, 9⟩] }]

/-- Only the last ones are reported. -/
theorem undefined_iff_loose : ∃ report, ∃ spots : List (String × String × Nat),
    (run loose).audit .bySegments 1 = .ok report ∧
    report.undefinedReferences = spots.map undefinedFinding ∧ spots.Nodup ∧
    ("a.py", "g", 5) ∈ spots ∧ ("a.py", "join", 3) ∉ spots ∧ ("a.py", "path", 3) ∉ spots ∧
    ("a.py", "f", 4) ∉ spots := by
  obtain ⟨report, spots, hreport, hfound, honce, hspots⟩ :=
    (reachable_run loose).undefined_iff .bySegments 1
  refine ⟨report, spots, hreport, hfound, honce, ?_⟩
  rw [hspots, hspots, hspots, hspots]
  decide +kernel

end Undefined

end Store

end CodeAtlas
