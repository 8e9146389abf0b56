import CodeAtlas.Proofs.Archive
import CodeAtlas.Proofs.Details
import CodeAtlas.Proofs.JsonText
import CodeAtlas.Proofs.Reads
import CodeAtlas.Store.Record

/-!
# Rows read back

What a file leaves in the tables is read back as it was given.

* `unsigned_signed`, `SymbolKind.ofLabel?_label`, `namesOrEmpty_compact`: words, names and lists of
  texts survive their cells. JSON values do if they are faithful.
* `SymbolRow.record_eq`, …: the record of a row is what the statement binds that inserts it;
  `SymbolRow.record_update`, `record_fileRow`: what other statements set in it.
* `SymbolRow.read_eq`, …: what is read from the record of a row.
* `Store.ReadBack`: a file with all that it owns, written and read back.
* **`Reachable.rows_read_back`**: every file that is stored is read back, and nothing in the store
  fails to be read.
-/

namespace CodeAtlas

/-! ## Cells -/

/-- **A word survives its cell**, also one that is no signed number. -/
@[simp] theorem unsigned_signed (n : Nat) : unsigned (signed n) = n := by
  unfold signed unsigned
  split
  · next h =>
    have hbounds : 0x8000000000000000 ≤ n ∧ n < 0x10000000000000000 := by simpa using h
    rw [if_neg (by omega)]
    omega
  · rw [if_pos (by omega), Int.toNat_natCast]

theorem ok_bind {α β : Type} (a : α) (f : α → StoreM β) : (Except.ok a >>= f) = f a := rfl

theorem pure_eq_ok {α : Type} (a : α) : (pure a : StoreM α) = .ok a := rfl

namespace CellValue

@[simp] theorem asInt?_int (n : Int) : (CellValue.int n).asInt? = some n := rfl

@[simp] theorem asInt?_wordCell (n : Nat) : (wordCell n).asInt? = some (signed n) := rfl

@[simp] theorem asText?_text (s : String) : (CellValue.text s).asText? = some s := rfl

@[simp] theorem orNull_text (s : String) : orNull asText? (.text s) = some (some s) := rfl

@[simp] theorem orNull_ofText? (s : Option String) : orNull asText? (.ofText? s) = some s := by
  cases s <;> rfl

@[simp] theorem orNull_ofInt? (n : Option Int) : orNull asInt? (.ofInt? n) = some n := by
  cases n <;> rfl

end CellValue

@[simp] theorem SymbolKind.ofLabel?_label (k : SymbolKind) : ofLabel? k.label = some k := by
  cases k <;> decide

@[simp] theorem Visibility.ofLabel?_label (v : Visibility) : ofLabel? v.label = some v := by
  cases v <;> decide

@[simp] theorem EdgeKind.ofLabel?_label (k : EdgeKind) : ofLabel? k.label = some k := by
  cases k <;> decide

@[simp] theorem UseKind.ofLabel?_label (k : UseKind) : ofLabel? k.label = some k := by
  cases k <;> decide

theorem Json.Faithful.jsonOrEmpty_compact {j : Json} (h : j.Faithful) : jsonOrEmpty j.compact = j := by
  rw [jsonOrEmpty, h]
  rfl

/-- A list of texts survives its cell. -/
@[simp] theorem namesOrEmpty_compact (names : List String) :
    namesOrEmpty (Json.list .str names).compact = names := by
  have hplain : Json.Plain 127 (Json.list .str names) := by
    refine .arr fun j hj => ?_
    obtain ⟨s, -, rfl⟩ := List.mem_map.mp hj
    exact .str s
  have hnames : ∀ names : List String, (names.map Json.str).mapM Json.asStr? = some names := by
    intro names
    induction names with
    | nil => rfl
    | cons s names ih =>
      rw [List.map_cons, List.mapM_cons, ih]
      rfl
  rw [namesOrEmpty, hplain.faithful]
  simp only [Json.list, Json.asArr?, Option.bind_some, hnames, Option.getD_some]

/-! ## Records -/

theorem FileRow.record_eq {r : FileRow} (h : r.flaws = []) : fileView.record r =
    ("id", .int r.id) :: fileCells r.lastIndexed r.projectId r.toSourceFile := by
  obtain ⟨f, flaws⟩ := r
  obtain rfl : flaws = [] := h
  rfl

theorem SymbolRow.record_eq {r : SymbolRow} (h : r.flaws = []) : symbolView.record r =
    ("id", .int r.id) :: symbolCells r.fileId r.toDeclaration := by
  obtain ⟨d, id, fileId, flaws⟩ := r
  obtain rfl : flaws = [] := h
  rfl

theorem ImportRow.record_eq {r : ImportRow} (h : r.flaws = []) : importView.record r =
    ("id", .int r.id) :: importCells r.fileId r.filePath r.toImportClause := by
  obtain ⟨i, fileId, flaws⟩ := r
  obtain rfl : flaws = [] := h
  rfl

theorem RelationshipRow.record_eq {r : RelationshipRow} (h : r.flaws = []) :
    relationshipView.record r =
      ("id", .int r.id) :: edgeCells r.fileId r.filePath r.sourceId r.targetId r.toEdge := by
  obtain ⟨e, fileId, flaws⟩ := r
  obtain rfl : flaws = [] := h
  rfl

/-- The use that a reference is made from, with the name of the symbol around it. -/
def Reference.toUse (source : Option String) (x : Reference) : Use :=
  { kind := x.kind, source, target := x.target, qualifier := x.qualifier, line := x.line
    column := x.column }

theorem ReferenceRow.record_eq {r : ReferenceRow} (h : r.flaws = []) (source : Option String) :
    referenceView.record r =
      ("id", .int r.id) :: useCells r.fileId r.filePath r.sourceId r.targetId (r.toUse source) := by
  obtain ⟨x, fileId, flaws⟩ := r
  obtain rfl : flaws = [] := h
  rfl

/-- A row that is matched with a declaration has those cells set that the fate of the row asks for,
and no others. -/
theorem SymbolRow.record_update {r : SymbolRow} (h : r.flaws = []) (d : Declaration) :
    symbolView.record (r.update d).2 = (symbolView.record r).set (r.updateCells d) := by
  rw [record_eq h, record_eq (update_flaws h), updateCells, update]
  split_ifs <;> rfl

/-- The row of a file that is stored again keeps its id, project and path. -/
theorem record_fileRow {old : FileRow} (h : old.flaws = []) (now : Int) {f : SourceFile}
    (hpath : old.relativePath = f.relativePath) :
    fileView.record (Store.fileRow now old.projectId old.id f) =
      (fileView.record old).set (fileConflictCells now old.projectId f) := by
  rw [FileRow.record_eq h, FileRow.record_eq rfl]
  obtain ⟨path, relativePath, language, size, linesOfCode, hash, lastModified⟩ := f
  obtain rfl : old.relativePath = relativePath := hpath
  rfl

/-! ## Reading -/

theorem FileRow.read_eq {r : FileRow} (h : r.flaws = []) : r.read = .ok r.toFile := by
  have hcells : select [("files", fileView.record r)] fileColumns = .ok
      [("id", .int r.id), ("project_id", .int r.projectId), ("path", .text r.path),
        ("relative_path", .text r.relativePath), ("language", .text r.language),
        ("size", wordCell r.size), ("lines_of_code", wordCell r.linesOfCode),
        ("hash", .text r.hash), ("last_modified", .int r.lastModified),
        ("last_indexed", .int r.lastIndexed)] := by
    rw [record_eq h]
    rfl
  rw [read, hcells, ok_bind]
  simp [ok_bind, pure_eq_ok, File.ofCells, Selected.get, Selected.int,
    Selected.text, Selected.word]

theorem SymbolRow.read_eq {r : SymbolRow} {g : FileRow} (h : r.flaws = []) (hg : g.flaws = []) :
    r.read g = .ok
      { r.sited g.relativePath with metadata := jsonOrEmpty r.metadata.compact } := by
  have hcells : select [("s", symbolView.record r), ("f", fileView.record g)] symbolColumns = .ok
      [("id", .int r.id), ("file_id", .int r.fileId), ("relative_path", .text g.relativePath),
        ("name", .text r.name), ("kind", .text r.kind.label), ("signature", .ofText? r.signature),
        ("documentation", .ofText? r.documentation), ("visibility", .text r.visibility.label),
        ("start_line", wordCell r.range.startLine),
        ("start_column", wordCell r.range.startColumn), ("end_line", wordCell r.range.endLine),
        ("end_column", wordCell r.range.endColumn), ("start_byte", wordCell r.range.startByte),
        ("end_byte", wordCell r.range.endByte), ("content_hash", .text r.contentHash),
        ("status", .ofText? r.workflow.status), ("priority", .ofInt? r.workflow.priority),
        ("assigned_agent", .ofText? r.workflow.assignedAgent),
        ("metadata", .text r.metadata.compact)] := by
    rw [record_eq h, FileRow.record_eq hg]
    rfl
  rw [read, hcells, ok_bind]
  simp [ok_bind, pure_eq_ok, Symbol.ofCells, Selected.get, Selected.int,
    Selected.int?, Selected.text, Selected.text?, Selected.word, Selected.json, ofName, sited]

theorem ImportRow.read_eq {r : ImportRow} (h : r.flaws = []) : r.read = .ok r.toImport := by
  have hcells : select [("i", importView.record r)] importColumns = .ok
      [("id", .int r.id), ("file_path", .text r.filePath), ("import_path", .text r.path),
        ("alias", .ofText? r.localName),
        ("imported_names", .text (Json.list .str r.names).compact),
        ("is_wildcard", .int (if r.isWildcard then 1 else 0)),
        ("start_line", wordCell r.startLine), ("end_line", wordCell r.endLine)] := by
    rw [record_eq h]
    rfl
  have hflag : ((if r.isWildcard then 1 else 0 : Int) != 0) = r.isWildcard := by
    cases r.isWildcard <;> rfl
  rw [read, hcells, ok_bind]
  simp [ok_bind, pure_eq_ok, Import.ofCells, Selected.get, Selected.int,
    Selected.text, Selected.text?, Selected.word, Selected.flag, hflag]

theorem RelationshipRow.read_eq {r : RelationshipRow} (h : r.flaws = []) :
    r.read = .ok { r.toRelationship with metadata := jsonOrEmpty r.metadata.compact } := by
  have hcells : select [("r", relationshipView.record r)] relationshipColumns = .ok
      [("id", .int r.id), ("type", .text r.kind.label), ("source_symbol", .text r.source),
        ("target_symbol", .text r.target), ("source_symbol_id", .ofInt? r.sourceId),
        ("target_symbol_id", .ofInt? r.targetId), ("file_path", .text r.filePath),
        ("line", wordCell r.line), ("metadata", .text r.metadata.compact)] := by
    rw [record_eq h]
    rfl
  rw [read, hcells, ok_bind]
  simp [ok_bind, pure_eq_ok, Relationship.ofCells, Selected.get, Selected.int,
    Selected.int?, Selected.text, Selected.text?, Selected.word, Selected.json, ofName]

theorem RelationshipRow.read_of_faithful {r : RelationshipRow} (h : r.flaws = [])
    (hjson : r.metadata.Faithful) : r.read = .ok r.toRelationship := by
  rw [read_eq h, hjson.jsonOrEmpty_compact]

theorem ReferenceRow.read_eq {r : ReferenceRow} (h : r.flaws = []) :
    r.read = .ok r.toReference := by
  have hcells : select [("r", referenceView.record r)] referenceColumns = .ok
      [("id", .int r.id), ("source_symbol_id", .ofInt? r.sourceId),
        ("target_symbol_name", .text r.target), ("target_symbol_id", .ofInt? r.targetId),
        ("qualifier", .ofText? r.qualifier), ("reference_type", .text r.kind.label),
        ("file_path", .text r.filePath), ("line", wordCell r.line),
        ("column", wordCell r.column)] := by
    rw [record_eq h none]
    rfl
  rw [read, hcells, ok_bind]
  simp [ok_bind, pure_eq_ok, Reference.ofCells, Selected.get, Selected.int,
    Selected.int?, Selected.text, Selected.text?, Selected.word, ofName]

/-! ## Files -/

/-- JSON values that are read back as they are written. -/
structure Outline.Faithful (o : Outline) : Prop where
  symbols : ∀ d ∈ o.symbols, d.metadata.Faithful
  edges : ∀ e ∈ o.edges, e.metadata.Faithful

/-- A use as far as its file tells: a symbol around it that the file does not declare is left out. -/
def Outline.known (o : Outline) (u : Use) : Use :=
  { u with source := u.source.filter fun n => o.symbols.any (·.name == n) }

/-- Rows that were inserted one after the other for what was given. They have the cells that the
insertions bind, and they are read without an error, from these cells as well as by the store; what
was given is got back from what is read. -/
structure ReadsAs {α β γ ρ : Type} (record : ρ → Record) (read decode : ρ → StoreM β)
    (cells : α → Record) (back : β → γ) (given : α → γ) (rows : List ρ) (last : Int) (xs : List α) :
    Prop where
  bound : rows.map record = Store.numbered (fun id a => ("id", .int id) :: cells a) last xs
  read : ∃ values, rows.mapM read = .ok values ∧ rows.mapM decode = .ok values ∧
    values.map back = xs.map given

namespace Store

variable {s t : Store} {now p i : Int} {f : SourceFile} {o : Outline}

/-- Numbered rows are read as what each of them holds. -/
theorem readsAs_numbered {α β γ ρ : Type} {record : ρ → Record} {read decode : ρ → StoreM β}
    {cells : α → Record} {back : β → γ} {given : α → γ} (row : Int → α → ρ) (value : ρ → β)
    (last : Int) {xs : List α} (hrecord : ∀ id a, record (row id a) = ("id", .int id) :: cells a)
    (hread : ∀ id, ∀ a ∈ xs, read (row id a) = .ok (value (row id a)))
    (hdecode : ∀ id, ∀ a ∈ xs, decode (row id a) = .ok (value (row id a)))
    (hback : ∀ id a, back (value (row id a)) = given a) :
    ReadsAs record read decode cells back given (numbered row last xs) last xs := by
  refine ⟨map_numbered fun id a _ => hrecord id a,
    (numbered row last xs).map value, mapM_eq_ok fun r hr => ?_, mapM_eq_ok fun r hr => ?_, ?_⟩
  · obtain ⟨id, a, ha, rfl⟩ := exists_of_mem_numbered hr
    exact hread id a ha
  · obtain ⟨id, a, ha, rfl⟩ := exists_of_mem_numbered hr
    exact hdecode id a ha
  · rw [List.map_map, ← numbered_eq_map given last]
    exact map_numbered fun id a _ => hback id a

/-- The name of a symbol. -/
def nameOf? (s : Store) (id : Int) : Option String := (s.symbols.find? (·.id == id)).map (·.name)

/-- A use as the store shows it, with the name of the symbol that it is linked to. -/
def useOf (s : Store) (x : Reference) : Use := x.toUse (x.sourceId.bind s.nameOf?)

/-- A declaration whose row was bound and read back. The row has the cells that an insertion binds, or
those that were set in the row it had. It is read with its name, kind, place and content; with all its
details if it is new or its content changed; and as a whole if it is new. -/
structure SymbolBack (s : Store) (g : FileRow) (d : Declaration) (r : SymbolRow) : Prop where
  bound : (s.last.symbols < r.id ∧
      symbolView.record r = ("id", .int r.id) :: symbolCells g.id d) ∨
    ∃ old ∈ s.symbolsIn g.id, old.standsFor d = true ∧
      symbolView.record r = (symbolView.record old).set (old.updateCells d)
  read : ∃ x, r.read g = .ok x ∧ x.id = r.id ∧ x.fileId = g.id ∧ x.filePath = g.relativePath ∧
    x.toDeclaration.shape = d.shape ∧
    ((∀ old ∈ s.symbols, old.id = r.id → old.contentHash ≠ d.contentHash) →
      x.toDeclaration.details = d.details ∧ r.decode g.relativePath = .ok x) ∧
    ((∀ old ∈ s.symbols, old.id ≠ r.id) → x.toDeclaration = d)

/-- **A file with all that it owns, written and read back.** -/
structure ReadBack (s : Store) (now p : Int) (f : SourceFile) (o : Outline) (t : Store)
    (g : FileRow) : Prop where
  bound : fileView.record g = ("id", .int g.id) :: fileCells now p f ∧
    ∀ old ∈ s.files, old.projectId = p → old.relativePath = f.relativePath →
      fileView.record g = (fileView.record old).set (fileConflictCells now p f)
  file : ∃ x, g.read = .ok x ∧ t.file? p f.relativePath = .ok (some x) ∧ x.toSourceFile = f
  symbols : ∃ rows, rows.Perm (t.symbolsIn g.id) ∧ List.Forall₂ (s.SymbolBack g) o.symbols rows
  imports : ReadsAs importView.record ImportRow.read ImportRow.decode
    (importCells g.id f.relativePath) (fun x => (x.filePath, x.toImportClause))
    (fun c => (f.relativePath, c)) (t.importsIn g.id) s.last.imports o.imports
  edges : ∃ link : String → Option Int,
    ReadsAs relationshipView.record RelationshipRow.read RelationshipRow.decode
      (fun e => edgeCells g.id f.relativePath (link e.source) (link e.target) e)
      (fun x => (x.filePath, x.toEdge)) (fun e => (f.relativePath, e)) (t.relationshipsIn g.id)
      s.last.relationships o.edges
  uses : ∃ source link : String → Option Int,
    ReadsAs referenceView.record ReferenceRow.read ReferenceRow.decode
      (fun u => useCells g.id f.relativePath (u.source.bind source) (link u.target) u)
      (fun x => (x.filePath, t.useOf x)) (fun u => (f.relativePath, o.known u)) (t.referencesIn g.id)
      s.last.references o.uses

/-- A store that is read without errors. -/
structure Readable (s : Store) : Prop where
  files : ∀ r ∈ s.files, ∃ x, r.read = .ok x
  symbols : ∀ r ∈ s.symbols, ∃ g ∈ s.files, g.id = r.fileId ∧ ∃ x, r.read g = .ok x
  imports : ∀ r ∈ s.imports, ∃ x, r.read = .ok x
  relationships : ∀ r ∈ s.relationships, ∃ x, r.read = .ok x
  references : ∀ r ∈ s.references, ∃ x, r.read = .ok x

theorem Sound.readable (h : s.Sound) : s.Readable where
  files r hr := ⟨_, FileRow.read_eq (h.flawless.files r hr)⟩
  symbols r hr := by
    obtain ⟨g, hg, hid⟩ := h.owned.symbols r hr
    exact ⟨g, hg, hid, _, SymbolRow.read_eq (h.flawless.symbols r hr) (h.flawless.files g hg)⟩
  imports r hr := ⟨_, ImportRow.read_eq (h.flawless.imports r hr)⟩
  relationships r hr := ⟨_, RelationshipRow.read_eq (h.flawless.relationships r hr)⟩
  references r hr := ⟨_, ReferenceRow.read_eq (h.flawless.references r hr)⟩

/-- The first row of a name is found by its id, if the file declares the name. -/
theorem Persisted.nameOf?_localId? (h : s.Persisted now p f o i t) (ht : t.Keyed) (n : String) :
    ((s.reconciled i o.symbols).localId? n).bind t.nameOf? =
      (some n).filter fun n => o.symbols.any (·.name == n) := by
  have hshape := @reconcile_shape i s.last.symbols (s.rowsOfFile i) o.symbols
  cases hlocal : (s.reconciled i o.symbols).localId? n with
  | some j =>
    obtain ⟨x, hx, rfl, hname⟩ := localId?_eq_some hlocal
    obtain ⟨y, hy, rfl⟩ := List.mem_map.mp hx
    obtain ⟨d, hd, hdy⟩ := exists_left_of_forall₂ hshape hy
    have hdeclared : o.symbols.any (·.name == n) = true :=
      List.any_eq_true.mpr ⟨d, hd, by simp [← Declaration.name_eq_of_shape hdy, hname]⟩
    rw [Option.bind_some, nameOf?, find?_key ht.symbols.nodup ((h.symbols y.2).mpr (Or.inr hx)),
      Option.map_some, hname, Option.filter_some, if_pos hdeclared]
  | none =>
    have hnone : o.symbols.any (·.name == n) = false := by
      refine List.any_eq_false.mpr fun d hd hdn => ?_
      obtain ⟨y, hy, hdy⟩ := exists_left_of_forall₂ hshape.flip hd
      have hyn : y.2.name = n := (Declaration.name_eq_of_shape hdy).trans (by simpa using hdn)
      exact List.find?_eq_none.mp (Option.map_eq_none_iff.mp hlocal) y hy (by simpa using hyn)
    rw [Option.bind_none, Option.filter_some, if_neg (by simp [hnone])]

/-- A use is shown as it was found; only a symbol around it that the file does not declare is gone. -/
theorem Persisted.useOf_useRow (h : s.Persisted now p f o i t) (ht : t.Keyed) (id : Int) (u : Use) :
    t.useOf (t.useRow p i f.relativePath (s.reconciled i o.symbols) id u).toReference =
      o.known u := by
  obtain ⟨kind, source, target, qualifier, line, column⟩ := u
  cases source with
  | none => rfl
  | some n =>
    exact congrArg (fun source => Use.mk kind source target qualifier line column)
      (h.nameOf?_localId? ht n)

/-- The row that a declaration ends on is bound and read back. -/
theorem symbolBack_of_becomes (hs : s.Sound) {old : Option SymbolRow} {d : Declaration}
    {y : Fate × SymbolRow} (hold : ∀ r, old = some r → r ∈ s.rowsOfFile i)
    (hy : Becomes s.last.symbols old d y) (hflaws : y.2.flaws = []) (hfile : y.2.fileId = i)
    (hjson : d.metadata.Faithful) : s.SymbolBack (fileRow now p i f) d y.2 := by
  have hrefreshed := hs.keyed.refreshed (fun r hr => (mem_rowsOfFile.mp (hold r hr)).1) hy
  -- a row with the JSON value of the declaration is read as it is
  have hplain : y.2.metadata = d.metadata →
      { y.2.sited f.relativePath with metadata := jsonOrEmpty y.2.metadata.compact } =
        y.2.sited f.relativePath := by
    intro hmetadata
    rw [hmetadata, hjson.jsonOrEmpty_compact, ← hmetadata]
    rfl
  constructor
  · cases old with
    | none =>
      refine Or.inl ⟨hy.2.2, ?_⟩
      rw [SymbolRow.record_eq hflaws, hfile, hy.2.1]
      rfl
    | some r =>
      obtain ⟨hr, hri⟩ := mem_rowsOfFile.mp (hold r rfl)
      refine Or.inr ⟨r, mem_symbolsIn.mpr ⟨hr, hri⟩, hy.1, ?_⟩
      rw [hy.2, SymbolRow.record_update (hs.flawless.symbols r hr)]
  · refine ⟨_, SymbolRow.read_eq hflaws rfl, rfl, hfile, rfl, hrefreshed.shape, ?_, ?_⟩
    · intro hwritten
      have hdetails := hrefreshed.written hwritten
      have hmetadata : y.2.metadata = d.metadata := by
        simp only [Declaration.details, Prod.mk.injEq] at hdetails
        exact hdetails.2.2.2
      exact ⟨(congrArg (fun x : Symbol => x.toDeclaration.details) (hplain hmetadata)).trans hdetails,
        (SymbolRow.decode_eq hflaws _).trans (congrArg Except.ok (hplain hmetadata).symm)⟩
    · intro hnew
      cases old with
      | none =>
        have hmetadata : y.2.metadata = d.metadata := congrArg Declaration.metadata hy.2.1
        exact (congrArg (fun x : Symbol => x.toDeclaration) (hplain hmetadata)).trans hy.2.1
      | some r =>
        have hid : r.id = y.2.id := by rw [hy.2, SymbolRow.update_id]
        exact absurd hid (hnew r (mem_rowsOfFile.mp (hold r rfl)).1)

/-- The rows of a file are bound and read back. -/
theorem Persisted.symbolBack (h : s.Persisted now p f o i t) (hs : s.Sound) (ht : t.Sound)
    (hjson : o.Faithful) :
    List.Forall₂ (s.SymbolBack (fileRow now p i f)) o.symbols
      ((s.reconciled i o.symbols).rows.map (·.2)) := by
  have hrows := (List.forall₂_and_left (p := (· ∈ o.symbols)) _ _).mpr
    ⟨fun _ hd => hd, @reconcile_becomes i s.last.symbols (s.rowsOfFile i) o.symbols⟩
  refine List.forall₂_map_right_iff.mpr (forall₂_imp_right hrows ?_)
  rintro d y hy ⟨hd, old, hold, hbecomes⟩
  have hmem := List.mem_map_of_mem (f := Prod.snd) hy
  exact symbolBack_of_becomes hs hold hbecomes
    (ht.flawless.symbols _ ((h.symbols _).mpr (Or.inr hmem))) (reconciled_fileId _ _ hmem)
    (hjson.symbols d hd)

/-- The row of a stored file is the one that is found by its path. -/
theorem Persisted.file?_eq (h : s.Persisted now p f o i t) (ht : t.Sound) :
    t.file? p f.relativePath = .ok (some (fileRow now p i f).toFile) := by
  have hmem : fileRow now p i f ∈ t.files := h.files.id_mem
  have hfind : t.files.find? (fun g => g.projectId == p && g.relativePath == f.relativePath) =
      some (fileRow now p i f) := by
    cases hfind : t.files.find? (fun g => g.projectId == p && g.relativePath == f.relativePath) with
    | none => exact absurd (List.find?_eq_none.mp hfind _ hmem) (by simp [fileRow])
    | some g =>
      have hg : g.projectId = p ∧ g.relativePath = f.relativePath := by
        simpa using List.find?_some hfind
      rw [ht.keyed.file_eq_of_path (List.mem_of_find?_eq_some hfind) hmem hg.1 hg.2]
  rw [file?, hfind, Option.mapM_some, FileRow.decode_eq rfl]
  rfl

theorem Persisted.imports_back (h : s.Persisted now p f o i t) :
    ReadsAs importView.record ImportRow.read ImportRow.decode (importCells i f.relativePath)
      (fun x => (x.filePath, x.toImportClause)) (fun c => (f.relativePath, c)) (t.importsIn i)
      s.last.imports o.imports := by
  rw [h.imports]
  refine readsAs_numbered _ ImportRow.toImport _ ?_ ?_ ?_ ?_
  · exact fun id c => ImportRow.record_eq rfl
  · exact fun id c _ => ImportRow.read_eq rfl
  · exact fun id c _ => ImportRow.decode_eq rfl
  · exact fun id c => rfl

theorem Persisted.edges_back (h : s.Persisted now p f o i t) (hjson : o.Faithful) :
    ReadsAs relationshipView.record RelationshipRow.read RelationshipRow.decode
      (fun e => edgeCells i f.relativePath (t.resolve p (s.reconciled i o.symbols) e.source)
        (t.resolve p (s.reconciled i o.symbols) e.target) e)
      (fun x => (x.filePath, x.toEdge)) (fun e => (f.relativePath, e)) (t.relationshipsIn i)
      s.last.relationships o.edges := by
  rw [h.relationships]
  refine readsAs_numbered _ RelationshipRow.toRelationship _ ?_ ?_ ?_ ?_
  · exact fun id e => RelationshipRow.record_eq rfl
  · exact fun id e he => RelationshipRow.read_of_faithful rfl (hjson.edges e he)
  · exact fun id e _ => RelationshipRow.decode_eq rfl
  · exact fun id e => rfl

theorem Persisted.uses_back (h : s.Persisted now p f o i t) (ht : t.Keyed) :
    ReadsAs referenceView.record ReferenceRow.read ReferenceRow.decode
      (fun u => useCells i f.relativePath (u.source.bind (s.reconciled i o.symbols).localId?)
        (t.resolve p (s.reconciled i o.symbols) u.target) u)
      (fun x => (x.filePath, t.useOf x)) (fun u => (f.relativePath, o.known u)) (t.referencesIn i)
      s.last.references o.uses := by
  rw [h.references]
  refine readsAs_numbered _ ReferenceRow.toReference _ ?_ ?_ ?_ ?_
  · exact fun id u => ReferenceRow.record_eq rfl u.source
  · exact fun id u _ => ReferenceRow.read_eq rfl
  · exact fun id u _ => ReferenceRow.decode_eq rfl
  · exact fun id u => congrArg (Prod.mk f.relativePath) (h.useOf_useRow ht id u)

/-- **A stored file is bound and read back.** -/
theorem Persisted.readBack (h : s.Persisted now p f o i t) (hs : s.Sound) (ht : t.Sound)
    (hjson : o.Faithful) : s.ReadBack now p f o t (fileRow now p i f) where
  bound := by
    refine ⟨FileRow.record_eq rfl, fun old hold hp hr => ?_⟩
    obtain rfl := h.id_eq hs.keyed hold hp hr
    subst hp
    exact record_fileRow (hs.flawless.files old hold) now hr
  file := ⟨_, FileRow.read_eq rfl, h.file?_eq ht, rfl⟩
  symbols := ⟨_, (h.symbolsIn_perm hs.keyed ht.keyed).symm, h.symbolBack hs ht hjson⟩
  imports := h.imports_back
  edges := ⟨_, h.edges_back hjson⟩
  uses := ⟨_, _, h.uses_back ht.keyed⟩

/-- **Every file that is stored is read back**, with any texts, words, names and JSON values that are
read back as they are written. The cells of its row, its symbols, imports, edges and uses are what the
statements bind for it; what is read from these cells by position is what was given; and no row of
the store fails to be read. -/
theorem Reachable.rows_read_back (h : s.Reachable) {stats : WriteStats}
    (ht : s.persist now p f o = .ok (stats, t)) (hjson : o.Faithful) :
    (∃ g ∈ t.files, g.projectId = p ∧ g.relativePath = f.relativePath ∧
      s.ReadBack now p f o t g) ∧ t.Readable := by
  have hs := h.sound
  obtain ⟨i, hp, -, hts⟩ := persist_spec hs ht
  exact ⟨⟨_, hp.files.id_mem, rfl, rfl, hp.readBack hs hts hjson⟩, hts.readable⟩

/-- An outline with a word that is no signed number, texts in need of escapes, and JSON values. -/
def escaped : Outline where
  symbols := [{ name := "f", range := { endByte := 0xFFFFFFFFFFFFFFFF }
                metadata := .obj [("a", .int 1), ("b", .str "x\"y")] }]
  imports := [{ path := "p", names := ["a\nb", "c\\d"] }]
  edges := [{ kind := .calls, source := "f", target := "g", line := 3, metadata := .arr [.null] }]
  uses := [⟨.call, some "f", "g", none, 3, 1⟩]

theorem faithful_escaped : escaped.Faithful where
  symbols := by
    refine List.forall_mem_singleton.mpr (Json.Plain.faithful (.obj ?_ (by decide)))
    exact List.forall_mem_cons.mpr ⟨.int (by decide), List.forall_mem_singleton.mpr (.str _)⟩
  edges := List.forall_mem_singleton.mpr
    (Json.Plain.faithful (.arr (List.forall_mem_singleton.mpr .null)))

/-- The size of the file and the names that it imports are read back. -/
theorem rows_read_back_escaped : escaped.Faithful ∧ ∃ stats t,
    (run [.upsertProject 0 "/p" "p"]).persist 0 1
      { relativePath := "a.go", size := 0xFFFFFFFFFFFFFFFF } escaped = .ok (stats, t) ∧
    t.Readable ∧ ∃ g ∈ t.files, (∃ x, g.read = .ok x ∧ x.size = 0xFFFFFFFFFFFFFFFF) ∧
      ∃ xs, (t.importsIn g.id).mapM ImportRow.read = .ok xs ∧
        xs.map (·.names) = [["a\nb", "c\\d"]] := by
  have hs := reachable_run [.upsertProject 0 "/p" "p"]
  have hproject : ∃ r ∈ (run [.upsertProject 0 "/p" "p"]).projects, r.id = 1 := by decide +kernel
  obtain ⟨stats, t, ht⟩ := exists_persist hs.sound hproject 0
    { relativePath := "a.go", size := 0xFFFFFFFFFFFFFFFF } escaped
  obtain ⟨⟨g, hg, -, -, hback⟩, hreadable⟩ := hs.rows_read_back ht faithful_escaped
  obtain ⟨x, hx, -, hfile⟩ := hback.file
  obtain ⟨xs, hxs, -, himports⟩ := hback.imports.read
  refine ⟨faithful_escaped, stats, t, ht, hreadable, g, hg, ⟨x, hx, ?_⟩, xs, hxs, ?_⟩
  · exact congrArg SourceFile.size hfile
  · have hnames := congrArg (List.map fun y : String × ImportClause => y.2.names) himports
    rw [List.map_map, List.map_map] at hnames
    exact hnames

end Store

end CodeAtlas
