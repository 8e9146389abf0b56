import CodeAtlas.Json.Parse
import CodeAtlas.Json.Print
import CodeAtlas.Wire.Record

/-!
# The store as a text

* `Store.snapshot`: the whole store as a text, for the index file of a project.
* `Store.ofSnapshot?`: the store that such a text stands for.

Flaws of single cells are not part of a snapshot.
-/

namespace CodeAtlas

/-! ## Writing -/

/-- A record with the file it belongs to. -/
def ownedJson (fileId : Int) (record : Json) : Json := record.set "file_id" (.int fileId)

def Counters.toJson (c : Counters) : Json :=
  .object [("projects", .int c.projects), ("files", .int c.files), ("symbols", .int c.symbols),
    ("imports", .int c.imports), ("relationships", .int c.relationships),
    ("references", .int c.references)]

/-- A stored symbol as a value. -/
def SymbolRow.toJson (r : SymbolRow) : Json :=
  ({ toDeclaration := r.toDeclaration, id := r.id, fileId := r.fileId } : Symbol).toJson

/-- The whole store as a value. -/
def Store.toJson (s : Store) : Json :=
  .object [("projects", .list (fun (r : ProjectRow) => r.toProject.toJson) s.projects),
    ("files", .list (fun (r : FileRow) => r.toFile.toJson) s.files),
    ("symbols", .list SymbolRow.toJson s.symbols),
    ("imports", .list (fun (r : ImportRow) => ownedJson r.fileId r.toImport.toJson) s.imports),
    ("relationships",
      .list (fun (r : RelationshipRow) => ownedJson r.fileId r.toRelationship.toJson)
        s.relationships),
    ("references",
      .list (fun (r : ReferenceRow) => ownedJson r.fileId r.toReference.toJson) s.references),
    ("last", s.last.toJson)]

/-- The whole store as a text. -/
def Store.snapshot (s : Store) : String := s.toJson.compact

/-! ## Reading -/

/-- The members of an object. -/
def members? : Json → Option (List (String × Json))
  | .obj members => some members
  | _ => none

/-- The items of a list, each of which must be readable. -/
def listField? {α : Type} (fields : List (String × Json)) (name : String)
    (read : Json → Option α) : Option (List α) :=
  field? fields name fun j => j.asArr?.bind (·.mapM read)

def Counters.ofJson? (j : Json) : Option Counters := do
  let fields ← members? j
  let number (name : String) : Option Int := field? fields name Json.asSigned?
  pure
    { projects := ← number "projects"
      files := ← number "files"
      symbols := ← number "symbols"
      imports := ← number "imports"
      relationships := ← number "relationships"
      references := ← number "references" }

/-- The numbers of files by language from a value. -/
def languageStats? (j : Json) : Option (List (String × Nat)) := do
  (← members? j).mapM fun (language, n) => n.asWord?.map fun n => (language, n)

/-- A stored project from a value. -/
def ProjectRow.ofJson? (j : Json) : Option ProjectRow := do
  let fields ← members? j
  pure
    { id := ← field? fields "id" Json.asSigned?
      path := ← field? fields "path" Json.asStr?
      name := ← field? fields "name" Json.asStr?
      languageStats := ← field? fields "language_stats" languageStats?
      createdAt := ← field? fields "created_at" Json.asSigned?
      lastIndexed := ← optionalField? fields "last_indexed" Json.asSigned? }

/-- A stored file from a value. -/
def FileRow.ofJson? (j : Json) : Option FileRow := do
  let fields ← members? j
  pure
    { id := ← field? fields "id" Json.asSigned?
      projectId := ← field? fields "project_id" Json.asSigned?
      path := ← field? fields "path" Json.asStr?
      relativePath := ← field? fields "relative_path" Json.asStr?
      language := ← field? fields "language" Json.asStr?
      size := ← field? fields "size" Json.asWord?
      linesOfCode := ← field? fields "lines_of_code" Json.asWord?
      hash := ← field? fields "hash" Json.asStr?
      lastModified := ← field? fields "last_modified" Json.asSigned?
      lastIndexed := ← field? fields "last_indexed" Json.asSigned? }

/-- A stored symbol from a value. -/
def SymbolRow.ofJson? (j : Json) : Option SymbolRow :=
  (Symbol.ofJson? j).map fun s =>
    { toDeclaration := s.toDeclaration, id := s.id, fileId := s.fileId }

/-- A stored import from a value. -/
def ImportRow.ofJson? (j : Json) : Option ImportRow := do
  let fields ← members? j
  pure
    { id := ← field? fields "id" Json.asSigned?
      fileId := ← field? fields "file_id" Json.asSigned?
      filePath := ← field? fields "file_path" Json.asStr?
      path := ← field? fields "path" Json.asStr?
      localName := ← optionalField? fields "alias" Json.asStr?
      names := ← listField? fields "imported_names" Json.asStr?
      isWildcard := ← field? fields "is_wildcard" Json.asBool?
      startLine := ← field? fields "start_line" Json.asWord?
      endLine := ← field? fields "end_line" Json.asWord? }

/-- A stored edge from a value. -/
def RelationshipRow.ofJson? (j : Json) : Option RelationshipRow := do
  let fields ← members? j
  pure
    { id := ← field? fields "id" Json.asSigned?
      fileId := ← field? fields "file_id" Json.asSigned?
      kind := ← field? fields "kind" (enumName? EdgeKind.ofLabel?)
      source := ← field? fields "source_symbol" Json.asStr?
      target := ← field? fields "target_symbol" Json.asStr?
      sourceId := ← optionalField? fields "source_symbol_id" Json.asSigned?
      targetId := ← optionalField? fields "target_symbol_id" Json.asSigned?
      filePath := ← field? fields "file_path" Json.asStr?
      line := ← field? fields "line" Json.asWord?
      metadata := ← field? fields "metadata" some }

/-- A stored use from a value. -/
def ReferenceRow.ofJson? (j : Json) : Option ReferenceRow := do
  let fields ← members? j
  pure
    { id := ← field? fields "id" Json.asSigned?
      fileId := ← field? fields "file_id" Json.asSigned?
      sourceId := ← optionalField? fields "source_symbol_id" Json.asSigned?
      target := ← field? fields "target_symbol_name" Json.asStr?
      targetId := ← optionalField? fields "target_symbol_id" Json.asSigned?
      qualifier := ← optionalField? fields "qualifier" Json.asStr?
      kind := ← field? fields "reference_type" (enumName? UseKind.ofLabel?)
      filePath := ← field? fields "file_path" Json.asStr?
      line := ← field? fields "line" Json.asWord?
      column := ← field? fields "column" Json.asWord? }

def Store.ofJson? (j : Json) : Option Store := do
  let fields ← members? j
  pure
    { projects := ← listField? fields "projects" ProjectRow.ofJson?
      files := ← listField? fields "files" FileRow.ofJson?
      symbols := ← listField? fields "symbols" SymbolRow.ofJson?
      imports := ← listField? fields "imports" ImportRow.ofJson?
      relationships := ← listField? fields "relationships" RelationshipRow.ofJson?
      references := ← listField? fields "references" ReferenceRow.ofJson?
      last := ← field? fields "last" Counters.ofJson? }

/-- The store that a text stands for. -/
def Store.ofSnapshot? (text : String) : Option Store := (Json.parse? text).bind Store.ofJson?

end CodeAtlas
