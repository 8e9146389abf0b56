import CodeAtlas.Change.Basic
import CodeAtlas.Project
import CodeAtlas.Store.Reconcile

/-!
# Stored records as values

* `Symbol.toJson`, `File.toJson`, …: the records of the store as JSON values.
* `Symbol.ofJson?`, `SymbolChange.ofJson?`: symbols and changes from JSON values. A record is written
  as an object, or as the array of its fields; unknown members of an object are ignored.
-/

namespace CodeAtlas

/-! ## Writing -/

def Range.toJson (r : Range) : Json :=
  .object [("start_line", .nat r.startLine), ("start_column", .nat r.startColumn),
    ("end_line", .nat r.endLine), ("end_column", .nat r.endColumn),
    ("start_byte", .nat r.startByte), ("end_byte", .nat r.endByte)]

def Symbol.toJson (s : Symbol) : Json :=
  .object [("id", .int s.id), ("file_id", .int s.fileId), ("file_path", .str s.filePath),
    ("name", .str s.name), ("kind", .str s.kind.label), ("signature", .ofOption .str s.signature),
    ("documentation", .ofOption .str s.documentation), ("visibility", .str s.visibility.label),
    ("range", s.range.toJson), ("content_hash", .str s.contentHash),
    ("status", .ofOption .str s.workflow.status), ("priority", .ofOption .int s.workflow.priority),
    ("assigned_agent", .ofOption .str s.workflow.assignedAgent), ("metadata", s.metadata)]

def File.toJson (f : File) : Json :=
  .object [("id", .int f.id), ("project_id", .int f.projectId), ("path", .str f.path),
    ("relative_path", .str f.relativePath), ("language", .str f.language), ("size", .nat f.size),
    ("lines_of_code", .nat f.linesOfCode), ("hash", .str f.hash),
    ("last_modified", .int f.lastModified), ("last_indexed", .int f.lastIndexed)]

/-- The numbers of files by language as a value. -/
def languageStatsJson (stats : List (String × Nat)) : Json :=
  .object (stats.map fun (language, n) => (language, .nat n))

def Project.toJson (p : Project) : Json :=
  .object [("id", .int p.id), ("path", .str p.path), ("name", .str p.name),
    ("language_stats", languageStatsJson p.languageStats), ("created_at", .int p.createdAt),
    ("last_indexed", .ofOption .int p.lastIndexed)]

/-- An edge as a value. -/
def Relationship.toJson (r : Relationship) : Json :=
  .object [("id", .int r.id), ("kind", .str r.kind.label), ("source_symbol", .str r.source),
    ("target_symbol", .str r.target), ("source_symbol_id", .ofOption .int r.sourceId),
    ("target_symbol_id", .ofOption .int r.targetId), ("file_path", .str r.filePath),
    ("line", .nat r.line), ("metadata", r.metadata)]

/-- A use as a value. -/
def Reference.toJson (r : Reference) : Json :=
  .object [("id", .int r.id), ("source_symbol_id", .ofOption .int r.sourceId),
    ("target_symbol_name", .str r.target), ("target_symbol_id", .ofOption .int r.targetId),
    ("qualifier", .ofOption .str r.qualifier), ("reference_type", .str r.kind.label),
    ("file_path", .str r.filePath), ("line", .nat r.line), ("column", .nat r.column)]

def Import.toJson (i : Import) : Json :=
  .object [("id", .int i.id), ("file_path", .str i.filePath), ("path", .str i.path),
    ("alias", .ofOption .str i.localName), ("imported_names", .list .str i.names),
    ("is_wildcard", .bool i.isWildcard), ("start_line", .nat i.startLine),
    ("end_line", .nat i.endLine)]

/-- The counters of a write as a value. -/
def WriteStats.toJson (w : WriteStats) : Json :=
  .object [("files_written", .nat w.filesWritten), ("symbols_inserted", .nat w.symbolsInserted),
    ("symbols_updated", .nat w.symbolsUpdated), ("symbols_unchanged", .nat w.symbolsUnchanged),
    ("symbols_moved", .nat w.symbolsMoved), ("symbols_removed", .nat w.symbolsRemoved),
    ("imports_written", .nat w.importsWritten),
    ("relationships_written", .nat w.relationshipsWritten),
    ("references_written", .nat w.referencesWritten)]

/-- A change as a value; its kind is the member `type`. -/
def Change.toJson : Change → Json
  | rename newName => .object [("type", .str "rename"), ("new_name", .str newName)]
  | delete => .object [("type", .str "delete")]
  | modify new => .object [("type", .str "modify"), ("new", new.toJson)]

def SymbolChange.toJson (c : SymbolChange) : Json :=
  .object [("symbol", .str c.symbol), ("change", c.change.toJson)]

/-! ## Reading -/

/-- The fields of a record: the members of an object, or the items of an array that has one for each
field. -/
def recordFields? (names : List String) (j : Json) : Option (List (String × Json)) :=
  match j with
  | .obj members => some members
  | .arr items => if items.length == names.length then some (names.zip items) else none
  | _ => none

/-- A field that must be there. -/
def field? {α : Type} (fields : List (String × Json)) (name : String) (read : Json → Option α) :
    Option α :=
  (fields.lookup name).bind read

/-- A field that may be missing or null. -/
def optionalField? {α : Type} (fields : List (String × Json)) (name : String)
    (read : Json → Option α) : Option (Option α) :=
  match fields.lookup name with
  | none | some .null => some none
  | some j => (read j).map some

/-- A name of an enumeration: a text, or an object with that name for its only member, which is
null. -/
def enumName? {α : Type} (ofLabel? : String → Option α) : Json → Option α
  | .str s => ofLabel? s
  | .obj [(s, .null)] => ofLabel? s
  | _ => none

def Range.ofJson? (j : Json) : Option Range := do
  let fields ← recordFields? ["start_line", "start_column", "end_line", "end_column", "start_byte",
    "end_byte"] j
  let word (name : String) : Option Nat := field? fields name Json.asWord?
  pure
    { startLine := ← word "start_line"
      startColumn := ← word "start_column"
      endLine := ← word "end_line"
      endColumn := ← word "end_column"
      startByte := ← word "start_byte"
      endByte := ← word "end_byte" }

def Symbol.ofJson? (j : Json) : Option Symbol := do
  let fields ← recordFields? ["id", "file_id", "file_path", "name", "kind", "signature",
    "documentation", "visibility", "range", "content_hash", "status", "priority", "assigned_agent",
    "metadata"] j
  pure
    { id := ← field? fields "id" Json.asSigned?
      fileId := ← field? fields "file_id" Json.asSigned?
      filePath := ← field? fields "file_path" Json.asStr?
      name := ← field? fields "name" Json.asStr?
      kind := ← field? fields "kind" (enumName? SymbolKind.ofLabel?)
      signature := ← optionalField? fields "signature" Json.asStr?
      documentation := ← optionalField? fields "documentation" Json.asStr?
      visibility := ← field? fields "visibility" (enumName? Visibility.ofLabel?)
      range := ← field? fields "range" Range.ofJson?
      contentHash := ← field? fields "content_hash" Json.asStr?
      workflow :=
        { status := ← optionalField? fields "status" Json.asStr?
          priority := ← optionalField? fields "priority" Json.asSigned?
          assignedAgent := ← optionalField? fields "assigned_agent" Json.asStr? }
      metadata := ← field? fields "metadata" some }

def Change.ofFields? (kind : String) (payload : Json) : Option Change :=
  match kind with
  | "delete" => some .delete
  | "rename" => do
    let fields ← recordFields? ["new_name"] payload
    pure (.rename (← field? fields "new_name" Json.asStr?))
  | "modify" => do
    let fields ← recordFields? ["new"] payload
    pure (.modify (← field? fields "new" Symbol.ofJson?))
  | _ => none

/-- A change from a value: an object with the member `type`, or an array with the kind in front. -/
def Change.ofJson? (j : Json) : Option Change :=
  match j with
  | .obj members => do ofFields? (← field? members "type" Json.asStr?) j
  | .arr (.str kind :: rest) => ofFields? kind (.arr rest)
  | _ => none

def SymbolChange.ofJson? (j : Json) : Option SymbolChange := do
  let fields ← recordFields? ["symbol", "change"] j
  pure
    { symbol := ← field? fields "symbol" Json.asStr?
      change := ← field? fields "change" Change.ofJson? }

end CodeAtlas
