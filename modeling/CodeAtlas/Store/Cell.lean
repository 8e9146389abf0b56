import CodeAtlas.Json.Parse
import CodeAtlas.Json.Print
import CodeAtlas.Store.Write

/-!
# Single cells

Direct access to the tables by the names of their columns.

* `Store.groupCounts`: how often each value of a column occurs.
* `Store.setCell`: puts a text into a cell. A text that does not fit its column stays there as a flaw.
-/

namespace CodeAtlas

/-- What a cell holds. -/
inductive CellValue where
  | null
  | int (n : Int)
  | text (s : String)
  deriving DecidableEq, Inhabited

namespace CellValue

/-- A text that may be missing. -/
def ofText? : Option String → CellValue
  | some s => .text s
  | none => .null

/-- A number that may be missing. -/
def ofInt? : Option Int → CellValue
  | some n => .int n
  | none => .null

end CellValue

/-- A table as seen cell by cell: its columns, the id of a row, and the cell of a row. -/
structure TableView (ρ : Type) where
  columns : List String
  cell : ρ → String → CellValue

/-- The cell of a column, which may hold a flaw. -/
def flawOr (flaws : List Flaw) (column : String) (value : CellValue) : CellValue :=
  match flaws.find? (·.column == column) with
  | some f => .text f.text
  | none => value

/-- A cell with a 64-bit word. -/
def wordCell (n : Nat) : CellValue := .int (signed n)

def projectView : TableView ProjectRow where
  columns := ["id", "path", "name", "language_stats", "last_indexed", "created_at"]
  cell r c := flawOr r.flaws c <| match c with
    | "id" => .int r.id
    | "path" => .text r.path
    | "name" => .text r.name
    | "language_stats" =>
      .text (Json.obj (r.languageStats.map fun (l, n) => (l, .nat n))).compact
    | "last_indexed" => .ofInt? r.lastIndexed
    | _ => .int r.createdAt

def fileView : TableView FileRow where
  columns := ["id", "project_id", "path", "relative_path", "language", "size", "lines_of_code",
    "hash", "last_modified", "last_indexed"]
  cell r c := flawOr r.flaws c <| match c with
    | "id" => .int r.id
    | "project_id" => .int r.projectId
    | "path" => .text r.path
    | "relative_path" => .text r.relativePath
    | "language" => .text r.language
    | "size" => wordCell r.size
    | "lines_of_code" => wordCell r.linesOfCode
    | "hash" => .text r.hash
    | "last_modified" => .int r.lastModified
    | _ => .int r.lastIndexed

def symbolView : TableView SymbolRow where
  columns := ["id", "file_id", "name", "kind", "signature", "documentation", "visibility",
    "start_line", "start_column", "end_line", "end_column", "start_byte", "end_byte",
    "content_hash", "status", "priority", "assigned_agent", "metadata"]
  cell r c := flawOr r.flaws c <| match c with
    | "id" => .int r.id
    | "file_id" => .int r.fileId
    | "name" => .text r.name
    | "kind" => .text r.kind.label
    | "signature" => .ofText? r.signature
    | "documentation" => .ofText? r.documentation
    | "visibility" => .text r.visibility.label
    | "start_line" => wordCell r.range.startLine
    | "start_column" => wordCell r.range.startColumn
    | "end_line" => wordCell r.range.endLine
    | "end_column" => wordCell r.range.endColumn
    | "start_byte" => wordCell r.range.startByte
    | "end_byte" => wordCell r.range.endByte
    | "content_hash" => .text r.contentHash
    | "status" => .ofText? r.workflow.status
    | "priority" => .ofInt? r.workflow.priority
    | "assigned_agent" => .ofText? r.workflow.assignedAgent
    | _ => .text r.metadata.compact

def importView : TableView ImportRow where
  columns := ["id", "file_id", "file_path", "import_path", "alias", "imported_names",
    "is_wildcard", "start_line", "end_line"]
  cell r c := flawOr r.flaws c <| match c with
    | "id" => .int r.id
    | "file_id" => .int r.fileId
    | "file_path" => .text r.filePath
    | "import_path" => .text r.path
    | "alias" => .ofText? r.localName
    | "imported_names" => .text (Json.list .str r.names).compact
    | "is_wildcard" => .int (if r.isWildcard then 1 else 0)
    | "start_line" => wordCell r.startLine
    | _ => wordCell r.endLine

/-- The cells of edges. -/
def relationshipView : TableView RelationshipRow where
  columns := ["id", "file_id", "type", "source_symbol", "target_symbol", "source_symbol_id",
    "target_symbol_id", "file_path", "line", "metadata"]
  cell r c := flawOr r.flaws c <| match c with
    | "id" => .int r.id
    | "file_id" => .int r.fileId
    | "type" => .text r.kind.label
    | "source_symbol" => .text r.source
    | "target_symbol" => .text r.target
    | "source_symbol_id" => .ofInt? r.sourceId
    | "target_symbol_id" => .ofInt? r.targetId
    | "file_path" => .text r.filePath
    | "line" => wordCell r.line
    | _ => .text r.metadata.compact

/-- The cells of uses. -/
def referenceView : TableView ReferenceRow where
  columns := ["id", "file_id", "source_symbol_id", "target_symbol_name", "target_symbol_id",
    "qualifier", "reference_type", "file_path", "line", "column"]
  cell r c := flawOr r.flaws c <| match c with
    | "id" => .int r.id
    | "file_id" => .int r.fileId
    | "source_symbol_id" => .ofInt? r.sourceId
    | "target_symbol_name" => .text r.target
    | "target_symbol_id" => .ofInt? r.targetId
    | "qualifier" => .ofText? r.qualifier
    | "reference_type" => .text r.kind.label
    | "file_path" => .text r.filePath
    | "line" => wordCell r.line
    | _ => wordCell r.column

/-! ## Counting values -/

/-- How often each text of a column occurs, most frequent first. Of two equally frequent ones the
smaller comes first if `ascending` holds. Only texts can be counted. -/
def countLabels (ascending : Bool) (cells : List CellValue) : StoreM (List (String × Nat)) := do
  let labels ← cells.mapM fun
    | .text s => .ok s
    | _ => .error (.unreadable 0 "label")
  let order (a b : String × Nat) : Bool :=
    thenBy (compare b.2 a.2) (if ascending then compare a.1 b.1 else compare b.1 a.1)
  pure (sortBy order ((distinct labels).map fun l => (l, labels.count l)))

/-- How often each value of a column occurs. -/
def Store.groupCounts (s : Store) (table column : String) : StoreM (List (String × Nat)) :=
  let table := table.toLower
  let column := column.toLower
  let count {ρ : Type} (view : TableView ρ) (rows : List ρ) : StoreM (List (String × Nat)) :=
    if view.columns.contains column then
      countLabels ((table == "symbols" && column == "kind") ||
        (table == "files" && column == "language")) (rows.map fun r => view.cell r column)
    else .error .refused
  match table with
  | "projects" => count projectView s.projects
  | "files" => count fileView s.files
  | "symbols" => count symbolView s.symbols
  | "imports" => count importView s.imports
  | "relationships" => count relationshipView s.relationships
  | "symbol_references" => count referenceView s.references
  | "symbols_fts" =>
    if ["name", "signature", "documentation"].contains column then count symbolView s.symbols
    else .error .refused
  | _ => .error .refused

/-! ## Changing cells -/

/-- The whole number that a text writes. -/
def wholeNumber? (s : String) : Option Int := do
  let cs := (Text.trim s).toList
  let (negative, digits) := match cs with
    | '-' :: ds => (true, ds)
    | '+' :: ds => (false, ds)
    | ds => (false, ds)
  guard (!digits.isEmpty && digits.all Char.isDigit)
  let n : Int := digits.foldl (fun n d => 10 * n + (d.toNat - 48)) (0 : Nat)
  let n := if negative then -n else n
  guard (-0x8000000000000000 ≤ n && n < 0x8000000000000000)
  pure n

def putNumber {ρ : Type} (column text : String) (flaws : List Flaw) (put : Int → ρ)
    (spoil : List Flaw → ρ) : ρ :=
  match wholeNumber? text with
  | some n => put n
  | none => spoil (⟨column, text⟩ :: mend [column] flaws)

/-- Puts a text into a column of names of an enumeration. -/
def putName {α ρ : Type} (column text : String) (value : Option α) (flaws : List Flaw)
    (put : α → ρ) (spoil : List Flaw → ρ) : ρ :=
  match value with
  | some a => put a
  | none => spoil (⟨column, text⟩ :: mend [column] flaws)

/-- The object or other value that a text writes; no text of that kind counts as the empty object. -/
def jsonOrEmpty (text : String) : Json := (Json.parse? text).getD .empty

/-- The list of texts that a text writes; no text of that kind counts as the empty list. -/
def namesOrEmpty (text : String) : List String :=
  (((Json.parse? text).bind Json.asArr?).bind fun items => items.mapM Json.asStr?).getD []

/-- The counts by language that a text writes; no text of that kind counts as none. -/
def countsOrEmpty (text : String) : List (String × Nat) :=
  match Json.parse? text with
  | some (.obj members) => (members.mapM fun m => (Json.asWord? m.2).map fun n => (m.1, n)).getD []
  | _ => []

/-- A symbol with another cell. -/
def SymbolRow.put (r : SymbolRow) (column text : String) : SymbolRow :=
  let r := { r with flaws := mend [column] r.flaws }
  let spoil (flaws : List Flaw) : SymbolRow := { r with flaws }
  let place (f : Nat → Range) : SymbolRow :=
    putNumber column text r.flaws (fun n => { r with range := f (unsigned n) }) spoil
  match column with
  | "name" => { r with name := text }
  | "kind" =>
    putName column text (SymbolKind.ofLabel? text) r.flaws (fun k => { r with kind := k }) spoil
  | "signature" => { r with signature := some text }
  | "documentation" => { r with documentation := some text }
  | "visibility" =>
    putName column text (Visibility.ofLabel? text) r.flaws (fun v => { r with visibility := v })
      spoil
  | "start_line" => place fun n => { r.range with startLine := n }
  | "start_column" => place fun n => { r.range with startColumn := n }
  | "end_line" => place fun n => { r.range with endLine := n }
  | "end_column" => place fun n => { r.range with endColumn := n }
  | "start_byte" => place fun n => { r.range with startByte := n }
  | "end_byte" => place fun n => { r.range with endByte := n }
  | "content_hash" => { r with contentHash := text }
  | "status" => { r with workflow := { r.workflow with status := some text } }
  | "priority" =>
    putNumber column text r.flaws
      (fun n => { r with workflow := { r.workflow with priority := some n } }) spoil
  | "assigned_agent" => { r with workflow := { r.workflow with assignedAgent := some text } }
  | _ => { r with metadata := jsonOrEmpty text }

/-- A project with another cell. -/
def ProjectRow.put (r : ProjectRow) (column text : String) : ProjectRow :=
  let r := { r with flaws := mend [column] r.flaws }
  let spoil (flaws : List Flaw) : ProjectRow := { r with flaws }
  match column with
  | "path" => { r with path := text }
  | "name" => { r with name := text }
  | "language_stats" => { r with languageStats := countsOrEmpty text }
  | "last_indexed" =>
    putNumber column text r.flaws (fun n => { r with lastIndexed := some n }) spoil
  | _ => putNumber column text r.flaws (fun n => { r with createdAt := n }) spoil

/-- A file with another cell. -/
def FileRow.put (r : FileRow) (column text : String) : FileRow :=
  let r := { r with flaws := mend [column] r.flaws }
  let spoil (flaws : List Flaw) : FileRow := { r with flaws }
  match column with
  | "path" => { r with path := text }
  | "relative_path" => { r with relativePath := text }
  | "language" => { r with language := text }
  | "size" => putNumber column text r.flaws (fun n => { r with size := unsigned n }) spoil
  | "lines_of_code" =>
    putNumber column text r.flaws (fun n => { r with linesOfCode := unsigned n }) spoil
  | "hash" => { r with hash := text }
  | "last_modified" => putNumber column text r.flaws (fun n => { r with lastModified := n }) spoil
  | _ => putNumber column text r.flaws (fun n => { r with lastIndexed := n }) spoil

/-- An import with another cell. -/
def ImportRow.put (r : ImportRow) (column text : String) : ImportRow :=
  let r := { r with flaws := mend [column] r.flaws }
  let spoil (flaws : List Flaw) : ImportRow := { r with flaws }
  match column with
  | "file_path" => { r with filePath := text }
  | "import_path" => { r with path := text }
  | "alias" => { r with localName := some text }
  | "imported_names" => { r with names := namesOrEmpty text }
  | "is_wildcard" => putNumber column text r.flaws (fun n => { r with isWildcard := n != 0 }) spoil
  | "start_line" => putNumber column text r.flaws (fun n => { r with startLine := unsigned n }) spoil
  | _ => putNumber column text r.flaws (fun n => { r with endLine := unsigned n }) spoil

/-- An edge with another cell. -/
def RelationshipRow.put (r : RelationshipRow) (column text : String) : RelationshipRow :=
  let r := { r with flaws := mend [column] r.flaws }
  let spoil (flaws : List Flaw) : RelationshipRow := { r with flaws }
  match column with
  | "type" =>
    putName column text (EdgeKind.ofLabel? text) r.flaws (fun k => { r with kind := k }) spoil
  | "source_symbol" => { r with source := text }
  | "target_symbol" => { r with target := text }
  | "source_symbol_id" => { r with sourceId := wholeNumber? text }
  | "target_symbol_id" => { r with targetId := wholeNumber? text }
  | "file_path" => { r with filePath := text }
  | "line" => putNumber column text r.flaws (fun n => { r with line := unsigned n }) spoil
  | _ => { r with metadata := jsonOrEmpty text }

/-- A use with another cell. -/
def ReferenceRow.put (r : ReferenceRow) (column text : String) : ReferenceRow :=
  let r := { r with flaws := mend [column] r.flaws }
  let spoil (flaws : List Flaw) : ReferenceRow := { r with flaws }
  match column with
  | "source_symbol_id" => { r with sourceId := wholeNumber? text }
  | "target_symbol_name" => { r with target := text }
  | "target_symbol_id" => { r with targetId := wholeNumber? text }
  | "qualifier" => { r with qualifier := some text }
  | "reference_type" =>
    putName column text (UseKind.ofLabel? text) r.flaws (fun k => { r with kind := k }) spoil
  | "file_path" => { r with filePath := text }
  | "line" => putNumber column text r.flaws (fun n => { r with line := unsigned n }) spoil
  | _ => putNumber column text r.flaws (fun n => { r with column := unsigned n }) spoil

/-- Changes the row with an id; there is at most one. -/
def changeRow {ρ : Type} (view : TableView ρ) (rows : List ρ) (id : Int) (column text : String)
    (isFree : Bool) (change : ρ → ρ) : StoreM (Nat × List ρ) :=
  if !view.columns.contains column then .error .refused
  else if rows.any (fun r => view.cell r "id" == .int id) then
    if column == "id" then
      if wholeNumber? text == some id then .ok (1, rows) else .error .refused
    else if !isFree then .error .refused
    else .ok (1, rows.map fun r => if view.cell r "id" == .int id then change r else r)
  else .ok (0, rows)

/-- Puts a text into the cell of a row; says how many rows were changed. Owners and the ends of links
have to exist, and paths stay unique. -/
def Store.setCell (s : Store) (table column : String) (id : Int) (text : String) :
    StoreM (Nat × Store) := do
  let table := table.toLower
  let column := column.toLower
  let number := wholeNumber? text
  let isFile := number.any fun n => s.files.any (·.id == n)
  let isSymbol := number.any fun n => s.symbols.any (·.id == n)
  match table with
  | "projects" =>
    let isFree := !(column == "path" && s.projects.any fun r => r.path == text && r.id != id)
    let (n, projects) ← changeRow projectView s.projects id column text isFree (·.put column text)
    pure (n, { s with projects })
  | "files" =>
    let isFree :=
      if column == "relative_path" then
        !(s.files.any fun r => r.id == id && s.files.any fun q =>
          q.id != id && q.projectId == r.projectId && q.relativePath == text)
      else if column == "project_id" then
        (number.any fun n => s.projects.any (·.id == n)) &&
          !(s.files.any fun r => r.id == id && s.files.any fun q =>
            q.id != id && some q.projectId == number && q.relativePath == r.relativePath)
      else true
    let change (r : FileRow) : FileRow :=
      if column == "project_id" then { r with projectId := number.getD 0 } else r.put column text
    let (n, files) ← changeRow fileView s.files id column text isFree change
    pure (n, { s with files })
  | "symbols" =>
    let change (r : SymbolRow) : SymbolRow :=
      if column == "file_id" then { r with fileId := number.getD 0 } else r.put column text
    let (n, symbols) ← changeRow symbolView s.symbols id column text
      (column != "file_id" || isFile) change
    pure (n, { s with symbols })
  | "imports" =>
    let change (r : ImportRow) : ImportRow :=
      if column == "file_id" then { r with fileId := number.getD 0 } else r.put column text
    let (n, imports) ← changeRow importView s.imports id column text
      (column != "file_id" || isFile) change
    pure (n, { s with imports })
  | "relationships" =>
    let isLink := column == "source_symbol_id" || column == "target_symbol_id"
    let change (r : RelationshipRow) : RelationshipRow :=
      if column == "file_id" then { r with fileId := number.getD 0 } else r.put column text
    let (n, relationships) ← changeRow relationshipView s.relationships id column text
      ((column != "file_id" || isFile) && (!isLink || isSymbol)) change
    pure (n, { s with relationships })
  | "symbol_references" =>
    let isLink := column == "source_symbol_id" || column == "target_symbol_id"
    let change (r : ReferenceRow) : ReferenceRow :=
      if column == "file_id" then { r with fileId := number.getD 0 } else r.put column text
    let (n, references) ← changeRow referenceView s.references id column text
      ((column != "file_id" || isFile) && (!isLink || isSymbol)) change
    pure (n, { s with references })
  | _ => .error .refused

end CodeAtlas
