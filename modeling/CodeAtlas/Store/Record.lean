import CodeAtlas.Store.Cell

/-!
# Rows as records

How the tables hold their rows: which cells a statement binds, and how a row is read from the cells
that a query asks for.

* `Record`: a row as its cells, by the names of their columns; `Record.set`: the row after some of its
  cells were set.
* `fileCells`, `symbolCells`, …: the columns that a statement names, with the values it binds.
* `select`: the cells that a query asks for, in its order; `Selected`: these cells, read by position.
* `FileRow.read`, `SymbolRow.read`, …: a row as it is read from its record.
-/

namespace CodeAtlas

/-- A row as it is stored: its cells by the names of their columns. -/
abbrev Record := List (String × CellValue)

/-- The record after some of its cells were set. -/
def Record.set (r cells : Record) : Record :=
  r.map fun (column, cell) => (column, (cells.lookup column).getD cell)

/-- The record of a row. -/
def TableView.record {ρ : Type} (view : TableView ρ) (r : ρ) : Record :=
  view.columns.map fun column => (column, view.cell r column)

/-! ## What statements bind -/

/-- What is bound when a file is inserted. -/
def fileCells (now project : Int) (f : SourceFile) : Record :=
  ["project_id", "path", "relative_path", "language", "size", "lines_of_code", "hash",
    "last_modified", "last_indexed"].zip
  [.int project, .text f.path, .text f.relativePath, .text f.language, wordCell f.size,
    wordCell f.linesOfCode, .text f.hash, .int f.lastModified, .int now]

/-- What is set in the row that is already there when a file is inserted again. -/
def fileConflictCells (now project : Int) (f : SourceFile) : Record :=
  (fileCells now project f).filter fun cell =>
    ["path", "language", "size", "lines_of_code", "hash", "last_modified", "last_indexed"].contains
      cell.1

/-- What is bound when a symbol is inserted. -/
def symbolCells (fileId : Int) (d : Declaration) : Record :=
  ["file_id", "name", "kind", "signature", "documentation", "visibility", "start_line",
    "start_column", "end_line", "end_column", "start_byte", "end_byte", "content_hash", "status",
    "priority", "assigned_agent", "metadata"].zip
  [.int fileId, .text d.name, .text d.kind.label, .ofText? d.signature, .ofText? d.documentation,
    .text d.visibility.label, wordCell d.range.startLine, wordCell d.range.startColumn,
    wordCell d.range.endLine, wordCell d.range.endColumn, wordCell d.range.startByte,
    wordCell d.range.endByte, .text d.contentHash, .ofText? d.workflow.status,
    .ofInt? d.workflow.priority, .ofText? d.workflow.assignedAgent, .text d.metadata.compact]

/-- What is set when a symbol is moved. -/
def moveCells (range : Range) : Record :=
  ["start_line", "start_column", "end_line", "end_column", "start_byte", "end_byte"].zip
  [wordCell range.startLine, wordCell range.startColumn, wordCell range.endLine,
    wordCell range.endColumn, wordCell range.startByte, wordCell range.endByte]

/-- What is set when a symbol is rewritten. -/
def rewriteCells (d : Declaration) : Record :=
  ["signature", "documentation", "visibility", "start_line", "start_column", "end_line",
    "end_column", "start_byte", "end_byte", "content_hash", "metadata"].zip
  [.ofText? d.signature, .ofText? d.documentation, .text d.visibility.label,
    wordCell d.range.startLine, wordCell d.range.startColumn, wordCell d.range.endLine,
    wordCell d.range.endColumn, wordCell d.range.startByte, wordCell d.range.endByte,
    .text d.contentHash, .text d.metadata.compact]

/-- What is set in a row that is matched with a declaration. -/
def SymbolRow.updateCells (r : SymbolRow) (d : Declaration) : Record :=
  match (r.update d).1 with
  | .kept | .inserted => []
  | .moved => moveCells d.range
  | .updated => rewriteCells d

/-- What is bound when an import is inserted. -/
def importCells (fileId : Int) (path : String) (c : ImportClause) : Record :=
  ["file_id", "file_path", "import_path", "alias", "imported_names", "is_wildcard", "start_line",
    "end_line"].zip
  [.int fileId, .text path, .text c.path, .ofText? c.localName,
    .text (Json.list .str c.names).compact, .int (if c.isWildcard then 1 else 0),
    wordCell c.startLine, wordCell c.endLine]

/-- What is bound when an edge is inserted. -/
def edgeCells (fileId : Int) (path : String) (sourceId targetId : Option Int) (e : Edge) : Record :=
  ["file_id", "type", "source_symbol", "target_symbol", "source_symbol_id", "target_symbol_id",
    "file_path", "line", "metadata"].zip
  [.int fileId, .text e.kind.label, .text e.source, .text e.target, .ofInt? sourceId,
    .ofInt? targetId, .text path, wordCell e.line, .text e.metadata.compact]

/-- What is bound when a use is inserted. -/
def useCells (fileId : Int) (path : String) (sourceId targetId : Option Int) (u : Use) : Record :=
  ["file_id", "source_symbol_id", "target_symbol_name", "target_symbol_id", "qualifier",
    "reference_type", "file_path", "line", "column"].zip
  [.int fileId, .ofInt? sourceId, .text u.target, .ofInt? targetId, .ofText? u.qualifier,
    .text u.kind.label, .text path, wordCell u.line, wordCell u.column]

/-! ## What queries ask for -/

/-- The cells that a query asks for, with the names of their columns. -/
abbrev Selected := List (String × CellValue)

/-- Selects columns, each with the table that it is of. -/
def select (tables : List (String × Record)) (columns : List (String × String)) : StoreM Selected :=
  columns.mapM fun (table, column) =>
    match (tables.lookup table).bind (·.lookup column) with
    | some cell => .ok (column, cell)
    | none => .error .refused

/-- The columns of one table. -/
def columnsOf (table : String) (columns : List String) : List (String × String) :=
  columns.map fun column => (table, column)

def fileColumns : List (String × String) :=
  columnsOf "files" ["id", "project_id", "path", "relative_path", "language", "size",
    "lines_of_code", "hash", "last_modified", "last_indexed"]

def symbolColumns : List (String × String) :=
  columnsOf "s" ["id", "file_id"] ++ columnsOf "f" ["relative_path"] ++
    columnsOf "s" ["name", "kind", "signature", "documentation", "visibility", "start_line",
      "start_column", "end_line", "end_column", "start_byte", "end_byte", "content_hash", "status",
      "priority", "assigned_agent", "metadata"]

def importColumns : List (String × String) :=
  columnsOf "i" ["id", "file_path", "import_path", "alias", "imported_names", "is_wildcard",
    "start_line", "end_line"]

def relationshipColumns : List (String × String) :=
  columnsOf "r" ["id", "type", "source_symbol", "target_symbol", "source_symbol_id",
    "target_symbol_id", "file_path", "line", "metadata"]

def referenceColumns : List (String × String) :=
  columnsOf "r" ["id", "source_symbol_id", "target_symbol_name", "target_symbol_id", "qualifier",
    "reference_type", "file_path", "line", "column"]

/-! ## Reading by position -/

namespace CellValue

def asInt? : CellValue → Option Int
  | .int n => some n
  | _ => none

def asText? : CellValue → Option String
  | .text s => some s
  | _ => none

/-- A cell that may be empty. -/
def orNull {α : Type} (as? : CellValue → Option α) : CellValue → Option (Option α)
  | .null => some none
  | cell => (as? cell).map some

end CellValue

namespace Selected

/-- The cell at a position, if it is of the right kind. -/
def get {α : Type} (r : Selected) (position : Nat) (as? : CellValue → Option α) : StoreM α :=
  match r[position]? with
  | none => .error .refused
  | some (column, cell) =>
    match as? cell with
    | some a => .ok a
    | none => .error (.unreadable position column)

def int (r : Selected) (position : Nat) : StoreM Int := r.get position CellValue.asInt?

def text (r : Selected) (position : Nat) : StoreM String := r.get position CellValue.asText?

def int? (r : Selected) (position : Nat) : StoreM (Option Int) :=
  r.get position (CellValue.orNull CellValue.asInt?)

def text? (r : Selected) (position : Nat) : StoreM (Option String) :=
  r.get position (CellValue.orNull CellValue.asText?)

/-- A 64-bit word. -/
def word (r : Selected) (position : Nat) : StoreM Nat := do pure (unsigned (← r.int position))

/-- A truth value; any number but zero counts as true. -/
def flag (r : Selected) (position : Nat) : StoreM Bool := do pure ((← r.int position) != 0)

/-- A JSON value; a cell without one counts as the empty object. -/
def json (r : Selected) (position : Nat) : StoreM Json := do
  pure (((← r.text? position).map jsonOrEmpty).getD .empty)

end Selected

/-- The value of an enumeration with the name that a cell holds. -/
def ofName {α : Type} (position : Nat) (what : String) (ofLabel? : String → Option α)
    (text : String) : StoreM α :=
  match ofLabel? text with
  | some a => .ok a
  | none => .error (.unknownName position what text)

/-- A file from the cells of `fileColumns`. -/
def File.ofCells (r : Selected) : StoreM File := do
  pure
    { id := ← r.int 0
      projectId := ← r.int 1
      path := ← r.text 2
      relativePath := ← r.text 3
      language := ← r.text 4
      size := ← r.word 5
      linesOfCode := ← r.word 6
      hash := ← r.text 7
      lastModified := ← r.int 8
      lastIndexed := ← r.int 9 }

/-- A symbol from the cells of `symbolColumns`. -/
def Symbol.ofCells (r : Selected) : StoreM Symbol := do
  let kind ← r.text 4
  let visibility ← r.text 7
  pure
    { id := ← r.int 0
      fileId := ← r.int 1
      filePath := ← r.text 2
      name := ← r.text 3
      kind := ← ofName 4 "symbol kind" SymbolKind.ofLabel? kind
      signature := ← r.text? 5
      documentation := ← r.text? 6
      visibility := ← ofName 7 "visibility" Visibility.ofLabel? visibility
      range :=
        { startLine := ← r.word 8
          startColumn := ← r.word 9
          endLine := ← r.word 10
          endColumn := ← r.word 11
          startByte := ← r.word 12
          endByte := ← r.word 13 }
      contentHash := ← r.text 14
      workflow :=
        { status := ← r.text? 15
          priority := ← r.int? 16
          assignedAgent := ← r.text? 17 }
      metadata := ← r.json 18 }

/-- An import from the cells of `importColumns`. -/
def Import.ofCells (r : Selected) : StoreM Import := do
  let names ← r.text 4
  pure
    { id := ← r.int 0
      filePath := ← r.text 1
      path := ← r.text 2
      localName := ← r.text? 3
      names := namesOrEmpty names
      isWildcard := ← r.flag 5
      startLine := ← r.word 6
      endLine := ← r.word 7 }

/-- An edge from the cells of `relationshipColumns`. -/
def Relationship.ofCells (r : Selected) : StoreM Relationship := do
  let kind ← r.text 1
  pure
    { id := ← r.int 0
      kind := ← ofName 1 "relationship type" EdgeKind.ofLabel? kind
      source := ← r.text 2
      target := ← r.text 3
      sourceId := ← r.int? 4
      targetId := ← r.int? 5
      filePath := ← r.text 6
      line := ← r.word 7
      metadata := ← r.json 8 }

/-- A use from the cells of `referenceColumns`. -/
def Reference.ofCells (r : Selected) : StoreM Reference := do
  let kind ← r.text 5
  pure
    { id := ← r.int 0
      sourceId := ← r.int? 1
      target := ← r.text 2
      targetId := ← r.int? 3
      qualifier := ← r.text? 4
      kind := ← ofName 5 "reference type" UseKind.ofLabel? kind
      filePath := ← r.text 6
      line := ← r.word 7
      column := ← r.word 8 }

/-! ## Rows from their records -/

def FileRow.read (r : FileRow) : StoreM File := do
  File.ofCells (← select [("files", fileView.record r)] fileColumns)

/-- A symbol, joined with its file. -/
def SymbolRow.read (file : FileRow) (r : SymbolRow) : StoreM Symbol := do
  Symbol.ofCells (← select [("s", symbolView.record r), ("f", fileView.record file)] symbolColumns)

def ImportRow.read (r : ImportRow) : StoreM Import := do
  Import.ofCells (← select [("i", importView.record r)] importColumns)

def RelationshipRow.read (r : RelationshipRow) : StoreM Relationship := do
  Relationship.ofCells (← select [("r", relationshipView.record r)] relationshipColumns)

def ReferenceRow.read (r : ReferenceRow) : StoreM Reference := do
  Reference.ofCells (← select [("r", referenceView.record r)] referenceColumns)

end CodeAtlas
