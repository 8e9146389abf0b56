import CodeAtlas.Project
import CodeAtlas.Sorting

/-!
# The store

* `SymbolRow`, `FileRow`, …: what the store holds; the rows of a table are kept in the order of their
  ids, which grow and are never given out twice.
* `Flaw`: a cell whose text does not fit its column. Only a direct change of a cell makes one.
* `SymbolRow.decode`, …: the rows as others see them, or the reason why they cannot be read.
* `Store`: all tables with their counters.
-/

namespace CodeAtlas

/-- A cell that holds a text which does not fit its column. -/
structure Flaw where
  column : String
  text : String
  deriving DecidableEq, Inhabited

/-- Why the store refuses. -/
inductive StoreError where
  /-- A stored name is none of an enumeration's. -/
  | unknownName (position : Nat) (what text : String)
  /-- A stored cell is not of the type of its column. -/
  | unreadable (position : Nat) (column : String)
  /-- The owner of a row is missing. -/
  | missingOwner
  /-- A direct access names no table or column, or breaks a constraint. -/
  | refused
  /-- A project is gone. -/
  | vanished (project : Int)
  deriving DecidableEq, Inhabited

def StoreError.message? : StoreError → Option String
  | unknownName _ what text => some ("unknown " ++ what ++ ": " ++ text)
  | vanished id => some ("project " ++ toString id ++ " vanished during stats refresh")
  | _ => none

/-- An error with the cell it is about. Positions count the columns of what is read from zero. -/
def StoreError.trace : StoreError → String
  | unknownName position what text =>
    let cause := "unknown " ++ what ++ ": " ++ text
    "Conversion error from type Text at index: " ++ toString position ++ ", " ++ cause ++ ": " ++
      cause
  | unreadable position column =>
    "Invalid column type Text at index: " ++ toString position ++ ", name: " ++ column
  | missingOwner => "FOREIGN KEY constraint failed"
  | refused => "no such table or column"
  | vanished id => "project " ++ toString id ++ " vanished during stats refresh"

/-- Reading or writing the store. -/
abbrev StoreM := Except StoreError

/-- A project in the store. -/
structure ProjectRow extends Project where
  flaws : List Flaw := []
  deriving DecidableEq, Inhabited

/-- A file in the store. -/
structure FileRow extends File where
  flaws : List Flaw := []
  deriving DecidableEq, Inhabited

/-- A symbol in the store. -/
structure SymbolRow extends Declaration where
  id : Int
  fileId : Int
  flaws : List Flaw := []
  deriving Inhabited

/-- An import in the store. -/
structure ImportRow extends Import where
  fileId : Int
  flaws : List Flaw := []
  deriving Inhabited

/-- An edge in the store. -/
structure RelationshipRow extends Relationship where
  fileId : Int
  flaws : List Flaw := []
  deriving Inhabited

/-- A use in the store. -/
structure ReferenceRow extends Reference where
  fileId : Int
  flaws : List Flaw := []
  deriving Inhabited

/-- The ids that were given out last. -/
structure Counters where
  projects : Int := 0
  files : Int := 0
  symbols : Int := 0
  imports : Int := 0
  relationships : Int := 0
  references : Int := 0
  deriving DecidableEq, Inhabited

/-- All tables. -/
structure Store where
  projects : List ProjectRow := []
  files : List FileRow := []
  symbols : List SymbolRow := []
  imports : List ImportRow := []
  relationships : List RelationshipRow := []
  references : List ReferenceRow := []
  last : Counters := {}
  deriving Inhabited

/-- The store without any row. -/
def Store.empty : Store := {}

/-! ## Reading rows -/

/-- A column that may hold a flaw: its name, its position in what is read, and what it holds if it
takes the names of an enumeration. -/
structure Column where
  name : String
  position : Nat
  enumeration : Option String := none

/-- Fails at the first flaw in the order of the columns. -/
def checkFlaws (columns : List Column) (flaws : List Flaw) : StoreM Unit :=
  match columns.findSome? fun c => (flaws.find? (·.column == c.name)).map fun f => (c, f) with
  | none => .ok ()
  | some (column, flaw) =>
    match column.enumeration with
    | some what => .error (.unknownName column.position what flaw.text)
    | none => .error (.unreadable column.position column.name)

/-- The names of the columns of a range. -/
def rangeNames : List String :=
  ["start_line", "start_column", "end_line", "end_column", "start_byte", "end_byte"]

/-- The columns of a range, the first of which has the given position. -/
def rangeColumns (first : Nat) : List Column :=
  (rangeNames.zipIdx first).map fun (name, position) => ⟨name, position, none⟩

/-- A project as others see it. -/
def ProjectRow.decode (r : ProjectRow) : StoreM Project := do
  checkFlaws [⟨"created_at", 4, none⟩, ⟨"last_indexed", 5, none⟩] r.flaws
  pure r.toProject

/-- A file as others see it. -/
def FileRow.decode (r : FileRow) : StoreM File := do
  checkFlaws [⟨"size", 5, none⟩, ⟨"lines_of_code", 6, none⟩, ⟨"last_modified", 8, none⟩,
    ⟨"last_indexed", 9, none⟩] r.flaws
  pure r.toFile

/-- A symbol as others see it, with the path of its file. -/
def SymbolRow.decode (filePath : String) (r : SymbolRow) : StoreM Symbol := do
  checkFlaws ([⟨"kind", 4, some "symbol kind"⟩, ⟨"visibility", 7, some "visibility"⟩] ++
    rangeColumns 8 ++ [⟨"priority", 16, none⟩]) r.flaws
  pure { toDeclaration := r.toDeclaration, id := r.id, fileId := r.fileId, filePath }

/-- An import as others see it. -/
def ImportRow.decode (r : ImportRow) : StoreM Import := do
  checkFlaws [⟨"is_wildcard", 5, none⟩, ⟨"start_line", 6, none⟩, ⟨"end_line", 7, none⟩] r.flaws
  pure r.toImport

/-- An edge as others see it. -/
def RelationshipRow.decode (r : RelationshipRow) : StoreM Relationship := do
  checkFlaws [⟨"type", 1, some "relationship type"⟩, ⟨"line", 7, none⟩] r.flaws
  pure r.toRelationship

/-- A use as others see it. -/
def ReferenceRow.decode (r : ReferenceRow) : StoreM Reference := do
  checkFlaws [⟨"reference_type", 5, some "reference type"⟩, ⟨"line", 7, none⟩,
    ⟨"column", 8, none⟩] r.flaws
  pure r.toReference

end CodeAtlas
