import CodeAtlas.Store.Basic

/-!
# Reading the store

* `Store.symbolsNamed`, `Store.symbolsInFile`, `Store.symbolsOf`: symbols by name, file and project.
* `Store.relationshipsFrom`, `Store.relationshipsTo`, `Store.referencesTo`: links at one end. With an
  id, links resolved to that id match, and unresolved ones match by name; without one the name alone
  decides.
* `Store.summary`: the sizes of the tables.
-/

namespace CodeAtlas.Store

def project? (s : Store) (id : Int) : StoreM (Option Project) :=
  (s.projects.find? (·.id == id)).mapM ProjectRow.decode

def projectAt? (s : Store) (path : String) : StoreM (Option Project) :=
  (s.projects.find? (·.path == path)).mapM ProjectRow.decode

def file? (s : Store) (project : Int) (path : String) : StoreM (Option File) :=
  (s.files.find? fun f => f.projectId == project && f.relativePath == path).mapM FileRow.decode

/-- The files of a project, by path. -/
def filesOf (s : Store) (project : Int) : StoreM (List File) :=
  (sortBy (fun a b => compare a.relativePath b.relativePath != .gt)
    (s.files.filter (·.projectId == project))).mapM FileRow.decode

/-- The hashes of a project's files with their paths. -/
def fileHashes (s : Store) (project : Int) : List (String × String) :=
  (s.files.filter (·.projectId == project)).map fun f => (f.relativePath, f.hash)

/-- Symbols with the paths and the projects of their files. -/
def sitedSymbols (s : Store) : List (FileRow × SymbolRow) :=
  s.symbols.filterMap fun r => (s.files.find? (·.id == r.fileId)).map fun f => (f, r)

/-- Sited symbols as others see them, by path and line. -/
def decodeByPath (rows : List (FileRow × SymbolRow)) : StoreM (List Symbol) :=
  (sortBy (byPathAndLine (·.1.relativePath) (·.2.range.startLine)) rows).mapM fun (f, r) =>
    r.decode f.relativePath

def symbol? (s : Store) (id : Int) : StoreM (Option Symbol) :=
  (s.sitedSymbols.find? (·.2.id == id)).mapM fun (f, r) => r.decode f.relativePath

/-- The symbols with a name, by path and line. -/
def symbolsNamed (s : Store) (name : String) : StoreM (List Symbol) :=
  decodeByPath (s.sitedSymbols.filter (·.2.name == name))

/-- The symbols of the files at a path, by line. -/
def symbolsInFile (s : Store) (path : String) : StoreM (List Symbol) :=
  decodeByPath (s.sitedSymbols.filter (·.1.relativePath == path))

/-- The symbols of a project, by path and line. -/
def symbolsOf (s : Store) (project : Int) : StoreM (List Symbol) :=
  decodeByPath (s.sitedSymbols.filter (·.1.projectId == project))

/-- Whether a link at one end matches a symbol. -/
def linkMatches (name : String) (id : Option Int) (linkName : String) (linkId : Option Int) : Bool :=
  match id with
  | some i => linkId == some i || (linkId.isNone && linkName == name)
  | none => linkName == name

/-- Edges as others see them, by path and line. -/
def decodeEdges (rows : List RelationshipRow) : StoreM (List Relationship) :=
  (sortBy (byPathAndLine (·.filePath) (·.line)) rows).mapM RelationshipRow.decode

/-- The edges that start at a symbol. -/
def relationshipsFrom (s : Store) (name : String) (id : Option Int) : StoreM (List Relationship) :=
  decodeEdges (s.relationships.filter fun r => linkMatches name id r.source r.sourceId)

/-- The edges that end at a symbol. -/
def relationshipsTo (s : Store) (name : String) (id : Option Int) : StoreM (List Relationship) :=
  decodeEdges (s.relationships.filter fun r => linkMatches name id r.target r.targetId)

/-- Whether a file belongs to a project. -/
def ownsFile (s : Store) (project fileId : Int) : Bool :=
  s.files.any fun f => f.id == fileId && f.projectId == project

/-- The edges of a project, by path and line. -/
def relationshipsOf (s : Store) (project : Int) : StoreM (List Relationship) :=
  decodeEdges (s.relationships.filter fun r => s.ownsFile project r.fileId)

/-- The order of uses by path, line and column. -/
def byPlace (a b : ReferenceRow) : Bool :=
  thenBy (compare a.filePath b.filePath)
    ((compare (signed a.line) (signed b.line)).then (compare (signed a.column) (signed b.column)))

/-- Uses as others see them, by path, line and column. -/
def decodeUses (rows : List ReferenceRow) : StoreM (List Reference) :=
  (sortBy byPlace rows).mapM ReferenceRow.decode

/-- The uses of a symbol; at one place the resolved ones come first. -/
def referencesTo (s : Store) (name : String) (id : Option Int) : StoreM (List Reference) :=
  let rows := s.references.filter fun r => linkMatches name id r.target r.targetId
  decodeUses <|
    if id.isSome then rows.filter (·.targetId.isSome) ++ rows.filter (·.targetId.isNone) else rows

/-- The uses in a project, by path, line and column. -/
def referencesOf (s : Store) (project : Int) : StoreM (List Reference) :=
  decodeUses (s.references.filter fun r => s.ownsFile project r.fileId)

/-- The imports of a project, by path and line. -/
def importsOf (s : Store) (project : Int) : StoreM (List Import) :=
  (sortBy (byPathAndLine (·.filePath) (·.startLine))
    (s.imports.filter fun r => s.ownsFile project r.fileId)).mapM ImportRow.decode

/-- The sizes of the tables. -/
structure Summary where
  projects : Nat
  files : Nat
  symbols : Nat
  imports : Nat
  relationships : Nat
  references : Nat
  deriving DecidableEq, Inhabited

/-- The sizes of the tables. -/
def summary (s : Store) : Summary :=
  ⟨s.projects.length, s.files.length, s.symbols.length, s.imports.length, s.relationships.length,
    s.references.length⟩

end CodeAtlas.Store
