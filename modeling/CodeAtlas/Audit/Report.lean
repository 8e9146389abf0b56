import CodeAtlas.Audit.Cycle
import CodeAtlas.Finding
import CodeAtlas.ImportPath
import CodeAtlas.Store.Read

/-!
# Auditing a project

* `unusedSymbols`, `undefinedReferences`, `typeErrors`: findings about the symbols of a project.
* `importGraph`: which file imports which, by a rule that says what an import means.
* `qualityScore`: a hundred, less a penalty for each finding per file.
* `Store.audit`: all of this for one project.

These checks go by names and are no type checker.
-/

namespace CodeAtlas

/-- A rule that says what files an import of a file means, among all files. -/
abbrev ImportRule := (clause : ImportClause) → (importer : String) → (files : List String) → List String

/-- The rule by the segments of the import path. -/
def ImportRule.bySegments : ImportRule := fun clause importer files =>
  ImportPath.resolve clause.path importer files

/-- The rule by a table of import paths. A path that is not in the table means nothing. -/
def ImportRule.byTable (table : List (String × List String)) : ImportRule := fun clause _ _ =>
  ((table.find? (·.1 == clause.path)).map (·.2)).getD []

/-- A cycle of files, each of which imports the next; the last imports the first. -/
structure CircularDependency where
  files : List String
  description : String
  severity : Severity
  deriving DecidableEq, Inhabited

/-- A cycle as a finding. -/
def CircularDependency.ofFiles (files : List String) : CircularDependency :=
  { files
    description := " -> ".intercalate (files ++ files.take 1)
    severity := .warning }

/-- All findings about a project. -/
structure AuditReport where
  projectId : Int
  totalFiles : Nat
  totalSymbols : Nat
  typeErrors : List Finding
  undefinedReferences : List Finding
  unusedSymbols : List Finding
  circularDependencies : List CircularDependency
  qualityScore : Float
  warnings : List String
  notes : List String
  deriving Inhabited

/-- What every report says of itself. -/
def heuristicsNote : String :=
  "import resolution and unused-symbol detection are heuristics over names; " ++
    "expect some false positives and misses"

/-- A hundred, less a penalty for each finding per file, but never below zero. Without files nothing
is wrong. -/
def qualityScore (typeErrors undefined unused circular files : Nat) : Float :=
  if files == 0 then 100.0
  else
    let penalty := (5 * typeErrors + 10 * undefined + unused + 15 * circular).toUInt64.toFloat
    let score := 100.0 - penalty / files.toUInt64.toFloat
    if score < 0.0 then 0.0 else if score > 100.0 then 100.0 else score

/-! ## Symbols -/

/-- The names that are used by convention. -/
def entryPoints : List String := ["main", "init", "__init__", "__main__", "setUp", "tearDown"]

/-- Whether a name is used by convention: as an entry point, or as a test. -/
def isEntryPoint (name : String) : Bool :=
  entryPoints.contains name || Text.startsWith "test".toList name.toList

/-- Whether a use is one of a symbol: it was resolved to it, or it was not resolved and has its
name. -/
def Reference.isOf (r : Reference) (s : Symbol) : Bool :=
  match r.targetId with
  | some id => id == s.id
  | none => r.target == s.name

/-- Whether a symbol is not exported, is no entry point, and is used by nothing but itself. -/
def isUnused (references : List Reference) (s : Symbol) : Bool :=
  !s.isExported && s.kind != .field && s.kind != .moduleUnit && !isEntryPoint s.name &&
    (references.filter (·.isOf s)).all (·.sourceId == some s.id)

/-- The symbols that nothing uses. -/
def unusedSymbols (symbols : List Symbol) (references : List Reference) : List Finding :=
  (symbols.filter (isUnused references)).map fun s =>
    { severity := .warning
      message := s.kind.label ++ " '" ++ s.name ++ "' is never used"
      symbol := some s.name
      filePath := some s.filePath
      line := some s.range.startLine }

/-- Whether an import may bind a name. -/
def ImportClause.binds (i : ImportClause) (name : String) : Bool :=
  i.isWildcard || i.bindingName == name || i.names.contains name

/-- Whether a use without a qualifier has a name that is neither defined nor imported. -/
def isUndefined (symbols : List Symbol) (imports : List Import) (r : Reference) : Bool :=
  r.targetId.isNone && r.qualifier.isNone && !symbols.any (·.name == r.target) &&
    !imports.any fun i => i.filePath == r.filePath && i.binds r.target

/-- The uses of names that are neither defined nor imported, one a name and line. -/
def undefinedReferences (symbols : List Symbol) (imports : List Import)
    (references : List Reference) : List Finding :=
  (distinctOn (fun r => (r.filePath, r.target, r.line))
    (references.filter (isUndefined symbols imports))).map fun r =>
      { severity := .error
        message := "undefined reference to '" ++ r.target ++ "'"
        symbol := some r.target
        filePath := some r.filePath
        line := some r.line }

/-- The symbol that an edge ends at: the one it was resolved to, or else the only one of its name. -/
def targetOf? (symbols : List Symbol) (e : Relationship) : Option Symbol :=
  match e.targetId with
  | some id => symbols.find? (·.id == id)
  | none =>
    match symbols.filter (·.name == e.target) with
    | [only] => some only
    | _ => none

/-- The edges that inherit from or implement what is no type. -/
def typeErrors (symbols : List Symbol) (edges : List Relationship) : List Finding :=
  edges.filterMap fun e =>
    if e.kind != .inherits && e.kind != .implements then none
    else
      match targetOf? symbols e with
      | none => none
      | some target =>
        if target.kind.isTypeLike then none
        else
          some
            { severity := .error
              message := "'" ++ e.source ++ "' " ++ e.kind.label ++ " '" ++ target.name ++
                "', which is a " ++ target.kind.label ++ " and not a type"
              symbol := some e.source
              filePath := some e.filePath
              line := some e.line }

/-- What is said of names with several definitions that uses are matched to by name only. -/
def ambiguityWarnings (symbols : List Symbol) (references : List Reference) : List String :=
  let definitions (name : String) : Nat := symbols.countP (·.name == name)
  let names := (references.filter (·.targetId.isNone)).map (·.target)
  ((sortedTexts names).filter fun n => definitions n > 1).map fun n =>
    "'" ++ n ++ "' is defined " ++ toString (definitions n) ++
      " times; references to it are matched by name only"

/-! ## Imports -/

/-- Which file imports which other. -/
def importGraph (rule : ImportRule) (files : List String) (imports : List Import) : FileGraph :=
  files.map fun file =>
    let targets := (imports.filter (·.filePath == file)).flatMap fun i =>
      rule i.toImportClause i.filePath files
    (file, sortedTexts (targets.filter (· != file)))

/-- What is said of imports that mean no file. -/
def unresolvedWarnings (rule : ImportRule) (files : List String) (imports : List Import) :
    List String :=
  match imports.countP fun i => (rule i.toImportClause i.filePath files).isEmpty with
  | 0 => []
  | n =>
    [toString n ++
      " import(s) did not resolve to project files and were left out of cycle detection"]

/-- All findings about a project. -/
def Store.audit (s : Store) (rule : ImportRule) (project : Int) : StoreM AuditReport := do
  let files := (← s.filesOf project).map (·.relativePath)
  let symbols ← s.symbolsOf project
  let references ← s.referencesOf project
  let edges ← s.relationshipsOf project
  let imports ← s.importsOf project
  let unused := unusedSymbols symbols references
  let undefined := undefinedReferences symbols imports references
  let typeErrors := typeErrors symbols edges
  let circular := (importGraph rule files imports).cycles.map CircularDependency.ofFiles
  pure
    { projectId := project
      totalFiles := files.length
      totalSymbols := symbols.length
      typeErrors
      undefinedReferences := undefined
      unusedSymbols := unused
      circularDependencies := circular
      qualityScore :=
        qualityScore typeErrors.length undefined.length unused.length circular.length files.length
      warnings := unresolvedWarnings rule files imports ++ ambiguityWarnings symbols references
      notes := [heuristicsNote] }

end CodeAtlas
