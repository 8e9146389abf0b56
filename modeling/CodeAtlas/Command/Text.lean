import CodeAtlas.Command.Basic
import CodeAtlas.Decimal.Shortest
import CodeAtlas.Text.Timestamp
import CodeAtlas.Wire.Report

/-!
# Answers in print

* `Answer.lines`: an answer as lines of text. A line may itself hold line ends, where a text of the
  source does.
* `Answer.toJson?`: an answer as a value, for those that have such a form.
-/

namespace CodeAtlas

/-- A line before which another is left blank. -/
def afterBlank (line : String) : List String := ["", line]

/-- Lines of a section that is left out if it is empty. -/
def sectionLines {α : Type} (title : String) (line : α → String) (items : List α) : List String :=
  if items.isEmpty then [] else afterBlank title ++ items.map line

def warningLines (warnings : List String) : List String := warnings.map ("⚠️  " ++ ·)

/-- A number with a word in front. -/
def counted (word : String) (n : Nat) : String := word ++ toString n

def IndexReport.lines (r : IndexReport) : List String :=
  (if r.cancelled then
    afterBlank ("⚠️  Indexing cancelled after " ++ toString r.filesSeen ++ " files")
  else afterBlank ("✅ Indexing complete in " ++ toString r.elapsedMs ++ "ms")) ++
  [counted "  Files indexed:   " r.filesIndexed,
    counted "  Files unchanged: " r.filesUnchanged,
    counted "  Files skipped:   " r.filesSkipped,
    counted "  Files removed:   " r.filesRemoved,
    "  Symbols: " ++ toString r.stats.symbolsInserted ++ " inserted, " ++
      toString r.stats.symbolsUpdated ++ " updated, " ++ toString r.stats.symbolsMoved ++
      " moved, " ++ toString r.stats.symbolsUnchanged ++ " unchanged, " ++
      toString r.stats.symbolsRemoved ++ " removed",
    "  Imports: " ++ toString r.stats.importsWritten ++ "  Relationships: " ++
      toString r.stats.relationshipsWritten ++ "  References: " ++
      toString r.stats.referencesWritten,
    counted "  Links resolved: " r.linksResolved] ++
  sectionLines ("❌ " ++ toString r.errors.length ++ " file(s) failed:")
    (fun e => "  " ++ e.message ++ " [" ++ e.step.label ++ "]") r.errors

/-- The answers of a lookup as lines. -/
def hitLines (queryType target : String) (found : List Hit) : List String :=
  if found.isEmpty then ["No results found for " ++ queryType ++ " of '" ++ target ++ "'"]
  else
    ("Found " ++ toString found.length ++ " results:") ::
      found.flatMap fun h =>
        ("  " ++ h.file ++ ":" ++ toString h.line ++ " - " ++ h.name ++ " (" ++ h.kind.label ++ ")")
          :: (h.signature.map ("      " ++ ·)).toList

def Graph.nameOf (g : Graph) (id : Int) : String :=
  ((g.nodes.find? (·.id == id)).map (·.name)).getD "?"

def Graph.lines (g : Graph) (symbol : String) : List String :=
  ("Dependency graph of '" ++ symbol ++ "': " ++ toString g.nodes.length ++ " nodes, " ++
      toString g.edges.length ++ " edges") ::
    g.nodes.map (fun n =>
      .ofList (List.replicate (2 * (n.depth + 1)) ' ') ++ n.name ++ " (" ++ n.kind.label ++ ") " ++
        n.filePath ++ ":" ++ toString n.line) ++
    g.edges.map (fun e =>
      "  " ++ g.nameOf e.source ++ " -" ++ e.kind.label ++ "-> " ++ g.nameOf e.target) ++
    warningLines g.warnings

/-- The sign of a risk. -/
def Risk.badge : Risk → String
  | low => "🟢"
  | medium => "🟡"
  | high => "🔴"

/-- A truth value in words. -/
def truthWord (b : Bool) : String := if b then "true" else "false"

def Impact.lines (i : Impact) : List String :=
  ["  Risk: " ++ i.risk.badge ++ " " ++ i.risk.label,
    "  Exported: " ++ truthWord i.exported,
    counted "  Direct references: " i.references.length,
    counted "  Indirect references: " i.indirectReferences,
    counted "  Affected files: " i.affectedFiles.length] ++
  i.affectedFiles.map ("    " ++ ·) ++
  sectionLines "  Affected symbols:" (fun n =>
    "    [" ++ toString n.depth ++ "] " ++ n.name ++ " " ++ n.filePath ++ ":" ++ toString n.line)
    i.affectedSymbols

def Objection.text (o : Objection) : String :=
  let place := match o.filePath, o.line with
    | some file, some line => file ++ ":" ++ toString line ++ " "
    | _, _ => ""
  "  [" ++ o.severity.label ++ "] " ++ place ++ o.message

def ChangeReport.lines (r : ChangeReport) : List String :=
  let c := r.consequences
  ("Impact of " ++ r.change.change.label ++ " on '" ++ r.impact.symbol ++ "'") ::
    r.impact.lines ++
    sectionLines ("❌ " ++ toString c.broken.length ++ " broken references:") (fun b =>
      "  " ++ b.reference.filePath ++ ":" ++ toString b.reference.line ++ ":" ++
        toString b.reference.column ++ " - " ++ b.reason) c.broken ++
    sectionLines "Validation:" Objection.text c.objections ++
    sectionLines ("📍 " ++ toString c.updates.length ++ " required updates:") (fun u =>
      "  " ++ u.filePath ++ ":" ++ toString u.line ++ " (" ++
        (if u.automatic then "auto" else "manual") ++ ") " ++ u.description) c.updates ++
    warningLines r.impact.warnings ++
    sectionLines "💡 Suggestions:" ("  " ++ ·) r.impact.suggestions ++
    afterBlank ("Auto-fix: " ++
      (if r.canAutoFix then "yes (" ++ toString c.fixes.length ++ " edits)" else "no"))

def Finding.text (f : Finding) : String :=
  match f.location? with
  | some place => "  [" ++ f.severity.label ++ "] " ++ place ++ " " ++ f.message
  | none => "  [" ++ f.severity.label ++ "] " ++ f.message

def findingLines (title : String) (findings : List Finding) : List String :=
  sectionLines (title ++ " (" ++ toString findings.length ++ "):") Finding.text findings

/-- The findings about a project as lines. -/
def AuditReport.lines (r : AuditReport) (project : String) : List String :=
  ["Semantic analysis of " ++ project,
    "  Files: " ++ toString r.totalFiles ++ "  Symbols: " ++ toString r.totalSymbols,
    "  Quality score: " ++ Decimal.fixed 1 r.qualityScore] ++
  findingLines "Type errors" r.typeErrors ++
  findingLines "Undefined references" r.undefinedReferences ++
  findingLines "Unused symbols" r.unusedSymbols ++
  sectionLines ("🔁 Circular dependencies (" ++ toString r.circularDependencies.length ++ "):")
    (fun c => "  [" ++ c.severity.label ++ "] " ++ c.description) r.circularDependencies ++
  warningLines r.warnings ++
  r.notes.map ("note: " ++ ·)

def countLines (title unit : String) (counts : List (String × Nat)) : List String :=
  if counts.isEmpty then []
  else
    ("  " ++ title ++ ":") ::
      counts.map fun (label, n) => "    " ++ label ++ ": " ++ toString n ++ unit

namespace IndexStats

/-- The size of the index in megabytes. -/
def megabytes (s : IndexStats) : Float := s.indexBytes.toUInt64.toFloat / (1024.0 * 1024.0)

/-- The sizes and counts of an index as lines. -/
def lines (s : IndexStats) (detailed : Bool) : List String :=
  ("Project: " ++ s.project.name ++ " (" ++ s.project.path ++ ")") ::
    (s.project.lastIndexed.map fun t => "Last indexed: " ++ Text.utc t).toList ++
    afterBlank "📊 Index Statistics:" ++
    [counted "  Total files: " s.summary.files,
      counted "  Total symbols: " s.summary.symbols,
      counted "  Total imports: " s.summary.imports,
      counted "  Total relationships: " s.summary.relationships,
      counted "  Total references: " s.summary.references,
      "  Index size: " ++ Decimal.fixed 2 s.megabytes ++ " MB"] ++
    (if detailed then
      afterBlank "📈 Detailed Statistics:" ++
        countLines "Symbols by kind" "" s.symbolsByKind ++
        countLines "Languages" " files" s.filesByLanguage ++
        countLines "Relationships by type" "" s.relationshipsByType
    else [])

/-- The sizes and counts of an index as a value. -/
def toJson (s : IndexStats) : Json :=
  .object [("project", s.project.toJson), ("stats", s.summary.toJson),
    ("index_size_mb", .float s.megabytes), ("symbols_by_kind", countsJson s.symbolsByKind),
    ("files_by_language", countsJson s.filesByLanguage),
    ("relationships_by_type", countsJson s.relationshipsByType)]

end IndexStats

/-- The report of a run as a value. -/
def IndexReport.toJson (r : IndexReport) : Json :=
  .object [("files_seen", .nat r.filesSeen), ("files_indexed", .nat r.filesIndexed),
    ("files_unchanged", .nat r.filesUnchanged), ("files_skipped", .nat r.filesSkipped),
    ("files_removed", .nat r.filesRemoved), ("links_resolved", .nat r.linksResolved),
    ("errors", .list (fun e => .str e.message) r.errors), ("stats", r.stats.toJson),
    ("cancelled", .bool r.cancelled), ("elapsed_ms", .nat r.elapsedMs),
    ("project", .ofOption Project.toJson r.project)]

/-- The languages that can be read as lines. -/
def languageLines : List String :=
  "Supported languages:" ::
    Language.all.map fun l =>
      "  " ++ l.label ++ .ofList (List.replicate (8 - l.label.length) ' ') ++ " " ++
        Text.join " " (l.extensions.map ("." ++ ·))

namespace Answer

/-- An answer as lines of text. -/
def lines : Answer → List String
  | indexed root enabled workers rebuild report =>
    [programVersion, "Project: " ++ root, "Languages: " ++ Text.join ", " enabled,
      "Workers: " ++ toString workers ++ "  Rebuild: " ++ truthWord rebuild] ++ report.lines
  | watching root => ["👀 Watching " ++ root ++ ". Press Ctrl+C to stop."]
  | hits queryType target found => hitLines queryType target found
  | dependencies symbol graph chain =>
    graph.lines symbol ++
      afterBlank ("Dependencies: " ++ toString chain.dependencies.length ++ "  Dependents: " ++
        toString chain.dependents.length ++ "  Coupling: " ++
        Decimal.fixed 2 chain.couplingScore)
  | change report => report.lines
  | audit project report => report.lines project
  | stats view detailed => view.lines detailed
  | languages => languageLines

/-- An answer as a value, for those that have such a form. -/
def toJson? : Answer → Option Json
  | indexed _ _ _ _ report => some report.toJson
  | watching _ => none
  | hits _ _ found => some (.list Hit.toJson found)
  | dependencies _ graph chain =>
    some (.object [("graph", graph.toJson), ("chain", chain.toJson)])
  | change report => some report.toJson
  | audit _ report => some report.toJson
  | stats view _ => some view.toJson
  | languages => none

end Answer

/-- A failure as lines: the message, and its causes below. -/
def Trouble.lines (t : Trouble) : List String :=
  ("Error: " ++ t.message) ::
    match t.causes with
    | [] => []
    | [cause] => ["", "Caused by:", "    " ++ cause]
    | causes =>
      ["", "Caused by:"] ++
        causes.zipIdx.map fun (cause, i) => "    " ++ toString i ++ ": " ++ cause

end CodeAtlas
