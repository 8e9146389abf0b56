import CodeAtlas.Audit.Report
import CodeAtlas.Change.Report
import CodeAtlas.Lookup
import CodeAtlas.Wire.Record

/-!
# Answers as values

The answers of lookups and analyses as JSON values: `Graph.toJson`, `Hit.toJson`, `Impact.toJson`,
`ChangeReport.toJson`, `AuditReport.toJson`, ….
-/

namespace CodeAtlas

def GraphNode.toJson (n : GraphNode) : Json :=
  .object [("id", .int n.id), ("name", .str n.name), ("kind", .str n.kind.label),
    ("file_path", .str n.filePath), ("line", .nat n.line), ("depth", .nat n.depth)]

/-- An edge between nodes as a value. -/
def GraphEdge.toJson (e : GraphEdge) : Json :=
  .object [("from", .int e.source), ("to", .int e.target), ("kind", .str e.kind.label)]

def Graph.toJson (g : Graph) : Json :=
  .object [("root", .int g.root), ("nodes", .list GraphNode.toJson g.nodes),
    ("edges", .list GraphEdge.toJson g.edges), ("warnings", .list .str g.warnings)]

/-- Both directions around a name as a value. -/
def DependencyChain.toJson (c : DependencyChain) : Json :=
  .object [("symbol", .str c.symbol), ("dependencies", .list Symbol.toJson c.dependencies),
    ("dependents", .list Symbol.toJson c.dependents), ("coupling_score", .float c.couplingScore)]

/-- An answer of a lookup as a value. -/
def Hit.toJson (h : Hit) : Json :=
  .object [("symbol_id", .ofOption .int h.symbolId), ("name", .str h.name),
    ("kind", .str h.kind.label), ("file", .str h.file), ("line", .nat h.line),
    ("signature", .ofOption .str h.signature)]

def Impact.toJson (i : Impact) : Json :=
  .object [("symbol", .str i.symbol), ("exported", .bool i.exported),
    ("direct_references", .nat i.references.length),
    ("indirect_references", .nat i.indirectReferences),
    ("affected_files", .list .str i.affectedFiles),
    ("affected_symbols", .list GraphNode.toJson i.affectedSymbols),
    ("risk_level", .str i.risk.label), ("suggestions", .list .str i.suggestions),
    ("breaking_changes", .list .str i.breakingChanges), ("is_breaking", .bool i.isBreaking),
    ("warnings", .list .str i.warnings)]

/-- A broken use as a value. -/
def BrokenReference.toJson (b : BrokenReference) : Json :=
  .object [("reference", b.reference.toJson), ("reason", .str b.reason),
    ("severity", .str b.severity.label)]

def RequiredUpdate.toJson (u : RequiredUpdate) : Json :=
  .object [("file_path", .str u.filePath), ("line", .nat u.line), ("column", .nat u.column),
    ("description", .str u.description), ("old_text", .str u.oldText),
    ("new_text", .ofOption .str u.newText), ("automatic", .bool u.automatic)]

def Objection.toJson (o : Objection) : Json :=
  .object [("message", .str o.message), ("severity", .str o.severity.label),
    ("file_path", .ofOption .str o.filePath), ("line", .ofOption .nat o.line)]

/-- An edit as a value. -/
def Fix.toJson (f : Fix) : Json :=
  .object [("file_path", .str f.filePath), ("line", .nat f.line), ("column", .nat f.column),
    ("description", .str f.description), ("old_text", .str f.oldText),
    ("new_text", .str f.newText), ("confidence", .float f.confidence), ("safe", .bool f.safe)]

def ChangeReport.toJson (r : ChangeReport) : Json :=
  .object [("change", r.change.toJson), ("impact", r.impact.toJson),
    ("broken_references", .list BrokenReference.toJson r.consequences.broken),
    ("required_updates", .list RequiredUpdate.toJson r.consequences.updates),
    ("validation_errors", .list Objection.toJson r.consequences.objections),
    ("auto_fix_suggestions", .list Fix.toJson r.consequences.fixes),
    ("can_auto_fix", .bool r.canAutoFix)]

def ChangeFailure.toJson (f : ChangeFailure) : Json :=
  .object [("symbol", .str f.symbol), ("change", .str f.change), ("error", .str f.error)]

/-- The reports on several changes as a value. -/
def BulkReport.toJson (r : BulkReport) : Json :=
  .object [("results", .list ChangeReport.toJson r.results),
    ("failures", .list ChangeFailure.toJson r.failures),
    ("total_broken_references", .nat r.totalBroken),
    ("total_required_updates", .nat r.totalUpdates), ("highest_risk", .str r.highestRisk.label),
    ("can_auto_fix_all", .bool r.canAutoFixAll)]

/-- All objections to several changes as a value. -/
def ValidationReport.toJson (r : ValidationReport) : Json :=
  .object [("valid", .bool r.valid), ("errors", .list Objection.toJson r.errors),
    ("warnings", .list Objection.toJson r.warnings),
    ("failures", .list ChangeFailure.toJson r.failures)]

def Finding.toJson (f : Finding) : Json :=
  .object [("severity", .str f.severity.label), ("message", .str f.message),
    ("symbol", .ofOption .str f.symbol), ("file_path", .ofOption .str f.filePath),
    ("line", .ofOption .nat f.line)]

/-- A cycle as a value. -/
def CircularDependency.toJson (c : CircularDependency) : Json :=
  .object [("files", .list .str c.files), ("description", .str c.description),
    ("severity", .str c.severity.label)]

/-- The findings about a project as a value. -/
def AuditReport.toJson (r : AuditReport) : Json :=
  .object [("project_id", .int r.projectId), ("total_files", .nat r.totalFiles),
    ("total_symbols", .nat r.totalSymbols), ("type_errors", .list Finding.toJson r.typeErrors),
    ("undefined_references", .list Finding.toJson r.undefinedReferences),
    ("unused_symbols", .list Finding.toJson r.unusedSymbols),
    ("circular_deps", .list CircularDependency.toJson r.circularDependencies),
    ("quality_score", .float r.qualityScore), ("warnings", .list .str r.warnings),
    ("notes", .list .str r.notes)]

/-- The sizes of the tables as a value. -/
def Store.Summary.toJson (s : Store.Summary) : Json :=
  .object [("total_projects", .nat s.projects), ("total_files", .nat s.files),
    ("total_symbols", .nat s.symbols), ("total_imports", .nat s.imports),
    ("total_relationships", .nat s.relationships), ("total_references", .nat s.references)]

/-- How often each label occurs as a value. -/
def countsJson (counts : List (String × Nat)) : Json :=
  .list (fun (label, n) => .arr [.str label, .nat n]) counts

end CodeAtlas
