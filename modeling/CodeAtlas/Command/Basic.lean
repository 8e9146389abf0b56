import CodeAtlas.Change.Report
import CodeAtlas.Audit.Report
import CodeAtlas.Indexing.Indexer
import CodeAtlas.Lookup
import CodeAtlas.Store.Cell

/-!
# Commands

* `Command`: what can be asked for on the command line; `Invocation`: a command with its project and
  the form of its answer.
* `Answer`: what a command answers.
-/

namespace CodeAtlas

/-- The name and the version of the program. -/
def programVersion : String := "symgraph 0.1.0"

/-- The form of an answer. -/
inductive OutputFormat where
  | text
  | json
  deriving DecidableEq, Inhabited, Repr

/-- What can be asked for. -/
inductive Command where
  | index (rebuild : Bool) (workers : Option Nat) (watch : Bool)
  | watch
  | query (queryType target : String) (kind : Option String) (limit : Nat)
  | deps (symbol : String) (depth : Option Nat)
  | impact (changeType target : String) (newName : Option String)
  | analyze
  | stats (detailed : Bool)
  | languages
  deriving DecidableEq, Inhabited

/-- A command with its project and the form of its answer. -/
structure Invocation where
  command : Command
  project : String := "."
  format : OutputFormat := .text
  debug : Bool := false
  verbose : Bool := false
  deriving DecidableEq, Inhabited

/-- The sizes and counts of an index. -/
structure IndexStats where
  project : Project
  summary : Store.Summary
  indexBytes : Nat
  symbolsByKind : List (String × Nat)
  filesByLanguage : List (String × Nat)
  relationshipsByType : List (String × Nat)
  deriving Inhabited

/-- What a command answers. -/
inductive Answer where
  | indexed (root : String) (languages : List String) (workers : Nat) (rebuild : Bool)
      (report : IndexReport)
  | watching (root : String)
  | hits (queryType target : String) (found : List Hit)
  | dependencies (symbol : String) (graph : Graph) (chain : DependencyChain)
  | change (report : ChangeReport)
  | audit (project : String) (report : AuditReport)
  | stats (view : IndexStats) (detailed : Bool)
  | languages
  deriving Inhabited

end CodeAtlas
