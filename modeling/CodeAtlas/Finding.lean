/-!
# Findings and file failures

* `Finding`: a message of an analysis, with the place it is about.
* `FileError`: a file that could not be indexed; a run goes on without it.
-/

namespace CodeAtlas

/-- How bad a finding is. Only an error stands in the way of an automatic fix. -/
inductive Severity where
  | warning
  | error
  deriving DecidableEq, Inhabited, Repr

namespace Severity

def label : Severity → String
  | warning => "warning"
  | error => "error"

/-- The severity with the given name. -/
def ofLabel? (s : String) : Option Severity := [warning, error].find? (·.label == s)

end Severity

/-- A message of an analysis, with the place it is about. -/
structure Finding where
  severity : Severity
  message : String
  symbol : Option String := none
  filePath : Option String := none
  line : Option Nat := none
  deriving DecidableEq, Inhabited

/-- The place of a finding: file and line, or the file alone. -/
def Finding.location? (f : Finding) : Option String :=
  match f.filePath, f.line with
  | some file, some line => some (file ++ ":" ++ toString line)
  | some file, none => some file
  | none, _ => none

/-- The step at which a file failed. -/
inductive FileStep where
  | read
  | parse
  | store
  | worker
  deriving DecidableEq, Inhabited, Repr

namespace FileStep

def label : FileStep → String
  | read => "read"
  | parse => "parse"
  | store => "store"
  | worker => "worker"

/-- The step with the given name. -/
def ofLabel? (s : String) : Option FileStep := [read, parse, store, worker].find? (·.label == s)

/-- How the text of a failure starts. -/
def lead : FileStep → String
  | read => "failed to read "
  | parse => "failed to parse "
  | store => "failed to store "
  | worker => "worker failed on "

end FileStep

/-- A file that could not be indexed. -/
structure FileError where
  step : FileStep
  path : String
  reason : String
  deriving DecidableEq, Inhabited

/-- The text of a failure. -/
def FileError.message (e : FileError) : String := e.step.lead ++ e.path ++ ": " ++ e.reason

end CodeAtlas
