import CodeAtlas.Change.Basic

/-!
# Reports on changes

* `Store.changeReport`: the impact and the consequences of one change, and whether it can be carried
  out without review.
* `Store.bulkReport`: the reports of several changes, each on its own.
* `Store.validate`: all objections to several changes.
-/

namespace CodeAtlas

/-- What a change of a symbol would do. -/
structure ChangeReport where
  change : SymbolChange
  impact : Impact
  consequences : Consequences
  canAutoFix : Bool
  deriving Inhabited

/-- Whether a change can be carried out without review: it has edits, all of them safe, nothing
speaks against it, and it deletes nothing that is used. -/
def isAutoFixable (change : Change) (references : List Reference) (c : Consequences) : Bool :=
  let deletesUsed := match change with
    | .delete => !references.isEmpty
    | _ => false
  !deletesUsed && !c.fixes.isEmpty && !c.objections.any (·.severity == .error) &&
    c.fixes.all (·.safe)

/-- A change that could not be analysed. -/
structure ChangeFailure where
  symbol : String
  change : String
  error : String
  deriving DecidableEq, Inhabited

/-- A change with the reason why it could not be analysed. -/
def SymbolChange.failure (c : SymbolChange) (e : LookupError) : ChangeFailure :=
  ⟨c.symbol, c.change.label, e.trace⟩

/-- The reports of several changes. -/
structure BulkReport where
  results : List ChangeReport
  failures : List ChangeFailure
  totalBroken : Nat
  totalUpdates : Nat
  highestRisk : Risk
  canAutoFixAll : Bool
  deriving Inhabited

/-- All objections to several changes. -/
structure ValidationReport where
  valid : Bool
  errors : List Objection
  warnings : List Objection
  failures : List ChangeFailure
  deriving Inhabited

namespace Store

/-- What follows from a change, given the first definition and all uses of its symbol. -/
def consequences (s : Store) (change : Change) (declaration : Symbol)
    (references : List Reference) : StoreM Consequences :=
  match change with
  | .delete => pure (deleteConsequences declaration references)
  | .rename newName => do
    let taken ← if newName == declaration.name then pure [] else s.symbolsNamed newName
    pure (renameConsequences declaration newName taken references)
  | .modify new => pure (modifyConsequences declaration new references)

/-- What a change of a symbol would do, with its dependents up to a depth. -/
def changeReport (s : Store) (depth : Nat) (change : SymbolChange) : LookupM ChangeReport := do
  match ← s.symbolsNamed change.symbol with
  | [] => throw (.symbolNotFound change.symbol)
  | declaration :: others => do
    let impact ← s.impactOf depth change.symbol (declaration :: others)
    let consequences ← s.consequences change.change declaration impact.references
    let canAutoFix := isAutoFixable change.change impact.references consequences
    pure { change, impact, consequences, canAutoFix }

/-- The reports of the changes that can be analysed, and the failures of the others. -/
def changeOutcomes (s : Store) (depth : Nat) (changes : List SymbolChange) :
    List ChangeReport × List ChangeFailure :=
  changes.foldr (fun change (results, failures) =>
    match s.changeReport depth change with
    | .ok result => (result :: results, failures)
    | .error e => (results, change.failure e :: failures)) ([], [])

/-- The reports of several changes, each on its own. -/
def bulkReport (s : Store) (depth : Nat) (changes : List SymbolChange) : BulkReport :=
  let (results, failures) := s.changeOutcomes depth changes
  { results
    failures
    totalBroken := total (results.map fun r => r.consequences.broken.length)
    totalUpdates := total (results.map fun r => r.consequences.updates.length)
    highestRisk := (results.map fun r => r.impact.risk).foldl Risk.max .low
    canAutoFixAll := failures.isEmpty && results.all (·.canAutoFix) }

def brokenObjection (b : BrokenReference) : Objection :=
  { message := b.reason
    severity := .error
    filePath := some b.reference.filePath
    line := some b.reference.line }

/-- All objections to several changes. They are valid if all can be analysed and no objection is an
error. -/
def validate (s : Store) (depth : Nat) (changes : List SymbolChange) : ValidationReport :=
  let (results, failures) := s.changeOutcomes depth changes
  let errors := results.flatMap fun r =>
    r.consequences.objections.filter (·.severity == .error) ++
      (r.consequences.broken.filter (·.severity == .error)).map brokenObjection
  let warnings := results.flatMap fun r =>
    r.consequences.objections.filter (·.severity == .warning)
  { valid := errors.isEmpty && failures.isEmpty, errors, warnings, failures }

end Store

end CodeAtlas
