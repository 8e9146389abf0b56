import CodeAtlas.Finding
import CodeAtlas.Impact
import CodeAtlas.Text.Category

/-!
# Changes of symbols

* `Change`, `SymbolChange`: a change that someone has in mind.
* `Consequences`: the uses it breaks, the updates it forces, the objections to it, and the edits that
  would carry it out.
* `deleteConsequences`, `renameConsequences`, `modifyConsequences`: the rules for each kind of change.
-/

namespace CodeAtlas

/-- A change that someone has in mind. -/
inductive Change where
  | rename (newName : String)
  | delete
  /-- Another declaration in the place of the stored one. -/
  | modify (new : Symbol)
  deriving Inhabited

/-- The name of the kind of a change. -/
def Change.label : Change → String
  | rename _ => "rename"
  | delete => "delete"
  | modify _ => "modify"

/-- A change of the symbol with a name. -/
structure SymbolChange where
  symbol : String
  change : Change
  deriving Inhabited

/-- A use that no longer works after a change. -/
structure BrokenReference where
  reference : Reference
  reason : String
  severity : Severity
  deriving DecidableEq, Inhabited

/-- An edit that a change forces on a use. -/
structure RequiredUpdate where
  filePath : String
  line : Nat
  column : Nat
  description : String
  oldText : String
  newText : Option String
  /-- The edit needs no review. -/
  automatic : Bool
  deriving DecidableEq, Inhabited

/-- What speaks against a change. -/
structure Objection where
  message : String
  severity : Severity
  filePath : Option String := none
  line : Option Nat := none
  deriving DecidableEq, Inhabited

/-- An edit that helps to carry out a change. -/
structure Fix where
  filePath : String
  line : Nat
  column : Nat
  description : String
  oldText : String
  newText : String
  confidence : Float
  safe : Bool
  deriving Inhabited

/-- What follows from a change. -/
structure Consequences where
  broken : List BrokenReference := []
  updates : List RequiredUpdate := []
  objections : List Objection := []
  fixes : List Fix := []
  deriving Inhabited

/-- Names that languages accept: letters, digits and underscores, without a digit in front. -/
def isIdentifier (name : String) : Bool :=
  match name.toList with
  | [] => false
  | c :: cs =>
    (Text.isAlphabetic c || c == '_') && cs.all fun d => Text.isAlphanumeric d || d == '_'

/-- How sure the edits of a rename are. -/
def renameConfidence : Float := 0.95

/-! ## Deleting -/

/-- Every use of a deleted symbol breaks; without uses its declaration can go. -/
def deleteConsequences (declaration : Symbol) (references : List Reference) : Consequences :=
  let name := declaration.name
  { broken := references.map fun reference =>
      { reference, reason := "references deleted symbol '" ++ name ++ "'", severity := .error }
    updates := references.map fun r =>
      { filePath := r.filePath
        line := r.line
        column := r.column
        description := "Remove or replace the use of '" ++ name ++ "'"
        oldText := name
        newText := none
        automatic := false }
    fixes :=
      if references.isEmpty then
        [{ filePath := declaration.filePath
           line := declaration.range.startLine
           column := declaration.range.startColumn
           description := "Remove the declaration of '" ++ name ++ "' (lines " ++
             toString declaration.range.startLine ++ "-" ++ toString declaration.range.endLine ++ ")"
           oldText := declaration.signature.getD name
           newText := ""
           confidence := 1.0
           safe := true }]
      else [] }

/-! ## Renaming -/

/-- The edit that puts a new name in the place of an old one. -/
def renameFix (filePath : String) (line column : Nat) (oldName newName : String) : Fix :=
  { filePath, line, column
    description := "Replace '" ++ oldName ++ "' with '" ++ newName ++ "'"
    oldText := oldName
    newText := newName
    confidence := renameConfidence
    safe := true }

/-- What speaks against a new name: it is no identifier, or it is taken. -/
def nameObjections (newName : String) (taken : List Symbol) : List Objection :=
  (if isIdentifier newName then []
    else [{ message := "'" ++ newName ++ "' is not a valid identifier", severity := .error }]) ++
  taken.map fun existing =>
    { message := "naming conflict: '" ++ newName ++ "' already exists as a " ++ existing.kind.label
      severity := .error
      filePath := some existing.filePath
      line := some existing.range.startLine }

/-- Every use of a renamed symbol is updated, and so is its declaration; `taken` holds the symbols
that have the new name already. -/
def renameConsequences (declaration : Symbol) (newName : String) (taken : List Symbol)
    (references : List Reference) : Consequences :=
  let oldName := declaration.name
  if newName == oldName then
    { objections :=
        [{ message := "'" ++ oldName ++ "' is already named '" ++ newName ++ "'"
           severity := .warning }] }
  else
    { objections := nameObjections newName taken
      updates := references.map fun r =>
        { filePath := r.filePath
          line := r.line
          column := r.column
          description := "Rename '" ++ oldName ++ "' to '" ++ newName ++ "'"
          oldText := oldName
          newText := some newName
          automatic := true }
      fixes :=
        references.map (fun r => renameFix r.filePath r.line r.column oldName newName) ++
          [renameFix declaration.filePath declaration.range.startLine declaration.range.startColumn
            oldName newName] }

/-! ## Modifying -/

/-- Every call of a symbol is checked against its new signature. -/
def signatureConsequences (stored proposed : Symbol) (references : List Reference) :
    Consequences :=
  if stored.signature == proposed.signature then {}
  else
    let oldText := stored.signature.getD ""
    let newText := proposed.signature.getD ""
    { objections :=
        [{ message := "signature of '" ++ stored.name ++ "' changes from `" ++ oldText ++ "` to `" ++
             newText ++ "`"
           severity := .warning
           filePath := some stored.filePath
           line := some stored.range.startLine }]
      updates := (references.filter (·.kind == .call)).map fun r =>
        { filePath := r.filePath
          line := r.line
          column := r.column
          description := "Check the call to '" ++ stored.name ++ "' against the new signature"
          oldText
          newText := some newText
          automatic := false } }

/-- What is said of a change of kind. -/
def kindObjections (stored proposed : Symbol) : List Objection :=
  if stored.kind == proposed.kind then []
  else
    [{ message := "'" ++ stored.name ++ "' changes kind from " ++ stored.kind.label ++ " to " ++
         proposed.kind.label
       severity := .warning }]

/-- A symbol that is no longer public breaks its uses in other files. -/
def visibilityConsequences (stored proposed : Symbol) (references : List Reference) :
    Consequences :=
  if stored.visibility == .visible && proposed.visibility != .visible then
    let foreign := references.filter (·.filePath != stored.filePath)
    let reason (r : Reference) : String :=
      "'" ++ stored.name ++ "' becomes " ++ proposed.visibility.label ++ " but is used from " ++
        r.filePath
    { objections := foreign.map fun r =>
        { message := reason r, severity := .error, filePath := some r.filePath, line := some r.line }
      broken := foreign.map fun r => { reference := r, reason := reason r, severity := .error } }
  else {}

/-- What is said of a symbol that is no longer exported. -/
def exportObjections (stored proposed : Symbol) : List Objection :=
  if stored.isExported && !proposed.isExported then
    [{ message := "breaking API change: '" ++ stored.name ++ "' is no longer exported"
       severity := .error
       filePath := some stored.filePath
       line := some stored.range.startLine }]
  else []

/-- What follows from another declaration in the place of the stored one. -/
def modifyConsequences (stored proposed : Symbol) (references : List Reference) : Consequences :=
  let signature := signatureConsequences stored proposed references
  let visibility := visibilityConsequences stored proposed references
  { broken := visibility.broken
    updates := signature.updates
    objections :=
      signature.objections ++ kindObjections stored proposed ++ visibility.objections ++
        exportObjections stored proposed }

end CodeAtlas
