import CodeAtlas.Graph.Walk

/-!
# Impact of a change

* `Risk`, `assessRisk`: how risky it is to change a symbol that is used in many places.
* `Impact`, `Store.impact`: what a change of a symbol would touch: its uses, the files they are in,
  and the symbols that depend on it, level by level.
-/

namespace CodeAtlas

/-- How risky a change is. -/
inductive Risk where
  | low
  | medium
  | high
  deriving DecidableEq, Inhabited, Repr

namespace Risk

/-- The name of a level. -/
def label : Risk → String
  | low => "low"
  | medium => "medium"
  | high => "high"

/-- The position of a level. -/
def rank : Risk → Nat
  | low => 0
  | medium => 1
  | high => 2

/-- The higher of two levels. -/
def max (a b : Risk) : Risk := if a.rank < b.rank then b else a

end Risk

/-- The risk that goes with the spread of a symbol's uses. -/
def assessRisk (exported : Bool) (references files : Nat) : Risk :=
  if references > 50 || files > 20 then .high
  else if exported && (references > 20 || files > 10) then .high
  else if exported && (references > 5 || files > 3) then .medium
  else if references > 10 || files > 5 then .medium
  else .low

/-- What a change of a symbol would touch. -/
structure Impact where
  symbol : String
  exported : Bool
  /-- The uses of the symbol. -/
  references : List Reference
  /-- The number of uses of what depends on the symbol. -/
  indirectReferences : Nat
  /-- The files with a use of the symbol, in order. -/
  affectedFiles : List String
  /-- What depends on the symbol; depth one depends on it directly. -/
  affectedSymbols : List GraphNode
  risk : Risk
  suggestions : List String
  breakingChanges : List String
  isBreaking : Bool
  warnings : List String
  deriving Inhabited

/-- The depth of the dependents if none is asked for. -/
def defaultImpactDepth : Nat := 3

/-- A number of things. -/
def plural (n : Nat) (word : String) : String :=
  if n == 1 then "1 " ++ word else toString n ++ " " ++ word ++ "s"

/-- What to do about a change. -/
def suggestions (name : String) (risk : Risk) (references : Nat) (files : List String)
    (exported : Bool) : List String :=
  if references == 0 then
    ["No references to '" ++ name ++ "' were found; the change is local"]
  else
    (match risk with
      | .high =>
        ["Split the change into smaller steps and land them separately",
          "Review all " ++ toString files.length ++ " affected files before merging"]
      | .medium => ["Update the " ++ toString references ++ " reference(s) in the same change"]
      | .low =>
        ["Update " ++ plural references "reference" ++ " in " ++ ", ".intercalate files]) ++
    (if exported then
      ["'" ++ name ++ "' is exported; keep a deprecated alias if external code may use it"]
    else [])

namespace Store

/-- The definitions of a name, of which there is at least one. -/
def definitions (s : Store) (name : String) : LookupM (List Symbol) := do
  let found ← s.symbolsNamed name
  if found.isEmpty then throw (.symbolNotFound name)
  pure found

/-- The symbols that depend on a frontier, level after level, as many as are left, each at the level
that reaches it first; `visited` holds the ids that were reached before. -/
def dependentLevels (s : Store) :
    (left depth : Nat) → (visited : List Int) → (frontier : List Symbol) →
      StoreM (List (Nat × Symbol))
  | 0, _, _, _ => pure []
  | left + 1, depth, visited, frontier => do
    let next := (← s.dependentsOf frontier).filter fun d => !visited.contains d.id
    if next.isEmpty then pure []
    else
      let further ← dependentLevels s left (depth + 1) (visited ++ next.map (·.id)) next
      pure (next.map (fun d => (depth, d)) ++ further)

/-- What a change of some definitions of a name would touch. -/
def impactOf (s : Store) (depth : Nat) (name : String) (targets : List Symbol) :
    StoreM Impact := do
  let exported := targets.any (·.isExported)
  let references ← s.referencesToAll targets
  let affectedFiles := sortedTexts (references.map (·.filePath))
  let dependents ← s.dependentLevels depth 1 (targets.map (·.id)) targets
  let further ← s.referencesToAll (dependents.map (·.2))
  let risk := assessRisk exported references.length affectedFiles.length
  let isBreaking := exported && references.length ≥ 1
  let breakingChanges :=
    if isBreaking then
      affectedFiles.map fun file =>
        file ++ ": " ++ toString (references.countP (·.filePath == file)) ++
          " reference(s) to exported '" ++ name ++ "'"
    else []
  let warnings :=
    if targets.length > 1 then
      ["'" ++ name ++ "' is defined " ++ toString targets.length ++
        " times; references are combined"]
    else []
  pure
    { symbol := name
      exported
      references
      indirectReferences := further.countP fun r => !references.any (·.id == r.id)
      affectedFiles
      affectedSymbols := dependents.map fun (depth, d) => .ofSymbol depth d
      risk
      suggestions := suggestions name risk references.length affectedFiles exported
      breakingChanges
      isBreaking
      warnings }

/-- What a change of a symbol would touch, with its dependents up to a depth. -/
def impact (s : Store) (depth : Nat) (name : String) : LookupM Impact := do
  let targets ← s.definitions name
  s.impactOf depth name targets

end Store

end CodeAtlas
