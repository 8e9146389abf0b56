import CodeAtlas.Store.Read

/-!
# Neighbours of a symbol

* `Store.linkEnd?`: the symbol at one end of a link: the one it was resolved to, or else the first
  definition of its name.
* `Store.referencesToAll`: the uses of some symbols, each once.
* `Store.dependenciesOf`, `Store.dependentsOf`: what a name depends on, and what depends on symbols.
* `coupling`: the dependents per dependency.
-/

namespace CodeAtlas

/-- Why a question about a symbol has no answer. -/
inductive LookupError where
  | store (cause : StoreError)
  | symbolNotFound (name : String)
  deriving DecidableEq, Inhabited

/-- The text of an error with its cause. -/
def LookupError.trace : LookupError → String
  | store cause => cause.trace
  | symbolNotFound name => "symbol not found: " ++ name

/-- Questions about symbols. -/
abbrev LookupM := Except LookupError

/-- A read of the store as part of a question. -/
instance : MonadLift StoreM LookupM where
  monadLift
    | .ok a => .ok a
    | .error e => .error (.store e)

/-- The number of dependents for each dependency, where the symbol itself counts as one. -/
def coupling (dependents dependencies : Nat) : Float :=
  dependents.toUInt64.toFloat / (dependencies.toUInt64.toFloat + 1.0)

/-- The first symbol around a line. -/
def enclosing? (symbols : List Symbol) (line : Nat) : Option Symbol :=
  symbols.find? (·.range.containsLine line)

namespace Store

/-- The symbol at one end of a link: the one it was resolved to, or else the first definition of its
name. Names without a definition are external. -/
def linkEnd? (s : Store) (name : String) : Option Int → StoreM (Option Symbol)
  | some id => s.symbol? id
  | none => do pure (← s.symbolsNamed name).head?

/-- The uses of any of the targets, each once. -/
def referencesToAll (s : Store) (targets : List Symbol) : StoreM (List Reference) := do
  let found ← targets.mapM fun t => s.referencesTo t.name (some t.id)
  pure (distinctOn (·.id) found.flatten)

/-- The symbols that the definitions of a name depend on, each once and without the definitions. -/
def dependenciesOf (s : Store) (name : String) : StoreM (List Symbol) := do
  let owners ← s.symbolsNamed name
  let found ← owners.mapM fun owner => do
    let edges ← s.relationshipsFrom owner.name (some owner.id)
    edges.mapM fun e => s.linkEnd? e.target e.targetId
  pure (distinctOn (·.id)
    ((found.flatten.filterMap id).filter fun d => !owners.any (·.id == d.id)))

/-- The symbols around the uses of the targets, file by file, each once and without the targets. -/
def dependentsOf (s : Store) (targets : List Symbol) : StoreM (List Symbol) := do
  let references ← s.referencesToAll targets
  let found ← (sortedTexts (references.map (·.filePath))).mapM fun file => do
    let symbols ← s.symbolsInFile file
    pure ((references.filter (·.filePath == file)).filterMap fun r => enclosing? symbols r.line)
  pure (distinctOn (·.id) (found.flatten.filter fun d => !targets.any (·.id == d.id)))

end Store

/-- Both directions around a name. -/
structure DependencyChain where
  symbol : String
  dependencies : List Symbol
  dependents : List Symbol
  couplingScore : Float
  deriving Inhabited

/-- Both directions around a name. -/
def Store.dependencyChain (s : Store) (name : String) : StoreM DependencyChain := do
  let dependencies ← s.dependenciesOf name
  let dependents ← s.dependentsOf (← s.symbolsNamed name)
  pure
    { symbol := name
      dependencies
      dependents
      couplingScore := coupling dependents.length dependencies.length }

end CodeAtlas
