import CodeAtlas.Graph.Neighbours
import CodeAtlas.Store.Search

/-!
# Looking up symbols

* `Hit`: an answer: a symbol, a place where one is used, or a name from outside.
* `Store.callersOf`, `Store.calleesOf`: the calls of a symbol and the calls in it, one hit a call.
* `Store.usesOf`: the places where a symbol is used.
* `Store.search`: the best matches of a search text, perhaps of one kind.
-/

namespace CodeAtlas

inductive HitKind where
  | symbol (kind : SymbolKind)
  | use (kind : UseKind)
  | external
  deriving DecidableEq, Inhabited

/-- The name of what a hit is. -/
def HitKind.label : HitKind → String
  | symbol kind => kind.label
  | use kind => kind.label
  | external => "external"

/-- An answer. A name without a definition has no id. -/
structure Hit where
  symbolId : Option Int
  name : String
  kind : HitKind
  file : String
  line : Nat
  signature : Option String := none
  deriving DecidableEq, Inhabited

/-- A symbol as an answer. -/
def Hit.ofSymbol (s : Symbol) : Hit :=
  { symbolId := some s.id
    name := s.name
    kind := .symbol s.kind
    file := s.filePath
    line := s.range.startLine
    signature := s.signature }

namespace Store

/-- The symbol at one end of an edge, or its bare name if it has not exactly one definition. The
place is the edge's. -/
def edgeHit (s : Store) (e : Relationship) (name : String) (id : Option Int) : StoreM Hit := do
  let symbol ← match id with
    | some id => s.symbol? id
    | none => do
      match ← s.symbolsNamed name with
      | [only] => pure (some only)
      | _ => pure none
  match symbol with
  | some symbol => pure { Hit.ofSymbol symbol with line := e.line, file := e.filePath }
  | none => pure { symbolId := none, name, kind := .external, file := e.filePath, line := e.line }

/-- Collects the calls at each definition of a name, each call once. -/
def callHits (s : Store) (name : String) (edgesAt : Symbol → StoreM (List Relationship))
    (hit : Relationship → StoreM Hit) : StoreM (List Hit) := do
  let (_, hits) ← (← s.symbolsNamed name).foldlM (fun (seen, hits) symbol => do
    let calls := (← edgesAt symbol).filter fun e => e.kind == .calls && !seen.contains e.id
    pure (seen ++ calls.map (·.id), hits ++ (← calls.mapM hit))) (([] : List Int), [])
  pure hits

/-- The calls of a symbol, named after the callers. -/
def callersOf (s : Store) (name : String) : StoreM (List Hit) :=
  s.callHits name (fun d => s.relationshipsTo d.name (some d.id))
    fun e => s.edgeHit e e.source e.sourceId

/-- The calls in a symbol, named after what is called. -/
def calleesOf (s : Store) (name : String) : StoreM (List Hit) :=
  s.callHits name (fun d => s.relationshipsFrom d.name (some d.id))
    fun e => s.edgeHit e e.target e.targetId

/-- The places where a symbol is used, named after the symbols around them. -/
def usesOf (s : Store) (name : String) : StoreM (List Hit) := do
  let references ← s.referencesToAll (← s.symbolsNamed name)
  references.mapM fun r => do
    let source ← match r.sourceId with
      | some id => s.symbol? id
      | none => pure none
    pure
      { symbolId := source.map (·.id)
        name := (source.map (·.name)).getD "<top level>"
        kind := .use r.kind
        file := r.filePath
        line := r.line }

/-- What a symbol depends on. -/
def dependencyHits (s : Store) (name : String) : StoreM (List Hit) := do
  pure ((← s.dependenciesOf name).map Hit.ofSymbol)

/-- The best matches of a search text. Where only one kind is asked for, four times as many matches
are looked at. -/
def search (s : Store) (input : String) (kind : Option SymbolKind) (limit : Nat) :
    StoreM (List Hit) := do
  let fetch := if kind.isSome then min (4 * limit) 0xffffffffffffffff else limit
  let found ← s.searchSymbols input fetch
  pure (((found.filter fun m => kind.all (· == m.kind)).take limit).map Hit.ofSymbol)

end Store

end CodeAtlas
