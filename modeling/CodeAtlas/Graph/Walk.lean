import CodeAtlas.Graph.Neighbours

/-!
# Dependency graphs

* `Graph`: the symbols around a root with their distances, and the edges between them. An edge points
  from the dependent symbol to what it depends on.
* `Store.dependencyGraph`: the graph around the first definition of a name, up to a depth.

The walk goes level by level and follows edges in both directions. A symbol that is reached again is
not expanded again, but the edge that reached it is kept.
-/

namespace CodeAtlas

/-- A symbol at a distance from the root. -/
structure GraphNode where
  id : Int
  name : String
  kind : SymbolKind
  filePath : String
  line : Nat
  depth : Nat
  deriving DecidableEq, Inhabited

def GraphNode.ofSymbol (depth : Nat) (s : Symbol) : GraphNode :=
  ⟨s.id, s.name, s.kind, s.filePath, s.range.startLine, depth⟩

/-- A dependency between two symbols. -/
structure GraphEdge where
  source : Int
  target : Int
  kind : EdgeKind
  deriving DecidableEq, Inhabited

/-- The surroundings of a root. -/
structure Graph where
  root : Int
  nodes : List GraphNode
  edges : List GraphEdge := []
  warnings : List String := []
  deriving Inhabited

/-- The depth of a walk if none is asked for. -/
def defaultGraphDepth : Nat := 5

/-- What is said of a name with several definitions. -/
def ambiguityWarning (name : String) (candidates : List Symbol) : String :=
  let places := candidates.map fun s => s.filePath ++ ":" ++ toString s.range.startLine
  "'" ++ name ++ "' is defined " ++ toString candidates.length ++ " times (" ++
    ", ".intercalate places ++ "); using the first"

/-- A walk under way: the graph so far, the names that were warned about, and the symbols that were
reached on the current level. -/
structure Walk where
  graph : Graph
  warned : List String
  reached : List Symbol := []
  deriving Inhabited

namespace Walk

/-- Says once of a name that it has several definitions. -/
def warn (w : Walk) (name : String) (candidates : List Symbol) : Walk :=
  if candidates.length > 1 && !w.warned.contains name then
    { w with
      warned := name :: w.warned
      graph := { w.graph with warnings := w.graph.warnings ++ [ambiguityWarning name candidates] } }
  else w

/-- Adds an edge that is new. -/
def addEdge (w : Walk) (e : GraphEdge) : Walk :=
  if w.graph.edges.contains e then w
  else { w with graph := { w.graph with edges := w.graph.edges ++ [e] } }

/-- Adds a symbol that is new at a depth. -/
def reach (w : Walk) (depth : Nat) (s : Symbol) : Walk :=
  if w.graph.nodes.any (·.id == s.id) then w
  else
    { w with
      graph := { w.graph with nodes := w.graph.nodes ++ [.ofSymbol depth s] }
      reached := w.reached ++ [s] }

/-- The symbol at one end of a link; a warning is due where it had to be chosen. -/
def resolve (s : Store) (w : Walk) (name : String) : Option Int → StoreM (Option Symbol × Walk)
  | some id => do pure (← s.symbol? id, w)
  | none => do
    let candidates ← s.symbolsNamed name
    pure (candidates.head?, w.warn name candidates)

/-- Follows an edge from a symbol to what it depends on. -/
def followTarget (s : Store) (depth : Nat) (symbol : Symbol) (w : Walk) (e : Relationship) :
    StoreM Walk := do
  match ← resolve s w e.target e.targetId with
  | (some found, w) => pure ((w.addEdge ⟨symbol.id, found.id, e.kind⟩).reach depth found)
  | (none, w) => pure w

/-- Follows an edge from a symbol back to what depends on it. -/
def followSource (s : Store) (depth : Nat) (symbol : Symbol) (w : Walk) (e : Relationship) :
    StoreM Walk := do
  match ← resolve s w e.source e.sourceId with
  | (some found, w) => pure ((w.addEdge ⟨found.id, symbol.id, e.kind⟩).reach depth found)
  | (none, w) => pure w

/-- Follows all edges at a symbol. -/
def expand (s : Store) (depth : Nat) (w : Walk) (symbol : Symbol) : StoreM Walk := do
  let w ← (← s.relationshipsFrom symbol.name (some symbol.id)).foldlM
    (followTarget s depth symbol) w
  (← s.relationshipsTo symbol.name (some symbol.id)).foldlM (followSource s depth symbol) w

/-- Expands level after level, as many as are left, until a level reaches nothing new. -/
def levels (s : Store) : (left depth : Nat) → (frontier : List Symbol) → Walk → StoreM Walk
  | 0, _, _, w => pure w
  | left + 1, depth, frontier, w => do
    let w ← frontier.foldlM (expand s depth) { w with reached := [] }
    if w.reached.isEmpty then pure w else levels s left (depth + 1) w.reached w

def start (root : Symbol) (name : String) (candidates : List Symbol) : Walk :=
  { graph :=
      { root := root.id
        nodes := [.ofSymbol 0 root]
        warnings := if candidates.length > 1 then [ambiguityWarning name candidates] else [] }
    warned := [name] }

end Walk

/-- The surroundings of the first definition of a name, up to a depth. -/
def Store.dependencyGraph (s : Store) (name : String) (maxDepth : Nat) : LookupM Graph := do
  let candidates ← s.symbolsNamed name
  match candidates with
  | [] => throw (.symbolNotFound name)
  | root :: _ => do
    let w ← Walk.levels s maxDepth 1 [root] (.start root name candidates)
    pure w.graph

end CodeAtlas
