import CodeAtlas.Sorting

/-!
# Cycles between files

* `FileGraph`: which file depends on which.
* `CycleSearch`: a depth-first search under way; an edge back to the current path closes a cycle.
* `FileGraph.cycles`: the cycles that the search closes, each once and from its smallest file on.
-/

namespace CodeAtlas

/-- Which file depends on which. Files that are no keys depend on nothing. -/
abbrev FileGraph := List (String × List String)

namespace FileGraph

/-- The files that a file depends on. -/
def successors (g : FileGraph) (file : String) : List String :=
  ((g.find? (·.1 == file)).map (·.2)).getD []

/-- All files of a graph, each once. -/
def files (g : FileGraph) : List String := distinct (g.map (·.1) ++ g.flatMap (·.2))

/-- A bound on the steps of a search: each file is retired once, and each edge is looked at once. -/
def searchBound (g : FileGraph) : Nat := total (g.files.map fun f => (g.successors f).length + 1)

end FileGraph

/-- The position of the smallest element. -/
def smallestPosition (path : List String) : Nat :=
  path.findIdx fun f => path.all fun other => compare f other != .gt

/-- A cycle from its smallest file on. -/
def canonicalCycle (path : List String) : List String :=
  path.drop (smallestPosition path) ++ path.take (smallestPosition path)

/-- A file on the current path with its successors that are still to be looked at. -/
structure CycleFrame where
  file : String
  pending : List String
  deriving DecidableEq, Inhabited

/-- A search under way. -/
structure CycleSearch where
  /-- The frames of the current path, the innermost first. -/
  stack : List CycleFrame := []
  /-- The current path, the outermost file first. -/
  path : List String := []
  /-- The files all of whose successors were looked at. -/
  done : List String := []
  /-- The cycles that were closed. -/
  cycles : List (List String) := []
  deriving DecidableEq, Inhabited

namespace CycleSearch

/-- The search at a new start. -/
def enter (g : FileGraph) (s : CycleSearch) (file : String) : CycleSearch :=
  { s with stack := [⟨file, g.successors file⟩], path := [file] }

/-- Records a cycle that is new. -/
def close (s : CycleSearch) (cycle : List String) : CycleSearch :=
  if s.cycles.contains cycle then s else { s with cycles := s.cycles ++ [cycle] }

/-- One step: the innermost file is retired, or its next successor is looked at. There is none
without a path. -/
def step (g : FileGraph) (s : CycleSearch) : Option CycleSearch :=
  match s.stack with
  | [] => none
  | ⟨file, []⟩ :: outer =>
    some { s with stack := outer, path := s.path.dropLast, done := file :: s.done }
  | ⟨file, next :: pending⟩ :: outer =>
    let s := { s with stack := ⟨file, pending⟩ :: outer }
    if s.path.contains next then
      some (s.close (canonicalCycle (s.path.drop (s.path.idxOf next))))
    else if s.done.contains next then some s
    else some { s with stack := ⟨next, g.successors next⟩ :: s.stack, path := s.path ++ [next] }

/-- Goes on until the path is empty, for a bounded number of steps. -/
def run (g : FileGraph) : Nat → CycleSearch → CycleSearch
  | 0, s => s
  | n + 1, s =>
    match s.step g with
    | none => s
    | some s => run g n s

end CycleSearch

def FileGraph.search (g : FileGraph) : CycleSearch :=
  g.foldl (fun s (file, _) =>
    if s.done.contains file then s else (s.enter g file).run g g.searchBound) {}

/-- The cycles that the search closes. -/
def FileGraph.cycles (g : FileGraph) : List (List String) := g.search.cycles

end CodeAtlas
