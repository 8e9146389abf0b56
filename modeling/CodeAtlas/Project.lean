import CodeAtlas.Edge
import CodeAtlas.Symbol

/-!
# Projects, files and outlines

* `Project`: a directory that is indexed.
* `SourceFile`: what is known of a file; `File`: the same in the store.
* `Outline`: all that was found in the text of one file.
-/

namespace CodeAtlas

/-- A directory that is indexed. -/
structure Project where
  id : Int
  path : String
  name : String
  languageStats : List (String × Nat)
  createdAt : Int
  lastIndexed : Option Int
  deriving DecidableEq, Inhabited

/-- What is known of a source file before it is stored. -/
structure SourceFile where
  path : String := ""
  relativePath : String := ""
  language : String := ""
  size : Nat := 0
  linesOfCode : Nat := 0
  hash : String := ""
  lastModified : Int := 0
  deriving DecidableEq, Inhabited

/-- A source file in the store. -/
structure File extends SourceFile where
  id : Int := 0
  projectId : Int := 0
  lastIndexed : Int := 0
  deriving DecidableEq, Inhabited

/-- All that was found in the text of one file, in the order it was found. -/
structure Outline where
  symbols : List Declaration := []
  imports : List ImportClause := []
  edges : List Edge := []
  uses : List Use := []
  deriving Inhabited

end CodeAtlas
