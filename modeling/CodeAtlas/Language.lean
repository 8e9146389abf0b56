import CodeAtlas.Config.Basic
import CodeAtlas.Path

/-!
# Languages

* `Language`: a language whose files can be read, with its file extensions.
* `Language.detect?`: the language of a path, among those that are enabled.
-/

namespace CodeAtlas

/-- A language whose files can be read. -/
inductive Language where
  | go
  | python
  | rust
  deriving DecidableEq, Inhabited, Repr

namespace Language

/-- All languages, in the order of their names. -/
def all : List Language := [.go, .python, .rust]

def label : Language → String
  | go => "go"
  | python => "python"
  | rust => "rust"

/-- The file extensions of a language. -/
def extensions : Language → List String
  | go => ["go"]
  | python => ["py", "pyi"]
  | rust => ["rs"]

/-- The language with the given name. -/
def ofLabel? (s : String) : Option Language := all.find? (·.label == s)

def named (names : List String) : List Language := all.filter fun l => names.contains l.label

/-- The language of a path, by its extension. -/
def detect? (enabled : List Language) (path : String) : Option Language := do
  let ext ← Path.extension? path
  enabled.find? fun l => l.extensions.contains ext

end Language

end CodeAtlas
