import CodeAtlas.Language
import CodeAtlas.Outline.Go
import CodeAtlas.Outline.Python
import CodeAtlas.Outline.Rust

/-!
# Outlines by language

`Outline.extract` reads the outline of a source text in a given language.
-/

namespace CodeAtlas.Outline

def extract : Language → Syntax.Source → Outline
  | .go => Go.outline
  | .python => Python.outline
  | .rust => Rust.outline

end CodeAtlas.Outline
