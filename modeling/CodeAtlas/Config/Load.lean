import CodeAtlas.Config.Basic
import CodeAtlas.Toml.Parse

/-!
# Settings from a file

* `Config.load`: the settings that the bytes of a file write, checked.
* `Config.loadOrDefault`: the same, with the defaults for a file that is missing or wrong.
-/

namespace CodeAtlas

/-- Why settings could not be loaded. -/
inductive LoadError where
  /-- The file is missing or is not text. -/
  | unreadable
  /-- The text is not a document, or does not fit the settings. -/
  | malformed
  | invalid (e : ConfigError)
  deriving DecidableEq

namespace Config

/-- The settings that the bytes of a file write; `none` stands for a missing file. -/
def load (bytes : Option ByteArray) : Except LoadError Config :=
  match bytes.bind String.fromUTF8? with
  | none => .error .unreadable
  | some text =>
    match (Toml.parse? text).bind fun es => ofJson? (Toml.table .header es).toJson with
    | none => .error .malformed
    | some c =>
      match c.validate with
      | .ok () => .ok c
      | .error e => .error (.invalid e)

/-- The settings of a file, or the defaults if they cannot be loaded. -/
def loadOrDefault (bytes : Option ByteArray) : Config := (load bytes).toOption.getD {}

end Config

end CodeAtlas
