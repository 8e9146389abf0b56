import CodeAtlas.Disk
import CodeAtlas.Finding
import CodeAtlas.Hash.Blake3
import CodeAtlas.Outline.Extract

/-!
# Reading one file

* `Extractor`: what makes an outline of a content. `Extractor.grammars`: the one that knows the
  languages of this project.
* `Reading`: what comes of reading a file: its outline, or that it has not changed, or that it cannot
  be read.
* `ReadContext.read`: reads a file. A file with the hash that is known of it is not looked at again,
  unless this is forced.
-/

namespace CodeAtlas

/-- Makes an outline of a file from its language, its path as seen from the root of the project and its
content, or says why it cannot. -/
abbrev Extractor := Language → String → ByteArray → Except String Outline

/-- The outline that the grammar of the language gives. -/
def Extractor.grammars : Extractor := fun language _ content => .ok (.extract language ⟨content⟩)

/-- A declaration that has the hash of what it spans, if it came without one. A span that is not in
the content is taken for an empty one. -/
def Declaration.hashed (d : Declaration) (content : ByteArray) : Declaration :=
  if d.contentHash.isEmpty then
    let span :=
      if d.range.startByte ≤ d.range.endByte ∧ d.range.endByte ≤ content.size then
        content.extract d.range.startByte d.range.endByte
      else .empty
    { d with contentHash := Hash.Blake3.hexDigest span }
  else d

/-- An outline whose declarations all have hashes. -/
def Outline.hashed (o : Outline) (content : ByteArray) : Outline :=
  { o with symbols := o.symbols.map (·.hashed content) }

/-- The outline of a content, with all hashes. -/
def Extractor.outline (x : Extractor) (language : Language) (relativePath : String)
    (content : ByteArray) : Except String Outline := do
  pure ((← x language relativePath content).hashed content)

/-- What comes of reading a file. -/
inductive Reading where
  | parsed (file : SourceFile) (outline : Outline)
  /-- The file has the hash that is known of it. -/
  | unchanged (path : String)
  /-- The file is in no language that can be read. -/
  | unsupported (path : String)
  | failed (e : FileError)
  deriving Inhabited

/-- What is needed to read the files of a project. -/
structure ReadContext where
  root : String
  languages : List Language
  extractor : Extractor
  /-- Paths of files with their known hashes. -/
  known : List (String × String)
  force : Bool

/-- The number of lines that are not blank. -/
def linesOfCode (content : ByteArray) : Nat :=
  (Text.lineLists (Text.Utf8.decodeLossy content.toList)).countP fun l => !l.all Text.isBlank

/-- What is known of a file from its content. -/
def describeFile (path relativePath : String) (language : Language) (content : ByteArray)
    (hash : String) (modified : Int) : SourceFile :=
  { path
    relativePath
    language := language.label
    size := content.size
    linesOfCode := linesOfCode content
    hash
    lastModified := modified }

/-- Reads the file at an absolute path. -/
def ReadContext.read (ctx : ReadContext) (disk : Disk) (path : String) : Reading :=
  let relativePath := Path.relative ctx.root path
  match Language.detect? ctx.languages path with
  | none => .unsupported relativePath
  | some language =>
    match disk.read path with
    | .error e => .failed ⟨.read, relativePath, e.message⟩
    | .ok (content, modified) =>
      let hash := Hash.Blake3.hexDigest content
      if !ctx.force && ctx.known.lookup relativePath == some hash then .unchanged relativePath
      else
        match ctx.extractor.outline language relativePath content with
        | .error e => .failed ⟨.parse, relativePath, e⟩
        | .ok outline =>
          .parsed (describeFile path relativePath language content hash modified) outline

end CodeAtlas
