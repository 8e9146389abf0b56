import CodeAtlas.Config.Pattern
import CodeAtlas.Json.Basic

/-!
# Settings

* `Config`: the settings of a project, with their defaults.
* `Config.shouldIndexFile`, `Config.isExcludedDir`: which paths are indexed and which directories are
  entered.
* `Config.validate`: the first thing wrong with the settings.
* `Config.ofJson?`: settings from a value; missing parts have their defaults, unknown ones are
  ignored.
-/

namespace CodeAtlas

/-- File name of the settings of a project. -/
def configFile : String := ".symgraph.toml"

/-- File name of the index of a project. -/
def indexFile : String := ".symgraph.db"

/-- Languages that can be read. -/
def supportedLanguages : List String := ["go", "python", "rust"]

/-- Settings of one project. -/
structure Config where
  /-- Name to show; the directory's name if empty. -/
  projectName : String := ""
  enabled : List String := supportedLanguages
  exclude : List String :=
    ["target/", "node_modules/", "vendor/", "__pycache__/", ".git/", ".venv/", "**/testdata/**",
      indexFile, indexFile ++ "-wal", indexFile ++ "-shm"]
  includes : List String := []
  /-- Number of workers; zero leaves the choice to the program. -/
  workers : Nat := 0
  channelCapacity : Nat := 256
  watch : Bool := false
  /-- Depth of dependency graphs. -/
  maxDepth : Nat := 5
  /-- Depth of the walk over dependents. -/
  impactDepth : Nat := 3
  logLevel : String := "info"
  logFormat : String := "pretty"
  deriving DecidableEq, Inhabited

/-- What can be wrong with settings. -/
inductive ConfigError where
  | unsupportedLanguage (name : String)
  | noCapacity
  | noDepth
  | noImpactDepth
  | badLevel (name : String)
  | badFormat (name : String)
  deriving DecidableEq

def ConfigError.message : ConfigError → String
  | unsupportedLanguage name => "Unsupported language: " ++ name
  | noCapacity => "Channel capacity must be greater than 0"
  | noDepth => "Analysis max depth must be greater than 0"
  | noImpactDepth => "Impact depth must be greater than 0"
  | badLevel name => "Invalid log level: " ++ name
  | badFormat name => "Invalid log format: " ++ name

namespace Config

def logLevels : List String := ["error", "warn", "info", "debug", "trace"]

def logFormats : List String := ["compact", "pretty"]

/-- The first thing wrong with the settings. -/
def validate (c : Config) : Except ConfigError Unit :=
  match c.enabled.find? (fun l => !supportedLanguages.contains l) with
  | some l => .error (.unsupportedLanguage l)
  | none =>
    if c.channelCapacity = 0 then .error .noCapacity
    else if c.maxDepth = 0 then .error .noDepth
    else if c.impactDepth = 0 then .error .noImpactDepth
    else if !logLevels.contains c.logLevel then .error (.badLevel c.logLevel)
    else if !logFormats.contains c.logFormat then .error (.badFormat c.logFormat)
    else .ok ()

/-- Whether a file is indexed: no exclude pattern matches its path, and some include pattern does if
there are any. -/
def shouldIndexFile (c : Config) (path : String) : Bool :=
  !c.exclude.any (matchesPattern path) && (c.includes.isEmpty || c.includes.any (matchesPattern path))

/-- Whether a directory is left out of a walk: some exclude pattern for directories matches its path
with a slash behind it. -/
def isExcludedDir (c : Config) (dir : String) : Bool :=
  let path := Text.trimTail (· == '/') dir ++ "/"
  c.exclude.any fun p =>
    (Text.endsWith ['/'] p.toList || Text.contains ['*', '*'] p.toList) && matchesPattern path p

/-- The enabled languages that can be read. -/
def enabledLanguages (c : Config) : List String := c.enabled.filter supportedLanguages.contains

/-! ## Settings as values -/

def texts? (j : Json) : Option (List String) := j.asArr?.bind (·.mapM Json.asStr?)

/-- The parts of a section: members of an object by name, or items of an array by position. -/
def sectionPart? (names : List String) (j : Json) : Option (String → Option Json) :=
  match j with
  | .obj members => some fun k => (members.find? (·.1 == k)).map (·.2)
  | .arr items => if items.length ≤ names.length then some fun k => (names.zip items).lookup k else none
  | _ => none

/-- A part of a section, or its default if it is missing. -/
def part {α : Type} (sec : String → Option Json) (k : String) (read : Json → Option α) (default : α) :
    Option α :=
  match sec k with
  | some j => read j
  | none => some default

/-- Settings from a value. -/
def ofJson? (j : Json) : Option Config := do
  let base : Config := {}
  let top ← sectionPart? ["project", "languages", "indexing", "analysis", "logging"] j
  let c ← part top "project" (fun j => do
    let sec ← sectionPart? ["name"] j
    return { base with projectName := ← part sec "name" Json.asStr? base.projectName }) base
  let c ← part top "languages" (fun j => do
    let sec ← sectionPart? ["enabled"] j
    return { c with enabled := ← part sec "enabled" texts? c.enabled }) c
  let c ← part top "indexing" (fun j => do
    let sec ← sectionPart? ["exclude", "include", "workers", "channel_capacity", "watch"] j
    return { c with
      exclude := ← part sec "exclude" texts? c.exclude
      includes := ← part sec "include" texts? c.includes
      workers := ← part sec "workers" Json.asWord? c.workers
      channelCapacity := ← part sec "channel_capacity" Json.asWord? c.channelCapacity
      watch := ← part sec "watch" Json.asBool? c.watch }) c
  let c ← part top "analysis" (fun j => do
    let sec ← sectionPart? ["max_depth", "impact_depth"] j
    return { c with
      maxDepth := ← part sec "max_depth" Json.asWord? c.maxDepth
      impactDepth := ← part sec "impact_depth" Json.asWord? c.impactDepth }) c
  let c ← part top "logging" (fun j => do
    let sec ← sectionPart? ["level", "format"] j
    return { c with
      logLevel := ← part sec "level" Json.asStr? c.logLevel
      logFormat := ← part sec "format" Json.asStr? c.logFormat }) c
  return c

/-- Settings as a value. -/
def toJson (c : Config) : Json :=
  Json.object [
    ("project", .object [("name", .str c.projectName)]),
    ("languages", .object [("enabled", .list .str c.enabled)]),
    ("indexing", .object [
      ("exclude", .list .str c.exclude),
      ("include", .list .str c.includes),
      ("workers", .nat c.workers),
      ("channel_capacity", .nat c.channelCapacity),
      ("watch", .bool c.watch)]),
    ("analysis", .object [("max_depth", .nat c.maxDepth), ("impact_depth", .nat c.impactDepth)]),
    ("logging", .object [("level", .str c.logLevel), ("format", .str c.logFormat)])]

end Config

end CodeAtlas
