import CodeAtlas.Command.Basic

/-!
# Arguments of the command line

* `OptionSpec`, `scanArguments`: options with one dash or two, values that are attached or follow,
  and a double dash after which nothing is an option.
* `parseArguments`: the invocation that arguments stand for.

Options of the program may also stand behind the command; there they take precedence.
-/

namespace CodeAtlas

/-- An option: its letter, its name, and whether it takes a value. -/
structure OptionSpec where
  letter : Option Char
  name : String
  hasValue : Bool
  deriving DecidableEq, Inhabited

/-- Why arguments lead to no command. -/
inductive ArgumentStop where
  | usage
  | version
  | help
  deriving DecidableEq, Inhabited, Repr

/-- Options and other arguments that were scanned. -/
structure Scanned where
  options : List (String × String) := []
  others : List String := []
  deriving DecidableEq, Inhabited

namespace Scanned

/-- Adds an option; none may be given twice. -/
def add (s : Scanned) (name value : String) : Except ArgumentStop Scanned :=
  if s.options.any (·.1 == name) then .error .usage
  else .ok { s with options := s.options ++ [(name, value)] }

def value? (s : Scanned) (name : String) : Option String := s.options.lookup name

end Scanned

/-- Whether an argument can only be an option: it starts with a dash and is longer than one. -/
def isOptionLike (argument : String) : Bool :=
  match argument.toList with
  | '-' :: _ :: _ => true
  | _ => false

/-- What a scan knows of the options that end it. -/
def stopOf? (hasVersion : Bool) (name : String) : Option ArgumentStop :=
  match name with
  | "help" | "h" => some .help
  | "version" | "V" => if hasVersion then some .version else none
  | _ => none

/-- Scans the letters of one argument. The second part of the answer is an option that still waits
for its value. -/
def scanLetters (specs : List OptionSpec) (hasVersion : Bool) :
    List Char → Scanned → Except ArgumentStop (Scanned × Option String)
  | [], s => .ok (s, none)
  | c :: rest, s =>
    match stopOf? hasVersion (String.singleton c) with
    | some stop => .error stop
    | none =>
      match specs.find? (·.letter == some c) with
      | none => .error .usage
      | some spec =>
        if spec.hasValue then
          match rest with
          | [] => .ok (s, some spec.name)
          | '=' :: value => do pure (← s.add spec.name (.ofList value), none)
          | value => do pure (← s.add spec.name (.ofList value), none)
        else do scanLetters specs hasVersion rest (← s.add spec.name "")

/-- Scans an argument with two dashes. -/
def scanName (specs : List OptionSpec) (hasVersion : Bool) (text : List Char) (s : Scanned) :
    Except ArgumentStop (Scanned × Option String) :=
  let name := String.ofList (text.takeWhile (· != '='))
  let value := match text.dropWhile (· != '=') with
    | '=' :: v => some (String.ofList v)
    | _ => none
  match (if name.length > 1 then stopOf? hasVersion name else none), value with
  | some stop, none => .error stop
  | some _, some _ => .error .usage
  | none, _ =>
    match specs.find? (·.name == name), value with
    | none, _ => .error .usage
    | some spec, some v =>
      if spec.hasValue then do pure (← s.add spec.name v, none) else .error .usage
    | some spec, none =>
      if spec.hasValue then .ok (s, some spec.name) else do pure (← s.add spec.name "", none)

/-- Scans arguments. If `untilOther` holds, the first argument that is no option ends the scan, and
what follows it is left over. -/
def scanArguments (specs : List OptionSpec) (hasVersion untilOther : Bool) :
    (arguments : List String) → (waiting : Option String) → Scanned →
      Except ArgumentStop (Scanned × List String)
  | [], some _, _ => .error .usage
  | [], none, s => .ok (s, [])
  | a :: rest, some name, s =>
    if isOptionLike a then .error .usage
    else do scanArguments specs hasVersion untilOther rest none (← s.add name a)
  | a :: rest, none, s =>
    match a.toList with
    | ['-', '-'] =>
      if untilOther then .error .usage else .ok ({ s with others := s.others ++ rest }, [])
    | '-' :: '-' :: text => do
      let (s, waiting) ← scanName specs hasVersion text s
      scanArguments specs hasVersion untilOther rest waiting s
    | '-' :: c :: text => do
      let (s, waiting) ← scanLetters specs hasVersion (c :: text) s
      scanArguments specs hasVersion untilOther rest waiting s
    | _ =>
      if untilOther then .ok ({ s with others := [a] }, rest)
      else scanArguments specs hasVersion untilOther rest none { s with others := s.others ++ [a] }

def programOptions : List OptionSpec :=
  [⟨some 'p', "project", true⟩, ⟨some 'f', "format", true⟩, ⟨some 'd', "debug", false⟩,
    ⟨some 'v', "verbose", false⟩]

def commandOptions : String → Option (List OptionSpec)
  | "index" =>
    some [⟨some 'r', "rebuild", false⟩, ⟨some 'w', "workers", true⟩, ⟨none, "watch", false⟩]
  | "watch" => some []
  | "query" => some [⟨some 'k', "kind", true⟩, ⟨some 'l', "limit", true⟩]
  | "deps" => some [⟨none, "depth", true⟩]
  | "impact" => some [⟨some 't', "to", true⟩]
  | "analyze" => some []
  | "stats" => some [⟨none, "detailed", false⟩]
  | "languages" => some []
  | _ => none

/-- An unsigned 64-bit number; a plus sign may stand in front. -/
def wordArgument? (s : String) : Option Nat :=
  let digits := match s.toList with
    | '+' :: ds => ds
    | ds => ds
  if digits.isEmpty || !digits.all Char.isDigit then none
  else
    let n := digits.foldl (fun n d => 10 * n + (d.toNat - 48)) 0
    if n < 0x10000000000000000 then some n else none

/-- The value of an option that must be a number. -/
def wordOption (s : Scanned) (name : String) : Except ArgumentStop (Option Nat) :=
  match s.value? name with
  | none => .ok none
  | some v =>
    match wordArgument? v with
    | some n => .ok (some n)
    | none => .error .usage

/-- The form of an answer with a name. -/
def OutputFormat.ofLabel? : String → Option OutputFormat
  | "text" => some .text
  | "json" => some .json
  | _ => none

/-- The command with a name, given what was scanned behind it. -/
def commandOf (name : String) (s : Scanned) : Except ArgumentStop Command := do
  match name, s.others with
  | "index", [] =>
    pure (.index (s.value? "rebuild").isSome (← wordOption s "workers") (s.value? "watch").isSome)
  | "watch", [] => pure .watch
  | "query", [queryType, target] =>
    pure (.query queryType target (s.value? "kind") ((← wordOption s "limit").getD 20))
  | "deps", [symbol] => pure (.deps symbol (← wordOption s "depth"))
  | "impact", [changeType, target] => pure (.impact changeType target (s.value? "to"))
  | "analyze", [] => pure .analyze
  | "stats", [] => pure (.stats (s.value? "detailed").isSome)
  | "languages", [] => pure .languages
  | _, _ => throw .usage

/-- The invocation that arguments stand for. -/
def parseArguments (arguments : List String) : Except ArgumentStop Invocation := do
  let (top, rest) ← scanArguments programOptions true true arguments none {}
  match top.others with
  | [] => throw .usage
  | "help" :: _ => throw .help
  | name :: _ =>
    match commandOptions name with
    | none => throw .usage
    | some specs => do
      let (inner, _) ← scanArguments (specs ++ programOptions) false false rest none {}
      let command ← commandOf name inner
      let given (option : String) : Option String := (inner.value? option).or (top.value? option)
      let projects := [inner, top].filterMap (·.value? "project")
      let formats := [inner, top].filterMap (·.value? "format")
      if projects.any String.isEmpty || formats.any fun f => (OutputFormat.ofLabel? f).isNone then
        throw .usage
      pure
        { command
          project := (given "project").getD "."
          format := ((given "format").bind OutputFormat.ofLabel?).getD .text
          debug := (given "debug").isSome
          verbose := (given "verbose").isSome }

end CodeAtlas
