import CodeAtlas.Json.Basic

/-!
# TOML documents

* `Toml`: a value. A table remembers how it came about, since that decides what may be added to it.
* `Toml.defineKey?`: a dotted key and its value, added below the current header.
* `Toml.openTable?`, `Toml.openItem?`: what the headers `[a.b]` and `[[a.b]]` do.
* `Toml.toJson`: the document as a JSON value; dates become null.
-/

namespace CodeAtlas

/-- How a table came about. -/
inductive TableOrigin where
  /-- On the way to a deeper header. -/
  | implied
  /-- On the way to a deeper key. -/
  | dotted
  /-- By its own header. -/
  | header
  /-- Written in braces. -/
  | braced
  deriving DecidableEq, Inhabited

/-- A TOML value. -/
inductive Toml where
  | str (s : String)
  | int (n : Int)
  | float (x : Float)
  | bool (b : Bool)
  | date
  | arr (items : List Toml)
  | table (origin : TableOrigin) (entries : List (String × Toml))
  /-- The tables of the headers `[[a]]`, the last one first. -/
  | tables (items : List (List (String × Toml)))
  deriving Inhabited

namespace Toml

/-- The entries of a table. -/
abbrev Entries := List (String × Toml)

/-- The entry of a name. -/
def lookup? (k : String) (es : Entries) : Option Toml := (es.find? (·.1 == k)).map (·.2)

/-- The entries with one added, or put in the place of the one of its name. -/
def put (k : String) (v : Toml) : Entries → Entries
  | [] => [(k, v)]
  | (k', v') :: rest => if k = k' then (k, v) :: rest else (k', v') :: put k v rest

/-- Changes the entries of the table at a header's path. Tables missing on the way are implied, and
of a list of tables the last one is meant. -/
def within (f : Entries → Option Entries) : List String → Entries → Option Entries
  | [], es => f es
  | k :: ks, es =>
    match lookup? k es with
    | none => (within f ks []).map fun sub => put k (.table .implied sub) es
    | some (.table .braced _) => none
    | some (.table origin sub) => (within f ks sub).map fun sub' => put k (.table origin sub') es
    | some (.tables (last :: before)) =>
      (within f ks last).map fun last' => put k (.tables (last' :: before)) es
    | some _ => none

/-- Adds an entry whose name is new. -/
def addNew? (k : String) (v : Toml) (es : Entries) : Option Entries :=
  match lookup? k es with
  | none => some (put k v es)
  | some _ => none

/-- Adds a value under a dotted key. All tables on the way are made by dotted keys. -/
def defineKey? (v : Toml) : List String → Entries → Option Entries
  | [], _ => none
  | [k], es => addNew? k v es
  | k :: ks, es =>
    match lookup? k es with
    | none => (defineKey? v ks []).map fun sub => put k (.table .dotted sub) es
    | some (.table .dotted sub) => (defineKey? v ks sub).map fun sub' => put k (.table .dotted sub') es
    | some (.table .implied sub) =>
      match ks with
      | [_] => none
      | _ => (defineKey? v ks sub).map fun sub' => put k (.table .implied sub') es
    | some (.tables (last :: before)) =>
      match ks with
      | [_] => none
      | _ => (defineKey? v ks last).map fun last' => put k (.tables (last' :: before)) es
    | some _ => none

/-- The header `[path]`: a table may have its own header once. -/
def openTable? (path : List String) (es : Entries) : Option Entries :=
  match path.getLast? with
  | none => none
  | some k =>
    within (fun parent =>
      match lookup? k parent with
      | none => some (put k (.table .header []) parent)
      | some (.table .implied sub) => some (put k (.table .header sub) parent)
      | some _ => none) path.dropLast es

/-- The header `[[path]]`: one more table in a list of tables. -/
def openItem? (path : List String) (es : Entries) : Option Entries :=
  match path.getLast? with
  | none => none
  | some k =>
    within (fun parent =>
      match lookup? k parent with
      | none => some (put k (.tables [[]]) parent)
      | some (.tables items) => some (put k (.tables ([] :: items)) parent)
      | some _ => none) path.dropLast es

mutual

/-- A value as JSON. A date has no counterpart and becomes null. -/
def toJson : Toml → Json
  | .str s => .str s
  | .int n => .int n
  | .float x => .float x
  | .bool b => .bool b
  | .date => .null
  | .arr items => .arr (itemsToJson items)
  | .table _ entries => Json.object (entriesToJson entries)
  | .tables items => .arr (tablesToJson items).reverse

def itemsToJson : List Toml → List Json
  | [] => []
  | v :: vs => toJson v :: itemsToJson vs

def entriesToJson : List (String × Toml) → List (String × Json)
  | [] => []
  | (k, v) :: rest => (k, toJson v) :: entriesToJson rest

def tablesToJson : List (List (String × Toml)) → List Json
  | [] => []
  | es :: rest => Json.object (entriesToJson es) :: tablesToJson rest

end

end Toml

end CodeAtlas
