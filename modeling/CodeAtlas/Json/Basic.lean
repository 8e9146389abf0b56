/-!
# JSON values

* `Json`: a value. The members of an object are kept in the order of their names, each name once.
* `Json.object`: builds an object from members in any order; the last of two equal names wins.
* `Json.get?`, `Json.asBool?`, …: views of a value.
-/

namespace CodeAtlas

/-- A JSON value. Whole numbers are kept apart from numbers with a fraction or an exponent. -/
inductive Json where
  | null
  | bool (b : Bool)
  | int (n : Int)
  | float (x : Float)
  | str (s : String)
  | arr (items : List Json)
  | obj (members : List (String × Json))
  deriving Inhabited, BEq

namespace Json

/-- Puts a member at its place in a list ordered by name, in the place of one of the same name. -/
def insertMember (k : String) (v : Json) : List (String × Json) → List (String × Json)
  | [] => [(k, v)]
  | (k', v') :: rest =>
    if k < k' then (k, v) :: (k', v') :: rest
    else if k = k' then (k, v) :: rest
    else (k', v') :: insertMember k v rest

/-- The object with the given members; the last of two members of one name wins. -/
def object (members : List (String × Json)) : Json :=
  .obj (members.foldl (fun acc m => insertMember m.1 m.2 acc) [])

/-- The object without members. -/
def empty : Json := .obj []

/-- A whole number from a natural one. -/
def nat (n : Nat) : Json := .int n

/-- A value that may be absent. -/
def ofOption {α : Type} (f : α → Json) : Option α → Json
  | none => .null
  | some a => f a

/-- An array of encoded items. -/
def list {α : Type} (f : α → Json) (items : List α) : Json := .arr (items.map f)

/-- The member of an object with the given name. -/
def get? (j : Json) (k : String) : Option Json :=
  match j with
  | .obj members => (members.find? (·.1 == k)).map (·.2)
  | _ => none

/-- The value with a member replaced or added; only an object has members. -/
def set (j : Json) (k : String) (v : Json) : Json :=
  match j with
  | .obj members => .obj (insertMember k v members)
  | other => other

/-- The value as a truth value. -/
def asBool? : Json → Option Bool
  | .bool b => some b
  | _ => none

/-- The value as a text. -/
def asStr? : Json → Option String
  | .str s => some s
  | _ => none

/-- The value as a list. -/
def asArr? : Json → Option (List Json)
  | .arr items => some items
  | _ => none

/-- The value as an unsigned 64-bit number. -/
def asWord? : Json → Option Nat
  | .int n => if 0 ≤ n ∧ n < 0x10000000000000000 then some n.toNat else none
  | _ => none

/-- The value as a signed 64-bit number. -/
def asSigned? : Json → Option Int
  | .int n => if -0x8000000000000000 ≤ n ∧ n < 0x8000000000000000 then some n else none
  | _ => none

end Json

end CodeAtlas
