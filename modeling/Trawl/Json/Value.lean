/-!
# JSON values

The values that records and structured views are made of. Fields of an object keep their order.
Numbers are counts, so they are natural numbers.
-/

namespace Trawl

/-- A JSON value. -/
inductive Json where
  | null
  | bool (value : Bool)
  | number (value : Nat)
  | text (value : String)
  | list (items : List Json)
  | object (fields : List (String × Json))
  deriving Repr, Inhabited

namespace Json

/-- The value of a field of an object. -/
def field? (name : String) : Json → Option Json
  | .object fields => (fields.find? (·.1 = name)).map (·.2)
  | _ => none

/-- The value that a path of field names leads to. -/
def at? : (path : List String) → Json → Option Json
  | [], j => some j
  | name :: path, j => (j.field? name).bind (at? path)

end Json

end Trawl
