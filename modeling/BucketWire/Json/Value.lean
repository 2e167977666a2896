/-!
# JSON values

The values by which settings and checksum types are stored and passed on.

## Main definitions

* `Json` — JSON values; integers are exact
* `Json.member?` — the value of a key
* `Json.fields?` — the values of the fields of a record
* `Json.caseName?` — the name of an alternative
-/

namespace BucketWire

/-- A JSON value. -/
inductive Json where
  | null
  | bool (b : Bool)
  /-- A number that is written as an integer. -/
  | integer (n : Int)
  /-- Any other number, as it is written. -/
  | decimal (literal : String)
  | string (s : String)
  | array (items : List Json)
  /-- An object, whose keys are distinct. -/
  | object (members : List (String × Json))

namespace Json

/-- The value of `key` among the members of an object. -/
def member? (key : String) : List (String × Json) → Option Json
  | [] => none
  | (k, v) :: members => if key = k then some v else member? key members

/-- The values of the fields `names` of a record: from an object, which may have other keys too, or
from an array of exactly these values in this order. -/
def fields? (names : List String) : Json → Option (List Json)
  | .object members => names.mapM fun name => member? name members
  | .array items => if items.length = names.length then some items else none
  | _ => none

/-- The name of an alternative without content: a string, or an object that maps it to null. -/
def caseName? : Json → Option String
  | .string name => some name
  | .object [(name, .null)] => some name
  | _ => none

/-- A truth value. -/
def bool? : Json → Option Bool
  | .bool b => some b
  | _ => none

/-- An integer of 64 bits without sign. -/
def uint64? : Json → Option UInt64
  | .integer (.ofNat n) => if n < UInt64.size then some (UInt64.ofNat n) else none
  | _ => none

end Json

end BucketWire
