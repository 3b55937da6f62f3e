import TypedClient.Table
import TypedClient.Decimal.Text

/-! # JSON values

    The value tree of JSON, with integers apart from doubles: an integer keeps
    every digit, a double is written with as many digits as it needs.
-/

namespace TypedClient

/-- A number of a data format. -/
inductive Number where
  /-- An integer between `-2^63` and `2^64 - 1`. -/
  | int (value : Int)
  | float (value : Float)

/-- A JSON value. The members of an object have distinct names and keep the
    order in which they were first given. -/
inductive Json where
  | null
  | bool (value : Bool)
  | number (value : Number)
  | string (value : String)
  | array (items : List Json)
  | object (members : List (String × Json))

/-- The text of a number. -/
def Number.chars : Number → List Char
  | .int i => Decimal.intChars i
  | .float x => Decimal.dataText x

/-- A double as a value; what is not finite has no number and becomes null. -/
def Json.ofFloat (x : Float) : Json :=
  if x.isFinite then .number (.float x) else .null

namespace Json

instance : Inhabited Json := ⟨.null⟩

/-- A member of an object. -/
def member? (name : String) : Json → Option Json
  | .object members => Table.find? name members
  | _ => none

end Json

end TypedClient
