import TypedClient.Decimal.Text
import TypedClient.Text.Printable

/-! # Mismatches

    Why a well-formed text does not fit the shape it is read as. The causes
    are the same for every data format; formats only differ in how they call
    a null and how they write a double, which a `Wording` says.
-/

namespace TypedClient

/-- What stands in the text where something else is called for. -/
inductive Found where
  | null
  | bool (value : Bool)
  | integer (value : Int)
  | float (value : Float)
  | string (value : String)
  | sequence
  /-- A collection of named values. -/
  | map
  /-- A value under a tag of its own. -/
  | tagged
  /-- An integer too large for the usual widths, with the name of its width. -/
  | wide (value : Int) (width : String)

/-- How a format calls what it finds. -/
structure Wording where
  /-- The word for a null. -/
  null : String
  /-- The text of a double. -/
  float : Float → List Char

/-- The words for what stands in the text. -/
def Found.describe (w : Wording) : Found → String
  | .null => w.null
  | .bool true => "boolean `true`"
  | .bool false => "boolean `false`"
  | .integer i => "integer `" ++ String.ofList (Decimal.intChars i) ++ "`"
  | .float x => "floating point `" ++ String.ofList (w.float x) ++ "`"
  | .string s => "string " ++ Text.quoted s
  | .sequence => "sequence"
  | .map => "map"
  | .tagged => "enum"
  | .wide i width => "integer `" ++ String.ofList (Decimal.intChars i) ++ "` as " ++ width

/-- Why a value does not fit. -/
inductive Mismatch where
  /-- A value of another kind is called for. -/
  | wrongType (found : Found) (expected : String)
  /-- A value of the right kind but none of the allowed ones. -/
  | wrongValue (found : Found) (expected : String)
  /-- A field is given twice. -/
  | duplicateField (name : String)
  /-- A list has too few items for the fields it stands for. -/
  | wrongLength (count : Nat) (expected : String)
  /-- None of the alternatives of a union fits. -/
  | noAlternative (union : String)
  /-- A tagged value where any plain data may stand. -/
  | taggedContent
  /-- An integer that no number of a value can hold. -/
  | integerOutOfRange

/-- The wording of a mismatch. -/
def Mismatch.message (w : Wording) : Mismatch → String
  | .wrongType found expected => "invalid type: " ++ found.describe w ++ ", expected " ++ expected
  | .wrongValue found expected => "invalid value: " ++ found.describe w ++ ", expected " ++ expected
  | .duplicateField name => "duplicate field `" ++ name ++ "`"
  | .wrongLength count expected =>
    "invalid length " ++ String.ofList (Decimal.natChars count) ++ ", expected " ++ expected
  | .noAlternative union => "data did not match any variant of untagged enum " ++ union
  | .taggedContent => "untagged and internally tagged enums do not support enum input"
  | .integerOutOfRange => "JSON number out of range"

end TypedClient
