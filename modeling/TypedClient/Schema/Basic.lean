import TypedClient.Datum
import TypedClient.Name.Reference

/-! # Schemas

    A schema node of an API document. The two dialects of such documents share
    this one shape.

    * **References** are a field beside all others; where one is given it wins.
    * **Kinds**: the `type` of a schema is one kind or a list of kinds, of
      which the first that is not `null` drives everything else.
-/

namespace TypedClient

/-- The kind of value a schema asks for. -/
inductive Kind where
  | string
  | number
  | integer
  | boolean
  | array
  | object
  | null
  /-- A kind of another name. -/
  | other
  deriving DecidableEq, Repr

/-- The name of a kind. -/
def Kind.name : Kind → String
  | .string => "string"
  | .number => "number"
  | .integer => "integer"
  | .boolean => "boolean"
  | .array => "array"
  | .object => "object"
  | .null => "null"
  | .other => "other"

/-- The kind of a name. -/
def Kind.ofName : String → Kind
  | "string" => .string
  | "number" => .number
  | "integer" => .integer
  | "boolean" => .boolean
  | "array" => .array
  | "object" => .object
  | "null" => .null
  | _ => .other

/-- The kind of a number, in the order of the names. -/
def Kind.ofNumber : Nat → Kind
  | 0 => .string
  | 1 => .number
  | 2 => .integer
  | 3 => .boolean
  | 4 => .array
  | 5 => .object
  | 6 => .null
  | _ => .other

/-- What the `type` of a schema says. -/
inductive KindSet where
  | single (kind : Kind)
  | multiple (kinds : List Kind)
  deriving DecidableEq, Repr

/-- The kind that decides: the only one, or the first that is not `null`. -/
def KindSet.primary? : KindSet → Option Kind
  | .single kind => some kind
  | .multiple kinds => kinds.find? (fun kind => kind ≠ .null)

mutual

/-- A schema node. -/
structure Schema where
  /-- A reference to another schema. -/
  reference : Option String := none
  /-- The kinds of value it asks for. -/
  kinds : Option KindSet := none
  /-- A refinement of the kind, as `date-time`. -/
  format : Option String := none
  /-- A short name for readers. -/
  title : Option String := none
  /-- A longer text for readers. -/
  description : Option String := none
  /-- The declared properties, in order. -/
  properties : List (String × Schema) := []
  /-- The names of the properties that have to be given. -/
  required : List String := []
  /-- What may be given beside the declared properties. -/
  additional : Option Additional := none
  /-- What the items of a list have to be. -/
  items : Option Schema := none
  allOf : List Schema := []
  /-- Schemas of which one holds. -/
  oneOf : List Schema := []
  /-- Schemas of which at least one holds. -/
  anyOf : List Schema := []
  /-- The allowed values; none listed means all. -/
  enumeration : List Json := []
  sample : Option Json := none

/-- What may be given beside the declared properties. -/
inductive Additional where
  | flag (allowed : Bool)
  | schema (schema : Schema)

end

/-- The named schemas of a document. -/
abbrev Definitions := Table Schema

namespace Schema

instance : Inhabited Schema := ⟨{}⟩

def primary? (s : Schema) : Option Kind :=
  s.kinds.bind KindSet.primary?

/-- The name that the reference of a schema points at. -/
def target? (s : Schema) : Option String :=
  s.reference.map Name.referenceName

end Schema

end TypedClient
