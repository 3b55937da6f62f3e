/-! # Type expressions

    The types of the generated code, as trees.

    * **Wrappers**: a union or intersection of one member stands for that
      member, so the tests below look through it.
-/

namespace TypedClient

mutual

/-- A type. -/
inductive TypeExpr where
  | string
  | number
  | boolean
  /-- Unknown values: no schema is given at all. -/
  | unknown
  /-- Any value: a schema is given but says nothing of use. -/
  | any
  | stringLiteral (text : String)
  /-- One value that is no text, as it is written. -/
  | literal (text : String)
  | ref (name : String)
  | array (item : TypeExpr)
  | record (value : TypeExpr)
  | object (fields : List Field)
  /-- Values of one of several types. -/
  | union (members : List TypeExpr)
  /-- Values of all of several types. -/
  | intersection (members : List TypeExpr)

/-- A field of an object. -/
structure Field where
  name : String
  /-- The type of its value. -/
  type : TypeExpr
  /-- Whether it has to be given. -/
  required : Bool
  description : Option String

end

namespace TypeExpr

instance : Inhabited TypeExpr := ⟨.any⟩

/-- Whether a type is written with a `|` that no bracket encloses. -/
def isUnion : TypeExpr → Bool
  | .union [] => false
  | .union [only] => only.isUnion
  | .union (_ :: _ :: _) => true
  | _ => false

/-- Whether a type is written with a `|` or `&` that no bracket encloses. A
    union inside an intersection is always enclosed. -/
def isCompound : TypeExpr → Bool
  | .union [] => false
  | .union [only] => only.isCompound
  | .union (_ :: _ :: _) => true
  | .intersection [] => false
  | .intersection [only] => only.isCompound && !only.isUnion
  | .intersection (_ :: _ :: _) => true
  | _ => false

end TypeExpr

end TypedClient
