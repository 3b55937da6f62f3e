import TypedClient.Schema.Basic

/-! # Writing schemas

    A schema as JSON: its keywords in a fixed order, without those that say
    nothing.
-/

namespace TypedClient

/-- A member that is there only if its value is. -/
def optionalMember (name : String) : Option Json → List (String × Json)
  | none => []
  | some value => [(name, value)]

/-- A member that is there only if its list has items. -/
def listMember (name : String) : List Json → List (String × Json)
  | [] => []
  | items => [(name, .array items)]

/-- A member that is there only if its object has members. -/
def objectMember (name : String) : List (String × Json) → List (String × Json)
  | [] => []
  | members => [(name, .object members)]

/-- The JSON value of a kind. -/
def Kind.toJson (kind : Kind) : Json :=
  .string kind.name

/-- The JSON value of what a `type` says. -/
def KindSet.toJson : KindSet → Json
  | .single kind => kind.toJson
  | .multiple kinds => .array (kinds.map Kind.toJson)

namespace Schema

mutual

/-- The JSON value of a schema. -/
def toJson : Schema → Json
  | { reference, kinds, format, title, description, properties, required, additional, items,
      allOf, oneOf, anyOf, enumeration, sample } =>
    .object
      (optionalMember "$ref" (reference.map .string)
        ++ optionalMember "type" (kinds.map KindSet.toJson)
        ++ optionalMember "format" (format.map .string)
        ++ optionalMember "title" (title.map .string)
        ++ optionalMember "description" (description.map .string)
        ++ objectMember "properties" (namedToJson properties)
        ++ listMember "required" (required.map .string)
        ++ optionalMember "additionalProperties" (additionalToJson additional)
        ++ optionalMember "items" (itemsToJson items)
        ++ listMember "allOf" (listToJson allOf)
        ++ listMember "oneOf" (listToJson oneOf)
        ++ listMember "anyOf" (listToJson anyOf)
        ++ listMember "enum" enumeration
        ++ optionalMember "example" sample)

/-- The members of a collection of named schemas. -/
def namedToJson : List (String × Schema) → List (String × Json)
  | [] => []
  | (name, schema) :: rest => (name, schema.toJson) :: namedToJson rest

/-- The JSON values of a list of schemas. -/
def listToJson : List Schema → List Json
  | [] => []
  | schema :: rest => schema.toJson :: listToJson rest

/-- The JSON value of what may be given beside the declared properties. -/
def additionalToJson : Option Additional → Option Json
  | none => none
  | some (.flag allowed) => some (.bool allowed)
  | some (.schema schema) => some schema.toJson

/-- The JSON value of the schema of items. -/
def itemsToJson : Option Schema → Option Json
  | none => none
  | some schema => some schema.toJson

end

end Schema

end TypedClient
