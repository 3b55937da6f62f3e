import TypedClient.Usage.Names

/-! # Types that a schema mentions

    Every reference at any depth of a schema that has its target in the
    definitions table, as type name. References are not followed, so schemas
    that refer to themselves are no trouble.
-/

namespace TypedClient.Schema

mutual

/-- The names behind all references at any depth, in reading order. -/
def references : Schema → List String
  | { reference, properties, additional, items, allOf, oneOf, anyOf, .. } =>
    (reference.map Name.referenceName).toList
      ++ itemsReferences items
      ++ namedReferences properties
      ++ additionalReferences additional
      ++ listReferences allOf
      ++ listReferences oneOf
      ++ listReferences anyOf

/-- The names behind the references of the schema of items. -/
def itemsReferences : Option Schema → List String
  | none => []
  | some schema => schema.references

/-- The names behind the references of named schemas. -/
def namedReferences : List (String × Schema) → List String
  | [] => []
  | (_, schema) :: rest => schema.references ++ namedReferences rest

/-- The names behind the references of what may be given beside properties. -/
def additionalReferences : Option Additional → List String
  | none => []
  | some (.flag _) => []
  | some (.schema schema) => schema.references

/-- The names behind the references of a list of schemas. -/
def listReferences : List Schema → List String
  | [] => []
  | schema :: rest => schema.references ++ listReferences rest

end

/-- The declared types that a schema mentions, in the order of their first
    mention. -/
def mentions (s : Schema) (definitions : Definitions) : NameSet :=
  NameSet.ofNames
    ((s.references.filter (fun name => definitions.contains name)).map Name.typeName)

end TypedClient.Schema
