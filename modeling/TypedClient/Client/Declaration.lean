import TypedClient.TypeExpr.Resolution

/-! # Declarations

    One declaration for each named schema. Only declared properties give it a
    shape; a schema without any is open, whatever else it says.
-/

namespace TypedClient

/-- The declaration of a named type. -/
structure Declaration where
  /-- The name in the document and the type name. -/
  name : Name.Normalized
  description : Option String
  /-- The fields; `none` where any key may be given. -/
  fields : Option (List Field)

/-- The word for what kind of declaration it is. -/
def Declaration.kind (d : Declaration) : String :=
  if d.fields.isSome then "interface" else "open"

/-- The declaration of a named schema. -/
def Schema.declaration (name : String) (s : Schema) : Declaration :=
  { name := Name.normalize name
    description := s.description.or s.title
    fields :=
      if s.properties.isEmpty then none else some (resolveFields s.required s.properties) }

/-- The declarations of all definitions, in order. -/
def Definitions.declarations (definitions : Definitions) : List Declaration :=
  definitions.map (fun entry => entry.2.declaration entry.1)

end TypedClient
