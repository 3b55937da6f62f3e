import TypedClient.Document.Basic
import TypedClient.Schema.Writing

/-! # Writing documents

    A document and its parts as JSON: fields in a fixed order, without those
    that say nothing.
-/

namespace TypedClient

/-- The members of a table. -/
def Table.toMembers {α : Type} (write : α → Json) (t : Table α) : List (String × Json) :=
  t.map (fun entry => (entry.1, write entry.2))

/-- The JSON value of a method. -/
def Method.toJson (m : Method) : Json :=
  .string m.lower

/-- The JSON value of a parameter. -/
def Parameter.toJson (p : Parameter) : Json :=
  .object
    ([("name", .string p.name), ("in", .string p.location.name)]
      ++ optionalMember "description" (p.description.map .string)
      ++ [("required", .bool p.required)]
      ++ optionalMember "schema" (p.schema.map Schema.toJson)
      ++ optionalMember "type" (p.kinds.map KindSet.toJson)
      ++ optionalMember "items" (p.items.map Schema.toJson)
      ++ listMember "enum" p.enumeration)

/-- The JSON value of an entry of a list or table of parameters. -/
def ParameterEntry.toJson : ParameterEntry → Json
  | .reference target => .object [("$ref", .string target)]
  | .inline p => p.toJson

/-- The JSON value of a payload in one of its formats. -/
def MediaType.toJson (m : MediaType) : Json :=
  .object (optionalMember "schema" (m.schema.map Schema.toJson)
    ++ optionalMember "example" m.sample)

/-- The JSON value of the body of a request. -/
def RequestBody.toJson (b : RequestBody) : Json :=
  .object
    (optionalMember "description" (b.description.map .string)
      ++ [("content", .object (b.content.toMembers MediaType.toJson)),
        ("required", .bool b.required)])

/-- The JSON value of a response. -/
def Response.toJson (r : Response) : Json :=
  .object
    ([("description", .string r.description)]
      ++ objectMember "content" (r.content.toMembers MediaType.toJson)
      ++ optionalMember "schema" (r.schema.map Schema.toJson))

/-- The JSON value of an operation. -/
def Operation.toJson (o : Operation) : Json :=
  .object
    (optionalMember "operationId" (o.operationId.map .string)
      ++ optionalMember "summary" (o.summary.map .string)
      ++ optionalMember "description" (o.description.map .string)
      ++ listMember "parameters" (o.parameters.map ParameterEntry.toJson)
      ++ optionalMember "requestBody" (o.requestBody.map RequestBody.toJson)
      ++ objectMember "responses" (o.responses.toMembers Response.toJson)
      ++ optionalMember "deprecated" (o.deprecated.map .bool))

/-- The JSON value of an entry of a path item. -/
def PathEntry.toJson : PathEntry → Json
  | .operation o => o.toJson
  | .other value => value

/-- The JSON value of a path item; its entries stand beside its parameters. -/
def PathItem.toJson (item : PathItem) : Json :=
  .object
    (listMember "parameters" (item.parameters.map ParameterEntry.toJson)
      ++ item.entries.toMembers PathEntry.toJson)

/-- The JSON value of what a document says about itself. -/
def Info.toJson (i : Info) : Json :=
  .object
    ([("title", .string i.title)]
      ++ optionalMember "description" (i.description.map .string)
      ++ [("version", .string i.version)])

/-- The JSON value of the shared parts. -/
def Components.toJson (c : Components) : Json :=
  .object
    (objectMember "schemas" (c.schemas.toMembers Schema.toJson)
      ++ objectMember "parameters" (c.parameters.toMembers ParameterEntry.toJson))

/-- The JSON value of a document. -/
def Document.toJson (d : Document) : Json :=
  .object
    (optionalMember "openapi" (d.openapi.map .string)
      ++ optionalMember "swagger" (d.swagger.map .string)
      ++ [("info", d.info.toJson)]
      ++ objectMember "paths" (d.paths.toMembers PathItem.toJson)
      ++ optionalMember "components" (d.components.map Components.toJson)
      ++ objectMember "definitions" (d.definitions.toMembers Schema.toJson)
      ++ objectMember "parameters" (d.parameters.toMembers ParameterEntry.toJson))

end TypedClient
