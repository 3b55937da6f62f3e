import TypedClient.Schema.Basic

/-! # API documents

    A description of an HTTP API in either of its two dialects. Named schemas
    live in `definitions` (the older dialect) or `components.schemas` (the
    newer one), parameters to share in `parameters` or `components.parameters`.
-/

namespace TypedClient

/-- The methods that functions are generated for. -/
inductive Method where
  | get
  | post
  | put
  | delete
  | patch
  deriving DecidableEq, Repr

/-- The name of a method in small letters. -/
def Method.lower : Method → String
  | .get => "get"
  | .post => "post"
  | .put => "put"
  | .delete => "delete"
  | .patch => "patch"

/-- The name of a method in capitals. -/
def Method.upper : Method → String
  | .get => "GET"
  | .post => "POST"
  | .put => "PUT"
  | .delete => "DELETE"
  | .patch => "PATCH"

/-- The method of a key, whatever the case of its letters. -/
def Method.ofKey? (key : String) : Option Method :=
  [.get, .post, .put, .delete, .patch].find?
    (fun method => method.lower.toList = key.toList.map Char.toLower)

/-- Where a parameter goes in a request. -/
inductive Location where
  /-- Behind the question mark of the URL. -/
  | query
  | header
  /-- In the path of the URL. -/
  | path
  | cookie
  /-- The body, in the older dialect. -/
  | body
  /-- A field of a form, in the older dialect. -/
  | formData
  | other
  deriving DecidableEq, Repr

/-- The name of a location. -/
def Location.name : Location → String
  | .query => "query"
  | .header => "header"
  | .path => "path"
  | .cookie => "cookie"
  | .body => "body"
  | .formData => "formData"
  | .other => "other"

/-- The location of a name. -/
def Location.ofName : String → Location
  | "query" => .query
  | "header" => .header
  | "path" => .path
  | "cookie" => .cookie
  | "body" => .body
  | "formData" => .formData
  | _ => .other

/-- The location of a number, in the order of the names. -/
def Location.ofNumber : Nat → Location
  | 0 => .query
  | 1 => .header
  | 2 => .path
  | 3 => .cookie
  | 4 => .body
  | 5 => .formData
  | _ => .other

/-- A parameter of an operation. The older dialect says its type directly, the
    newer one in a schema. -/
structure Parameter where
  name : String
  location : Location
  description : Option String := none
  /-- Whether it has to be given. -/
  required : Bool := false
  /-- The schema of its value. -/
  schema : Option Schema := none
  /-- The kinds of its value, where there is no schema. -/
  kinds : Option KindSet := none
  /-- The schema of its items, where there is no schema. -/
  items : Option Schema := none
  /-- The allowed values, where there is no schema. -/
  enumeration : List Json := []

/-- The schema of the value of a parameter; without any word on its type it is
    a text. -/
def Parameter.effectiveSchema (p : Parameter) : Schema :=
  match p.schema with
  | some schema => schema
  | none =>
    { kinds := some (p.kinds.getD (.single .string))
      items := p.items
      enumeration := p.enumeration }

/-- An entry of a list or table of parameters. -/
inductive ParameterEntry where
  /-- A reference to a shared parameter. -/
  | reference (reference : String)
  | inline (parameter : Parameter)

/-- A payload in one of its formats. -/
structure MediaType where
  schema : Option Schema := none
  sample : Option Json := none

/-- The one format that schemas are taken from. -/
def jsonMediaType : String :=
  "application/json"

/-- The schema of the JSON payload among the formats of a payload. -/
def jsonSchema? (content : Table MediaType) : Option Schema :=
  (content.find? jsonMediaType).bind (·.schema)

/-- The body of a request. -/
structure RequestBody where
  description : Option String := none
  /-- The formats it may have. -/
  content : Table MediaType := []
  /-- Whether it has to be given. -/
  required : Bool := false

/-- A response. The older dialect gives its schema directly, the newer one
    under the format. -/
structure Response where
  description : String := ""
  /-- The formats it may have. -/
  content : Table MediaType := []
  schema : Option Schema := none

/-- The schema of the JSON payload of a response. -/
def Response.jsonSchema? (r : Response) : Option Schema :=
  (TypedClient.jsonSchema? r.content).or r.schema

/-- An operation of the API. -/
structure Operation where
  /-- Its name, if it has one. -/
  operationId : Option String := none
  summary : Option String := none
  description : Option String := none
  parameters : List ParameterEntry := []
  requestBody : Option RequestBody := none
  responses : Table Response := []
  /-- Whether it should no longer be used. -/
  deprecated : Option Bool := none

/-- The statuses whose payload an operation returns, by precedence. -/
def successStatuses : List String :=
  ["200", "201", "204"]

/-- The response of the first of those statuses that is there at all. -/
def Operation.success? (o : Operation) : Option Response :=
  successStatuses.findSome? (fun status => o.responses.find? status)

/-- An entry of a path item: an operation, or whatever else stands there. -/
inductive PathEntry where
  | operation (operation : Operation)
  | other (value : Json)

/-- A path of the API with what can be done there. -/
structure PathItem where
  /-- The parameters that all its operations share. -/
  parameters : List ParameterEntry := []
  entries : Table PathEntry := []

/-- What the document says about itself. -/
structure Info where
  /-- The title of the API. -/
  title : String := ""
  description : Option String := none
  /-- The version of the API. -/
  version : String := ""

/-- What the parts of a document share, in the newer dialect. -/
structure Components where
  schemas : Table Schema := []
  parameters : Table ParameterEntry := []

/-- An API document in either dialect. -/
structure Document where
  /-- The version of the newer dialect. -/
  openapi : Option String := none
  /-- The version of the older dialect. -/
  swagger : Option String := none
  /-- What the document says about itself. -/
  info : Info := {}
  /-- The paths of the API. -/
  paths : Table PathItem := []
  /-- Shared parts, in the newer dialect. -/
  components : Option Components := none
  /-- Named schemas, in the older dialect. -/
  definitions : Table Schema := []
  /-- Named parameters, in the older dialect. -/
  parameters : Table ParameterEntry := []

namespace Document

/-- All named schemas: those of the newer dialect first, and with precedence. -/
def allDefinitions (d : Document) : Definitions :=
  Table.addNew ((d.components.map (·.schemas)).getD []) d.definitions

/-- The version of whichever dialect the document declares. -/
def version (d : Document) : String :=
  ((d.openapi).or d.swagger).getD "unknown"

end Document

/-- The warning about an operation that has to do without its content. -/
def unreadableWarning (key : String) : String :=
  "operation `" ++ key ++ "` could not be read, using defaults"

/-- The supported operations of a path item, in order, with what there is to
    warn of. An entry under a method's key that is no operation counts as an
    empty one. -/
def PathItem.operations (item : PathItem) : List (Method × Operation) × List String :=
  let found := item.entries.filterMap (fun entry =>
    (Method.ofKey? entry.1).map (fun method =>
      match entry.2 with
      | .operation operation => ((method, operation), [])
      | .other _ => ((method, {}), [unreadableWarning entry.1])))
  (found.map (·.1), found.flatMap (·.2))

end TypedClient
