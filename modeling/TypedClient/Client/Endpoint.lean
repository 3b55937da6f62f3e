import TypedClient.TypeExpr.Basic
import TypedClient.Document.Basic

/-! # Endpoints

    An operation of the document once everything about it is settled: what one
    generated function needs to know.
-/

namespace TypedClient

/-- Where an argument goes. -/
inductive Place where
  /-- Into the path of the URL. -/
  | path
  /-- Behind the question mark of the URL. -/
  | query
  deriving DecidableEq, Repr

/-- An argument of a function that goes into the URL. -/
structure Argument where
  /-- Its identifier in the generated code. -/
  name : String
  /-- Its name in the document. -/
  key : String
  place : Place
  type : TypeExpr
  /-- Whether it has to be given. -/
  required : Bool
  /-- Whether its key is repeated for each item of a list. -/
  isArray : Bool
  description : Option String

/-- The argument that becomes the body of a request. -/
structure Body where
  /-- Its identifier in the generated code. -/
  name : String
  type : TypeExpr
  description : Option String

/-- What one generated function does. -/
structure Endpoint where
  /-- The name of the function. -/
  name : String
  /-- The method of the request. -/
  method : Method
  /-- The path of the URL, with its tokens. -/
  path : String
  summary : Option String
  description : Option String
  /-- Whether it should no longer be used. -/
  deprecated : Bool
  /-- The arguments for the URL: those for the path first. -/
  arguments : List Argument
  /-- The argument for the body. -/
  body : Option Body
  /-- The type of what it returns. -/
  returns : TypeExpr

/-- The arguments for the path. -/
def Endpoint.pathArguments (e : Endpoint) : List Argument :=
  e.arguments.filter (fun a => a.place = .path)

/-- The arguments for the query. -/
def Endpoint.queryArguments (e : Endpoint) : List Argument :=
  e.arguments.filter (fun a => a.place = .query)

end TypedClient
