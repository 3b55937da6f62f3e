import TypedClient.Client.Declaration
import TypedClient.Client.Endpoint
import TypedClient.Usage.Names

/-! # Clients

    Everything there is to know about a client before its code is written.
-/

namespace TypedClient

/-- A client of an API. -/
structure Client where
  /-- The title of the API. -/
  title : String
  description : Option String
  /-- The version of the API. -/
  version : String
  /-- Where the document came from. -/
  source : String
  definitions : Definitions
  /-- One declaration for each of them. -/
  declarations : List Declaration
  /-- One endpoint for each supported operation. -/
  endpoints : List Endpoint
  /-- The type names that the endpoints use. -/
  used : NameSet

end TypedClient
