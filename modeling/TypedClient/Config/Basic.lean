import TypedClient.Json.Value
import TypedClient.Package.Options

/-! # Configurations

    What one run of the generator goes by: where the document is, where the
    package goes, and how its code is written.
-/

namespace TypedClient

/-- The configuration of a run. Each field has a value of its own where nothing
    else is said. -/
structure Config where
  /-- The base URL of the API that serves the document. -/
  apiUrl : String := "https://api.sprtverse.com"
  /-- What follows the base URL in the URL of the document. -/
  documentPath : String := "/docs?api-docs.json"
  /-- A local document, which is read instead of fetching one. -/
  input : Option String := none
  /-- The folder that the package goes to. -/
  outputFolder : String := "api/generated"
  /-- A name for the client as a whole. -/
  clientNamespace : String := "ApiClient"
  /-- Whether the files are to be formatted. -/
  formatted : Bool := true
  /-- The choices about the code of the package. -/
  client : PackageOptions := {}
  deriving DecidableEq, Repr

namespace Config

/-- The name of the file that a configuration is kept in. -/
def fileName : String :=
  ".apigen.yaml"

/-- The URL of the document. -/
def documentUrl (c : Config) : String :=
  c.apiUrl ++ c.documentPath

/-- Where the document comes from, as the generated files say it. -/
def source (c : Config) : String :=
  c.input.getD c.documentUrl

end Config

/-- The options as a JSON value. -/
def PackageOptions.toJson (o : PackageOptions) : Json :=
  .object
    [("http_client_import", .string o.clientModule), ("http_client_name", .string o.clientName),
     ("types_module", .string o.typesModule), ("no_jsdoc", .bool o.withoutComments)]

/-- A configuration as a JSON value. -/
def Config.toJson (c : Config) : Json :=
  .object
    [("api_url", .string c.apiUrl), ("swagger_path", .string c.documentPath),
     ("input", (c.input.map Json.string).getD .null), ("output_dir", .string c.outputFolder),
     ("namespace", .string c.clientNamespace), ("format", .bool c.formatted),
     ("client", c.client.toJson)]

end TypedClient
