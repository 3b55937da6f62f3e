import TypedClient.Config.Basic

/-! # Layers of a configuration

    A layer says something about some of the fields of a configuration. A
    configuration is made of layers:

    * **Priority**: of the layers that say something about a field, the first
      one counts.
    * **Silence**: a field that no layer speaks of has its own value.
    * **The code of the package** is layered field by field as well.
-/

namespace TypedClient

/-- What a layer says about the code of the package. -/
structure PackageLayer where
  /-- The module that the HTTP client is imported from. -/
  clientModule : Option String := none
  /-- The name that the HTTP client is imported under. -/
  clientName : Option String := none
  /-- The module that the declarations go to. -/
  typesModule : Option String := none
  /-- Whether comments are left out. -/
  withoutComments : Option Bool := none
  deriving DecidableEq, Repr

/-- What a layer says about a configuration. -/
structure ConfigLayer where
  /-- The base URL of the API. -/
  apiUrl : Option String := none
  /-- What follows the base URL. -/
  documentPath : Option String := none
  input : Option String := none
  /-- The folder that the package goes to. -/
  outputFolder : Option String := none
  /-- A name for the client as a whole. -/
  clientNamespace : Option String := none
  /-- Whether the files are to be formatted. -/
  formatted : Option Bool := none
  /-- What it says about the code of the package. -/
  client : PackageLayer := {}
  deriving DecidableEq, Repr

/-- The options with a layer on top. -/
def PackageOptions.under (o : PackageOptions) (layer : PackageLayer) : PackageOptions :=
  { clientModule := layer.clientModule.getD o.clientModule
    clientName := layer.clientName.getD o.clientName
    typesModule := layer.typesModule.getD o.typesModule
    withoutComments := layer.withoutComments.getD o.withoutComments }

/-- A configuration with a layer on top. -/
def Config.under (c : Config) (layer : ConfigLayer) : Config :=
  { apiUrl := layer.apiUrl.getD c.apiUrl
    documentPath := layer.documentPath.getD c.documentPath
    input := layer.input.or c.input
    outputFolder := layer.outputFolder.getD c.outputFolder
    clientNamespace := layer.clientNamespace.getD c.clientNamespace
    formatted := layer.formatted.getD c.formatted
    client := c.client.under layer.client }

/-- The configuration of layers, the topmost first. -/
def Config.ofLayers (layers : List ConfigLayer) : Config :=
  layers.foldr (fun layer c => c.under layer) {}

/-- What the environment says; an empty variable says nothing. -/
def ConfigLayer.ofEnvironment (lookUp : String → Option String) : ConfigLayer :=
  let given (name : String) : Option String := (lookUp name).filter (fun value => !value.isEmpty)
  { apiUrl := given "API_URL"
    documentPath := given "SWAGGER_PATH"
    outputFolder := given "OUTPUT_DIR"
    clientNamespace := given "API_NAMESPACE" }

end TypedClient
