import TypedClient.Config.Basic

/-! # The first configuration file

    The text that a new configuration file starts with. It sets every field to
    the value that the field has anyway.
-/

namespace TypedClient

/-- The text of a new configuration file. -/
def Config.template : String :=
  String.intercalate "\n"
    ["# apigen configuration",
     "api_url: https://api.sprtverse.com",
     "swagger_path: /docs?api-docs.json",
     "# input: openapi.json       # read a local document instead of fetching",
     "output_dir: api/generated",
     "namespace: ApiClient",
     "format: true                # run prettier over the output",
     "",
     "client:",
     "  http_client_import: ../axios",
     "  http_client_name: axios",
     "  types_module: interfaces",
     "  no_jsdoc: false",
     ""]

end TypedClient
