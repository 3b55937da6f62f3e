import TypedClient.Package.Basic
import TypedClient.Usage.Reach

/-! # Outlines of packages

    What a package will hold, as a value for readers and tools: its
    declarations and functions, and which type names they import, lack, and
    reach.
-/

namespace TypedClient

/-- Texts as a JSON value. -/
def textsJson (texts : List String) : Json :=
  .array (texts.map Json.string)

/-- A declaration in an outline. -/
def Declaration.outline (d : Declaration) : Json :=
  .object [("name", .string d.name.pascal), ("kind", .string d.kind)]

/-- An endpoint in an outline. -/
def Endpoint.outline (e : Endpoint) : Json :=
  .object
    [("name", .string e.name), ("method", .string e.method.upper), ("path", .string e.path),
     ("parameters", textsJson (e.arguments.map (·.name))),
     ("body", (e.body.map (fun b => Json.string b.name)).getD .null)]

/-- The outline of a client and its package. -/
def Client.outline (c : Client) (clientNamespace : String) (package : Package) : Json :=
  .object
    [("namespace", .string clientNamespace), ("source", .string c.source),
     ("info", .object [("title", .string c.title), ("version", .string c.version)]),
     ("schemas", .array (c.declarations.map Declaration.outline)),
     ("operations", .array (c.endpoints.map Endpoint.outline)),
     ("used_types", textsJson package.imported), ("skipped_types", textsJson package.skipped),
     ("reachable_types",
       textsJson ((NameSet.ofNames package.imported).reachable c.definitions))]

end TypedClient
