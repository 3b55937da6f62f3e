import TypedClient.Client.Basic
import TypedClient.Client.Warned
import TypedClient.Package.Function
import TypedClient.Package.Interface
import TypedClient.Package.Options
import TypedClient.Usage.Scan

/-! # Packages

    The generated code of a client, in three files: the declarations, the
    functions, and one that exports both.

    * **Imports** are the declared names among those that the endpoints use
      and those found in the text of the functions; the others are skipped
      with a warning.
-/

namespace TypedClient

/-- A generated file. -/
structure GeneratedFile where
  /-- Its path inside the package. -/
  path : String
  content : String

/-- The generated files, and which types the functions import. -/
structure Package where
  /-- The files, in the order in which they are written. -/
  files : List GeneratedFile
  /-- The declared names that are imported. -/
  imported : List String
  /-- The names that nothing declares. -/
  skipped : List String

def Client.interfacesFile (c : Client) (options : PackageOptions) : String :=
  finished (Comment.header c.source ++ ['\n']
    ++ Piece.concat options.withoutComments (c.declarations.flatMap Declaration.pieces))

/-- The text of the functions. -/
def Client.functions (c : Client) (options : PackageOptions) : List Char :=
  Piece.concat options.withoutComments (Endpoint.pieces options.clientName c.endpoints)

/-- The import of declared names; none at all without names. -/
def importTypes (typesModule : String) : List String → List Char
  | [] => []
  | name :: names =>
    "import type \x7b\n  ".toList
      ++ List.intercalate ",\n  ".toList ((name :: names).map String.toList)
      ++ "\n\x7d from './".toList ++ typesModule.toList ++ "';\n".toList

/-- The functions behind an empty line; nothing at all without functions. -/
def functionsSection (functions : List Char) : List Char :=
  match Text.trimEnd functions with
  | [] => []
  | c :: r => '\n' :: c :: r ++ ['\n']

/-- The file of functions, given the imported names and the text of the
    functions. -/
def Client.apiFile (c : Client) (options : PackageOptions) (imported : List String) : String :=
  finished (Comment.header c.source ++ "\n\nimport ".toList ++ options.clientName.toList
    ++ " from '".toList ++ options.clientModule.toList ++ "';\n".toList
    ++ importTypes options.typesModule imported
    ++ functionsSection (c.functions options))

/-- The file that exports the two others. -/
def Client.indexFile (c : Client) (options : PackageOptions) : String :=
  finished (Comment.header c.source ++ "\n\nexport * from './".toList
    ++ options.typesModule.toList ++ "';\nexport * from './api';\n".toList)

/-- The names that the functions use: the declared ones, and the others. -/
def Client.imports (c : Client) (options : PackageOptions) : List String × List String :=
  (c.used.merge (Scan.mentions (String.ofList (c.functions options)) c.definitions)).partition
    c.definitions

/-- The warning about names that nothing declares. -/
def skippedWarnings : List String → List String
  | [] => []
  | name :: names =>
    ["skipped undeclared types in imports: " ++ String.intercalate ", " (name :: names)]

/-- The package of a client. -/
def Client.package (c : Client) (options : PackageOptions) : Warned Package :=
  let (imported, skipped) := c.imports options
  ⟨{ files :=
       [⟨options.typesModule ++ ".ts", c.interfacesFile options⟩,
        ⟨"api.ts", c.apiFile options imported⟩,
        ⟨"index.ts", c.indexFile options⟩]
     imported, skipped },
   skippedWarnings skipped⟩

end TypedClient
