import TypedClient.Client.OfDocument
import TypedClient.CommandLine.Arguments
import TypedClient.CommandLine.Failure
import TypedClient.CommandLine.Surroundings
import TypedClient.Config.OfYaml
import TypedClient.Config.Template
import TypedClient.Package.Outline
import TypedClient.Json.Printer
import TypedClient.Yaml.Printer

/-! # Running commands

    What the commands do with their surroundings.

    * **Configurations** are made of the flags, the environment and the file,
      in this order of priority.
    * **Documents** are read from a local file, by the extension of its name,
      or else fetched, in whichever format they come. Only what is a URL of the
      right scheme is requested.
    * **Packages** are written file by file; what has been written stays when a
      later file fails. Whatever comes of the formatter, the package is there.
-/

namespace TypedClient.CommandLine

/-- What the flags say about the configuration. -/
def SourceFlags.layer (f : SourceFlags) : ConfigLayer :=
  { apiUrl := f.apiUrl, documentPath := f.documentPath, input := f.input }

/-- What the further flags of writing a package say about the configuration. -/
def writingLayer (outputFolder : Option String) (unformatted : Bool) : ConfigLayer :=
  { outputFolder, formatted := if unformatted then some false else none }

section

variable {m : Type → Type} [Monad m] [Surroundings m]

open Surroundings

/-- Goes on with a value, or fails. -/
def orFail {ε α : Type} (failure : ε → Failure) (act : m (Except ε α)) : ExceptT Failure m α :=
  ExceptT.mk (do return (← act).mapError failure)

/-- Reads a configuration file, if it is there. -/
def loadConfig (path : String) : m (Except ConfigError (Option ConfigLayer)) := do
  if ← pathExists path then
    match ← readText path with
    | .error e => return .error (.unread path e)
    | .ok text =>
      match ConfigLayer.ofYamlText text with
      | .error e => return .error (.unfit path e)
      | .ok layer => return .ok (some layer)
  else return .ok none

/-- The variables that a configuration depends on. -/
def environmentLayer : m ConfigLayer := do
  let apiUrl ← lookUp "API_URL"
  let documentPath ← lookUp "SWAGGER_PATH"
  let outputFolder ← lookUp "OUTPUT_DIR"
  let clientNamespace ← lookUp "API_NAMESPACE"
  return .ofEnvironment (fun
    | "API_URL" => apiUrl
    | "SWAGGER_PATH" => documentPath
    | "OUTPUT_DIR" => outputFolder
    | "API_NAMESPACE" => clientNamespace
    | _ => none)

/-- The layer of the configuration file: the one that was asked for, or the
    usual one, which need not be there. -/
def fileLayer (source : SourceFlags) : ExceptT Failure m ConfigLayer := do
  match source.config with
  | some path =>
    match ← orFail .config (loadConfig path) with
    | some layer => return layer
    | none => throw (.configMissing path)
  -- Nobody asked for the usual file, so it may be missing.
  | none => return (← orFail .config (loadConfig Config.fileName)).getD {}

/-- The configuration of a command, with the flags of its own on top. -/
def configure (source : SourceFlags) (own : ConfigLayer) : ExceptT Failure m Config := do
  let file ← fileLayer source
  let environment ← environmentLayer (m := m)
  return .ofLayers [own, source.layer, environment, file]

/-- The text that is found at a URL. -/
def fetch (text : String) : m (Except FetchError String) := do
  match ← connect with
  | .error message => return .error (.unconnected message)
  | .ok () =>
    match Url.read text with
    | .error e => return .error (.url e)
    | .ok url =>
      if url.isRequestable then
        match ← request url with
        | .error e => return .error (.request e)
        | .ok reply =>
          if reply.isSuccess then return reply.body.mapError .request
          else return .error (.status reply.status reply.phrase)
      else return .error (.scheme url)

/-- The format that the extension of a path stands for. -/
def formatOf (path : String) : Format :=
  match PathText.extension? path with
  | some "yaml" => .yaml
  | some "yml" => .yaml
  | _ => .json

/-- The document that a configuration asks for. -/
def loadDocument (config : Config) : ExceptT Failure m Document := do
  match config.input with
  | some path =>
    let text ← orFail (.documentUnread path) (readText (m := m) path)
    match Document.read (formatOf path) text with
    | .ok document => return document
    | .error e => throw (.document e)
  | none =>
    let url := config.documentUrl
    tell (m := m) ("Fetching " ++ url ++ "\n")
    let body ← orFail (.documentUnfetched url) (fetch (m := m) url)
    match Document.read .any body with
    | .ok document => return document
    | .error e => throw (.fetchedUnfit url e)

/-- The client that a configuration asks for. -/
def loadClient (config : Config) : ExceptT Failure m Client := do
  return ((← loadDocument config).client config.source).value

/-- Writes a file of a package. -/
def writeFile (folder : String) (file : GeneratedFile) : ExceptT Failure m Unit := do
  let path := PathText.join folder file.path
  match PathText.parent? path with
  | some parent => orFail (.folder parent) (makeFolders (m := m) parent)
  | none => pure ()
  orFail (.file path) (writeText (m := m) path file.content)
  tell (m := m) ("  wrote " ++ path ++ "\n")

/-- Writes files into a folder, which is made first. -/
def writeFiles (folder : String) (files : List GeneratedFile) : ExceptT Failure m Unit := do
  orFail (.packageFolder folder) (makeFolders (m := m) folder)
  files.forM (writeFile folder)

/-- What the formatter is told to do with files, by their paths in the folder. -/
def formatterArguments (files : List GeneratedFile) : List String :=
  ["prettier", "--write", "--single-quote", "--tab-width", "2"] ++ files.map (·.path)

/-- Runs the formatter over files of a folder, and tells how that went. -/
def formatFiles (folder : String) (files : List GeneratedFile) : m Unit := do
  match ← runProgram "npx" (formatterArguments files) folder with
  | some true => tell "  formatted with prettier\n"
  | some false =>
    tell
      ("  warning: prettier formatting had issues (non-zero exit), output may need manual "
        ++ "formatting\n")
  | none =>
    tell
      ("  note: prettier not found, run \x60npx prettier --write --single-quote .\x60 in "
        ++ folder ++ " to format\n")

/-- A number in words for the user. -/
def count {α : Type} (l : List α) : String :=
  String.ofList (Decimal.natChars l.length)

def writePackage (config : Config) : ExceptT Failure m Unit := do
  let client ← loadClient config
  let folder := config.outputFolder
  tell (m := m) ("Generating client → " ++ folder ++ "\n")
  -- Nothing is written before the whole package is known.
  let package := (client.package config.client).value
  writeFiles folder package.files
  if config.formatted then formatFiles (m := m) folder package.files
  tell (m := m)
    ("Generated " ++ count package.files ++ " files in " ++ folder ++ " (" ++ count package.imported
      ++ " types imported, " ++ count client.endpoints ++ " operations)\n")

/-- Prints an outline of a package. -/
def printOutline (config : Config) (format : OutlineFormat) : ExceptT Failure m Unit := do
  let client ← loadClient config
  let outline := client.outline config.clientNamespace (client.package config.client).value
  match format with
  | .yaml => answer (m := m) (Yaml.print outline)
  | .json => answer (m := m) (outline.pretty ++ "\n")

def writeConfig (force : Bool) : ExceptT Failure m Unit := do
  let path := Config.fileName
  if (← pathExists (m := m) path) && !force then throw (.configExists path)
  orFail (.file path) (writeText (m := m) path Config.template)
  tell (m := m) ("Created " ++ path ++ "\n")

def Command.run : Command → ExceptT Failure m Unit
  | .generate source outputFolder unformatted => do
    writePackage (← configure source (writingLayer outputFolder unformatted))
  | .inspect source format => do
    printOutline (← configure source {}) format
  | .init force => writeConfig force
  | .completions _ => pure ()

/-- What is answered instead of carrying out a command, and the exit code. -/
def halted : Halt → m UInt8
  | .version => do
    answer "apigen 0.3.0\n"
    return 0
  | .help => do
    answer "Usage: apigen <generate|inspect|init|completions|help> [OPTIONS]\n"
    return 0
  | .misuse => do
    tell "Usage: apigen <generate|inspect|init|completions|help> [OPTIONS]\n"
    return 2

/-- Does what a command line asks for, and gives the exit code. -/
def run (arguments : List String) : m UInt8 := do
  match Command.ofArguments arguments with
  | .error halt => halted halt
  | .ok command =>
    match ← command.run.run with
    | .ok () => return 0
    | .error failure =>
      tell failure.report
      return 1

end

/-- Does what a command line asks for in a session. -/
def Session.run (s : Session) (arguments : List String) : UInt8 × Session :=
  (CommandLine.run (m := StateM Session) arguments).run s

end TypedClient.CommandLine
