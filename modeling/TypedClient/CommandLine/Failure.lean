import TypedClient.CommandLine.Surroundings
import TypedClient.Document.Reading
import TypedClient.Files.Error
import TypedClient.Url.Basic
import TypedClient.Yaml.Error

/-! # Failures

    Why a command could not be carried out: what was to be done, and the causes
    behind it, the nearest first.

    * **A single cause** stands under the message; several are numbered.
    * **Lines** of a cause are indented like its first one.
-/

namespace TypedClient

/-- Why a configuration file could not be used. -/
inductive ConfigError where
  /-- It could not be read. -/
  | unread (path : String) (error : FileError)
  | unfit (path : String) (error : Yaml.Error)

namespace ConfigError

/-- The wording of an error; a text that is no YAML is refused without a word. -/
def message? : ConfigError → Option String
  | .unread path error => some ("failed to read config " ++ path ++ ": " ++ error.message)
  | .unfit path error =>
    error.message?.map (fun words => "failed to parse config " ++ path ++ ": " ++ words)

end ConfigError

namespace CommandLine

/-- Why a document could not be fetched. -/
inductive FetchError where
  /-- No request could be sent at all. -/
  | unconnected (message : String)
  | url (error : UrlError)
  /-- Its URL has a scheme that nothing is requested with. -/
  | scheme (url : Url)
  /-- The request went wrong, or the body of the reply did. -/
  | request (error : RequestError)
  /-- The reply does not bring a document. -/
  | status (number : Nat) (phrase : String)

namespace FetchError

/-- The wording of what is wrong with the request for a URL. -/
def ofRequest (url : String) (error : RequestError) : String × List String :=
  ("request to " ++ url ++ " failed: " ++ error.message, error.message :: error.causes)

/-- The wording of an error, given the text of the URL, and of the causes behind it. -/
def words (url : String) : FetchError → String × List String
  | .unconnected message => ("failed to build HTTP client: " ++ message, [])
  | .url error => ofRequest url ⟨"builder error", [error.message]⟩
  | .scheme target =>
    ofRequest url ⟨"builder error for url (" ++ target.text ++ ")", ["URL scheme is not allowed"]⟩
  | .request error => ofRequest url error
  | .status number phrase =>
    (url ++ " returned HTTP " ++ String.ofList (Decimal.natChars number) ++ " " ++ phrase, [])

end FetchError

/-- Why a command could not be carried out. -/
inductive Failure where
  /-- The configuration file that was asked for is not there. -/
  | configMissing (path : String)
  /-- The configuration file is of no use. -/
  | config (error : ConfigError)
  /-- The document could not be read. -/
  | documentUnread (path : String) (error : FileError)
  /-- The document could not be fetched. -/
  | documentUnfetched (url : String) (error : FetchError)
  /-- The text that was fetched is no document. -/
  | fetchedUnfit (url : String) (error : DocumentError)
  /-- The text is no document. -/
  | document (error : DocumentError)
  /-- The folder of the package could not be made. -/
  | packageFolder (path : String) (error : FileError)
  /-- A folder inside the package could not be made. -/
  | folder (path : String) (error : FileError)
  /-- A file could not be written. -/
  | file (path : String) (error : FileError)
  /-- There is a configuration file already. -/
  | configExists (path : String)

namespace Failure

/-- What is said of a text that is no YAML at all. -/
def unloadable : String :=
  "not a YAML document"

/-- The wording of a failure and of the causes behind it. -/
def words : Failure → String × List String
  | .configMissing path => ("config file " ++ path ++ " not found", [])
  | .config (.unread path error) =>
    ("failed to read config " ++ path ++ ": " ++ error.message, [error.message])
  | .config (.unfit path error) =>
    let cause := error.message?.getD unloadable
    ("failed to parse config " ++ path ++ ": " ++ cause, [cause])
  | .documentUnread path error => ("failed to read " ++ path, [error.message])
  | .documentUnfetched url error => error.words url
  | .fetchedUnfit url error =>
    let cause := error.cause?.getD unloadable
    ("failed to parse document from " ++ url, [error.lead ++ cause, cause])
  | .document error =>
    let cause := error.cause?.getD unloadable
    (error.lead ++ cause, [cause])
  | .packageFolder path error => ("failed to create output directory " ++ path, [error.message])
  | .folder path error => ("failed to create directory " ++ path, [error.message])
  | .file path error => ("failed to write " ++ path, [error.message])
  | .configExists path => (path ++ " already exists. Use --force to overwrite.", [])

/-- A text whose further lines are indented. -/
def indented (lead : String) (text : String) : String :=
  String.intercalate ("\n" ++ lead)
    ((Text.cutAt '\n' text.toList).map String.ofList)

/-- Causes with numbers, the first of which is `n`. -/
def numbered (n : Nat) : List String → String
  | [] => ""
  | cause :: rest =>
    let number := Decimal.natChars n
    "\n" ++ String.ofList (List.replicate (5 - number.length) ' ' ++ number) ++ ": "
      ++ indented "       " cause ++ numbered (n + 1) rest

/-- The causes under a message. -/
def causesText : List String → String
  | [] => ""
  | [cause] => "\n\nCaused by:\n    " ++ indented "    " cause
  | causes => "\n\nCaused by:" ++ numbered 0 causes

/-- What is reported of a failure. -/
def report (f : Failure) : String :=
  "Error: " ++ f.words.1 ++ causesText f.words.2 ++ "\n"

end Failure

end CommandLine

end TypedClient
