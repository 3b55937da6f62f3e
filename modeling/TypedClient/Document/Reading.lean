import TypedClient.Document.OfJson
import TypedClient.Document.OfYaml

/-! # Reading documents

    A text is read in a given format, or in whichever it is: JSON first, then
    YAML. Where it is neither, the error is that of JSON.
-/

namespace TypedClient

/-- What is known about the format of a text. -/
inductive Format where
  | json
  | yaml
  | any
  deriving DecidableEq, Repr

/-- Why a text is no document. -/
inductive DocumentError where
  /-- What is wrong with it as JSON. -/
  | json (error : Json.Error)
  /-- What is wrong with it as YAML. -/
  | yaml (error : Yaml.Error)

namespace DocumentError

/-- The wording of the cause, without the format. -/
def cause? : DocumentError → Option String
  | .json error => some error.message
  | .yaml error => error.message?

/-- What a message starts with, by format. -/
def lead : DocumentError → String
  | .json _ => "failed to parse JSON: "
  | .yaml _ => "failed to parse YAML: "

/-- The wording of an error, where there is one. -/
def message? (e : DocumentError) : Option String :=
  e.cause?.map (fun cause => e.lead ++ cause)

end DocumentError

def Document.read (format : Format) (text : String) : Except DocumentError Document :=
  match format with
  | .json => (Document.ofJsonText text).mapError .json
  | .yaml => (Document.ofYamlText text).mapError .yaml
  | .any =>
    match Document.ofJsonText text with
    | .ok document => .ok document
    | .error error =>
      match Document.ofYamlText text with
      | .ok document => .ok document
      | .error _ => .error (.json error)

end TypedClient
