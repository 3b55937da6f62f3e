import TypedClient.Document.Basic
import TypedClient.Schema.Reading

/-! # Parts of a document from data

    Parameters, path entries and what they hold are read from data of unknown
    shape: either all of a part fits, or the part as a whole does not.
-/

namespace TypedClient

def Parameter.ofDatum? (d : Datum) : Option Parameter := do
  let f ← d.fields? ["name", "in", "description", "required", "schema", "type", "items", "enum"]
  let name ← f.required "name" Datum.text?
  let location ← f.required "in" (Datum.alternative? Location.ofName Location.ofNumber)
  let description ← f.optional "description" Datum.text?
  let required ← f.defaulted "required" false Datum.bool?
  let schema ← f.optional "schema" Schema.ofDatum?
  let kinds ← f.optional "type" KindSet.ofDatum?
  let items ← f.optional "items" Schema.ofDatum?
  let enumeration ← f.defaulted "enum" [] (Datum.list? Datum.toJson?)
  return { name, location, description, required, schema, kinds, items, enumeration }

/-- Reads an entry of a list or table of parameters: a reference, or else a
    parameter. -/
def ParameterEntry.ofDatum? (d : Datum) : Option ParameterEntry :=
  -- A reference wins, whatever else stands beside it.
  let reference? := do
    let f ← d.fields? ["$ref"]
    f.required "$ref" Datum.text?
  match reference? with
  | some target => some (.reference target)
  | none => (Parameter.ofDatum? d).map .inline

/-- Reads a payload in one of its formats. -/
def MediaType.ofDatum? (d : Datum) : Option MediaType := do
  let f ← d.fields? ["schema", "example"]
  let schema ← f.optional "schema" Schema.ofDatum?
  let sample ← f.optional "example" Datum.toJson?
  return { schema, sample }

/-- Reads the body of a request. -/
def RequestBody.ofDatum? (d : Datum) : Option RequestBody := do
  let f ← d.fields? ["description", "content", "required"]
  let description ← f.optional "description" Datum.text?
  let content ← f.defaulted "content" [] (Datum.table? MediaType.ofDatum?)
  let required ← f.defaulted "required" false Datum.bool?
  return { description, content, required }

def Response.ofDatum? (d : Datum) : Option Response := do
  let f ← d.fields? ["description", "content", "schema"]
  let description ← f.defaulted "description" "" Datum.text?
  let content ← f.defaulted "content" [] (Datum.table? MediaType.ofDatum?)
  let schema ← f.optional "schema" Schema.ofDatum?
  return { description, content, schema }

def Operation.ofDatum? (d : Datum) : Option Operation := do
  let f ← d.fields? ["operationId", "summary", "description", "parameters", "requestBody",
    "responses", "deprecated"]
  let operationId ← f.optional "operationId" Datum.text?
  let summary ← f.optional "summary" Datum.text?
  let description ← f.optional "description" Datum.text?
  let parameters ← f.defaulted "parameters" [] (Datum.list? ParameterEntry.ofDatum?)
  let requestBody ← f.optional "requestBody" RequestBody.ofDatum?
  let responses ← f.defaulted "responses" [] (Datum.table? Response.ofDatum?)
  let deprecated ← f.optional "deprecated" Datum.bool?
  return { operationId, summary, description, parameters, requestBody, responses, deprecated }

/-- Reads an entry of a path item: an operation, or else any JSON value. -/
def PathEntry.ofDatum? (d : Datum) : Option PathEntry :=
  match Operation.ofDatum? d with
  | some read => some (.operation read)
  | none => d.toJson?.map .other

end TypedClient
