import TypedClient.Json.Decode
import TypedClient.Document.OfDatum

/-! # Documents from JSON texts

    The outer parts of a document are read strictly, with a place for every
    problem; parameters and path entries are read as data first.
-/

namespace TypedClient

open Json

/-- Reads an entry of a list or table of parameters. -/
def ParameterEntry.ofLocated (value : Located) : Except Problem ParameterEntry := do
  -- The entry is read as data first, since it may be either of two things.
  let datum ← value.datum
  match ParameterEntry.ofDatum? datum with
  | some entry => return entry
  | none => throw (.unplaced (.noAlternative "ParameterOrRef"))

def Schema.ofLocated (value : Located) : Except Problem Schema := do
  let datum ← value.datum
  return (Schema.ofDatum? datum).getD {}

/-- Reads what a document says about itself. -/
def Info.ofLocated : Located → Except Problem Info :=
  Located.record "struct Info"
    [⟨"title", true, fun i v => do return { i with title := ← v.text }⟩,
     ⟨"description", false, fun i v => do return { i with description := ← v.orNull Located.text }⟩,
     ⟨"version", true, fun i v => do return { i with version := ← v.text }⟩] {}

/-- Reads the shared parts of a document. -/
def Components.ofLocated : Located → Except Problem Components :=
  Located.record "struct Components"
    [⟨"schemas", true, fun c v => do return { c with schemas := ← v.table Schema.ofLocated }⟩,
     ⟨"parameters", true, fun c v => do
        return { c with parameters := ← v.table ParameterEntry.ofLocated }⟩] {}

/-- A path item while its members are read: its parameters, and all other
    members as data. -/
structure PathItem.Draft where
  /-- The parameters, once they are given. -/
  parameters : Option (List ParameterEntry) := none
  /-- The other members so far, last first. -/
  others : List (String × Datum) := []

/-- Adds a member to a path item that is being read. -/
def PathItem.Draft.add (draft : Draft) (name : String) (afterName : Position) (value : Located) :
    Except Problem Draft :=
  if name = "parameters" then
    match draft.parameters with
    | some _ => .error (mismatchAt (.duplicateField name) afterName)
    | none => do
      let parameters ← value.list ParameterEntry.ofLocated
      return { draft with parameters := some parameters }
  else do
    let datum ← value.datum
    return { draft with others := (name, datum) :: draft.others }

/-- The path item of all members; `none` where an entry is no value at all. -/
def PathItem.Draft.finish? (draft : Draft) : Option PathItem := do
  let entries ← draft.others.reverse.foldlM (fun table entry => do
    let value ← PathEntry.ofDatum? entry.2
    return Table.insert entry.1 value table) []
  return { parameters := draft.parameters.getD [], entries }

/-- Reads the members of a path item. -/
def PathItem.ofMembers (draft : PathItem.Draft) : Members → Except Problem PathItem
  | .stop place =>
    match draft.finish? with
    | some item => .ok item
    | none => .error (mismatchAt (.noAlternative "PathEntry") place)
  | .member (.ok name) afterName value resume rest => do
    let draft ← placing resume (draft.add name afterName value)
    PathItem.ofMembers draft rest
  | .member (.error fault) _ _ _ _ => .error (.ofFault fault)
  | .broken whenRead _ => .error (.ofFault whenRead)

def PathItem.ofLocated (value : Located) : Except Problem PathItem :=
  match value with
  | .object _ depth members => do
    checkDepth depth
    PathItem.ofMembers {} members
  | _ => .error (value.unexpected "struct PathItem")

def Document.ofLocated : Located → Except Problem Document :=
  Located.record "struct Document"
    [⟨"openapi", false, fun d v => do return { d with openapi := ← v.orNull Located.text }⟩,
     ⟨"swagger", false, fun d v => do return { d with swagger := ← v.orNull Located.text }⟩,
     ⟨"info", true, fun d v => do return { d with info := ← Info.ofLocated v }⟩,
     ⟨"paths", true, fun d v => do return { d with paths := ← v.table PathItem.ofLocated }⟩,
     ⟨"components", false, fun d v => do
        return { d with components := ← v.orNull Components.ofLocated }⟩,
     ⟨"definitions", true, fun d v => do
        return { d with definitions := ← v.table Schema.ofLocated }⟩,
     ⟨"parameters", true, fun d v => do
        return { d with parameters := ← v.table ParameterEntry.ofLocated }⟩] {}

/-- Reads a document from a JSON text. -/
def Document.ofJsonText (text : String) : Except Json.Error Document :=
  (Source.read text).decode Document.ofLocated

/-- Reads a table of named schemas from a JSON text. -/
def Definitions.ofJsonText (text : String) : Except Json.Error Definitions :=
  (Source.read text).decode (Located.table Schema.ofLocated)

/-- Reads a schema from a JSON text. -/
def Schema.ofJsonText (text : String) : Except Json.Error Schema :=
  (Source.read text).decode Schema.ofLocated

/-- Reads a list of parameters from a JSON text. -/
def ParameterEntry.listOfJsonText (text : String) : Except Json.Error (List ParameterEntry) :=
  (Source.read text).decode (Located.list ParameterEntry.ofLocated)

end TypedClient
