import TypedClient.Document.OfDatum
import TypedClient.Yaml.Decode

/-! # Documents from YAML texts

    The same shapes as in JSON, except that texts may be written as any
    scalars and that records are never written as lists.
-/

namespace TypedClient

open Yaml

/-- Reads an entry of a list or table of parameters. -/
def ParameterEntry.ofNode (node : Node) : Decoder ParameterEntry := do
  match ParameterEntry.ofDatum? (← node.anyDatum) with
  | some entry => return entry
  | none => throw (.unplaced (.noAlternative "ParameterOrRef"))

def Schema.ofNode (node : Node) : Decoder Schema := do
  return Schema.ofJson (← node.anyJson)

/-- Reads what a document says about itself. -/
def Info.ofNode : Node → Decoder Info :=
  Node.record "struct Info"
    [⟨"title", fun i n => do return { i with title := ← n.text "a string" }⟩,
     ⟨"description", fun i n => do
        return { i with description := ← n.orNull (Node.text "a string") }⟩,
     ⟨"version", fun i n => do return { i with version := ← n.text "a string" }⟩] {}

/-- Reads the shared parts of a document. -/
def Components.ofNode : Node → Decoder Components :=
  Node.record "struct Components"
    [⟨"schemas", fun c n => do return { c with schemas := ← n.table Schema.ofNode }⟩,
     ⟨"parameters", fun c n => do
        return { c with parameters := ← n.table ParameterEntry.ofNode }⟩] {}

/-- A path item while its entries are read. -/
structure PathItem.YamlDraft where
  /-- The parameters, once they are given. -/
  parameters : Option (List ParameterEntry) := none
  /-- The other entries so far, last first. -/
  others : List (String × Datum) := []

/-- Adds an entry to a path item that is being read. -/
def PathItem.YamlDraft.entries (draft : YamlDraft) : List (Node × Node) → Decoder YamlDraft
  | [] => return draft
  | (key, value) :: rest => do
    let name ← key.text "field identifier"
    if name = "parameters" then
      match draft.parameters with
      | some _ => throw (.unplaced (.duplicateField name))
      | none =>
        let parameters ← Decoder.within key (value.list ParameterEntry.ofNode)
        entries { draft with parameters := some parameters } rest
    else
      let datum ← Decoder.within key value.anyDatum
      entries { draft with others := (name, datum) :: draft.others } rest

/-- The path item of all entries; one that is no value at all is refused. -/
def PathItem.YamlDraft.finish (draft : YamlDraft) : Decoder PathItem := do
  let table ← draft.others.reverse.foldlM (fun table entry =>
    match PathEntry.ofDatum? entry.2 with
    | some value => return Table.insert entry.1 value table
    | none => throw (.unplaced (.noAlternative "PathEntry"))) []
  return { parameters := draft.parameters.getD [], entries := table }

def PathItem.ofNode (node : Node) : Decoder PathItem := do
  match ← node.follow with
  | .mapping mark _ _ entries =>
    Decoder.entering mark (do
      let draft ← PathItem.YamlDraft.entries {} entries
      draft.finish)
  | node => if node.isBlank then return {} else node.unexpected "struct PathItem"

def Document.ofNode : Node → Decoder Document :=
  Node.record "struct Document"
    [⟨"openapi", fun d n => do return { d with openapi := ← n.orNull (Node.text "a string") }⟩,
     ⟨"swagger", fun d n => do return { d with swagger := ← n.orNull (Node.text "a string") }⟩,
     ⟨"info", fun d n => do return { d with info := ← Info.ofNode n }⟩,
     ⟨"paths", fun d n => do return { d with paths := ← n.table PathItem.ofNode }⟩,
     ⟨"components", fun d n => do return { d with components := ← n.orNull Components.ofNode }⟩,
     ⟨"definitions", fun d n => do return { d with definitions := ← n.table Schema.ofNode }⟩,
     ⟨"parameters", fun d n => do
        return { d with parameters := ← n.table ParameterEntry.ofNode }⟩] {}

/-- Reads a document from a YAML text. -/
def Document.ofYamlText (text : String) : Except Yaml.Error Document :=
  Yaml.decode Document.ofNode text

end TypedClient
