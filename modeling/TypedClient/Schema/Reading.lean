import TypedClient.Schema.Basic

/-! # Reading schemas

    Reading a schema never fails: a keyword of the wrong shape counts as not
    given, and a node that is no object is the empty schema.
-/

namespace TypedClient

/-- Reads a kind from a datum. -/
def Kind.ofDatum? : Datum → Option Kind :=
  Datum.alternative? Kind.ofName Kind.ofNumber

/-- Reads what a `type` says from a datum. -/
def KindSet.ofDatum? (d : Datum) : Option KindSet :=
  match Kind.ofDatum? d with
  | some kind => some (.single kind)
  | none => (Datum.list? Kind.ofDatum? d).map .multiple

/-- A text, where the value is one. -/
def Json.text? : Json → Option String
  | .string s => some s
  | _ => none

/-- The texts of a list; everything else in it is passed over. -/
def Json.textItems : Json → List String
  | .array items => items.filterMap Json.text?
  | _ => []

namespace Schema

mutual

def ofJson : Json → Schema
  | .object members => ofMembers members
  | _ => {}

/-- Reads the keywords of a node. -/
def ofMembers : List (String × Json) → Schema
  | [] => {}
  | (keyword, value) :: rest =>
    let s := ofMembers rest
    match keyword with
    | "$ref" => { s with reference := value.text? }
    | "type" => { s with kinds := KindSet.ofDatum? (.ofJson value) }
    | "format" => { s with format := value.text? }
    | "title" => { s with title := value.text? }
    | "description" => { s with description := value.text? }
    | "properties" => { s with properties := namedOf value }
    | "required" => { s with required := value.textItems }
    | "additionalProperties" => { s with additional := some (additionalOf value) }
    | "items" => { s with items := some (ofJson value) }
    | "allOf" => { s with allOf := listOf value }
    | "oneOf" => { s with oneOf := listOf value }
    | "anyOf" => { s with anyOf := listOf value }
    | "enum" => { s with enumeration := valuesOf value }
    | "example" => { s with sample := some value }
    | _ => s

/-- Reads a collection of named schemas. -/
def namedOf : Json → List (String × Schema)
  | .object members => namedOfMembers members
  | _ => []

/-- Reads the members of a collection of named schemas. -/
def namedOfMembers : List (String × Json) → List (String × Schema)
  | [] => []
  | (name, value) :: rest => (name, ofJson value) :: namedOfMembers rest

/-- Reads a list of schemas. -/
def listOf : Json → List Schema
  | .array items => listOfItems items
  | _ => []

/-- Reads the items of a list of schemas. -/
def listOfItems : List Json → List Schema
  | [] => []
  | item :: rest => ofJson item :: listOfItems rest

/-- Reads what may be given beside the declared properties. -/
def additionalOf : Json → Additional
  | .bool allowed => .flag allowed
  | .null => .schema {}
  | .number _ => .schema {}
  | .string _ => .schema {}
  | .array _ => .schema {}
  | .object members => .schema (ofMembers members)

/-- Reads a list of values. -/
def valuesOf : Json → List Json
  | .array items => items
  | _ => []

end

/-- Reads a schema node from a datum, if it is a JSON value. -/
def ofDatum? (d : Datum) : Option Schema :=
  d.toJson?.map ofJson

end Schema

end TypedClient
