import TypedClient.TypeExpr.Basic
import TypedClient.Schema.Basic
import TypedClient.Json.Printer
import TypedClient.Name.TypeName

/-! # Types of schemas

    The type that a schema asks for. Every schema has one: where nothing of use
    is said it is `any`, where there is no schema at all `unknown`.

    * **References** become names and are never looked up, so schemas that
      refer to themselves are no trouble.
    * **Precedence**: a reference, `oneOf`, `anyOf`, `allOf`, the kind, the
      allowed values, the properties.
-/

namespace TypedClient

namespace Schema

/-- The text of an allowed value inside a literal: texts as they are, all else
    as JSON. -/
def literalText : Json → String
  | .string s => s
  | value => value.compact

/-- The type of one allowed value: texts stay texts. -/
def bareLiteral : Json → TypeExpr
  | .string s => .stringLiteral s
  | value => .literal value.compact

/-- Texts, or the allowed ones of them. -/
def stringType : List Json → TypeExpr
  | [] => .string
  | value :: values =>
    .union ((value :: values).map (fun value => .stringLiteral (literalText value)))

/-- The name of the type that a reference points at. -/
def refType (reference : String) : TypeExpr :=
  .ref (Name.typeName (Name.referenceName reference))

/-- The reference branches of an `allOf`, as types. -/
def bases (branches : List Schema) : List TypeExpr :=
  branches.filterMap (fun branch => branch.reference.map refType)

/-- Whether a branch of an `allOf` adds properties of its own. -/
def addsProperties (branch : Schema) : Bool :=
  branch.reference.isNone && !branch.properties.isEmpty

/-- The names that the branches of an `allOf` with properties of their own ask for. -/
def branchRequired (branches : List Schema) : List String :=
  (branches.filter addsProperties).flatMap (·.required)

/-- A field before it is known whether it has to be given. -/
abbrev Draft := TypeExpr × Option String

/-- The type of an object without declared properties. -/
def recordOf : Option TypeExpr → TypeExpr
  | none => .record .any
  | some value => .record value

/-- The type of an `allOf`, if its branches give any: base types, and one
    object of all properties. -/
def merged? (bases : List TypeExpr) (fields : List Field) : Option TypeExpr :=
  match bases, fields with
  | [], [] => none
  | [], _ :: _ => some (.object fields)
  | [base], [] => some base
  | bases, [] => some (.intersection bases)
  | bases, _ :: _ => some (.intersection (bases ++ [.object fields]))

/-- What is known of a schema once its parts have types. -/
structure Parts where
  /-- The types of the `oneOf` branches. -/
  oneOf : List TypeExpr
  /-- The types of the `anyOf` branches. -/
  anyOf : List TypeExpr
  /-- The type of the `allOf` branches. -/
  allOf : Option TypeExpr
  /-- The type of the items. -/
  items : TypeExpr
  fields : List Field
  /-- The type of what may be given beside them. -/
  additional : Option TypeExpr

/-- The type by the allowed values or the properties, where the kind decides
    nothing. -/
def looseType (s : Schema) (parts : Parts) : TypeExpr :=
  match s.enumeration with
  | value :: values =>
    -- Without a kind the allowed values count as texts.
    if s.kinds.isNone then stringType (value :: values)
    else .union ((value :: values).map bareLiteral)
  | [] =>
    match parts.fields with
    | field :: fields => .object (field :: fields)
    | [] => if s.primary? = some .object then recordOf parts.additional else .any

/-- The type of a schema from the types of its parts. -/
def assembleType (s : Schema) (parts : Parts) : TypeExpr :=
  match s.reference with
  | some reference => refType reference
  | none =>
    match parts.oneOf, parts.anyOf, parts.allOf with
    | branch :: branches, _, _ => .union (branch :: branches)
    | [], branch :: branches, _ => .union (branch :: branches)
    | [], [], some type => type
    | [], [], none =>
      match s.primary? with
      | some .string => stringType s.enumeration
      | some .number => .number
      | some .integer => .number
      | some .boolean => .boolean
      | some .array => .array parts.items
      | _ => s.looseType parts

mutual

/-- The type that a schema asks for. -/
def resolve : Schema → TypeExpr
  | s@{ properties, required, additional, items, allOf, oneOf, anyOf, .. } =>
    s.assembleType
      { oneOf := resolveList oneOf
        anyOf := resolveList anyOf
        -- A field is required if any of the branches with properties asks for it.
        allOf := merged? (bases allOf)
          ((branchDrafts [] allOf).map (fun draft =>
            ⟨draft.1, draft.2.1, (branchRequired allOf).contains draft.1, draft.2.2⟩))
        items := resolveItems items
        fields := resolveFields required properties
        additional := resolveAdditional additional }

/-- The types of a list of schemas. -/
def resolveList : List Schema → List TypeExpr
  | [] => []
  | schema :: rest => schema.resolve :: resolveList rest

/-- The type of the items of a list. -/
def resolveItems : Option Schema → TypeExpr
  | none => .unknown
  | some schema => schema.resolve

/-- The type of what may be given beside the declared properties. -/
def resolveAdditional : Option Additional → Option TypeExpr
  | none => none
  | some (.flag _) => none
  | some (.schema schema) => some schema.resolve

/-- The fields of declared properties. -/
def resolveFields (required : List String) : List (String × Schema) → List Field
  | [] => []
  | (name, schema) :: rest =>
    { name
      type := schema.resolve
      required := required.contains name
      description := schema.description } :: resolveFields required rest

/-- Collects the properties of the branches of an `allOf` without reference; a
    repeated property keeps its place and takes the later meaning. -/
def branchDrafts (collected : Table Draft) : List Schema → Table Draft
  | [] => collected
  | { reference := some _, .. } :: rest => branchDrafts collected rest
  | { reference := none, properties, .. } :: rest =>
    branchDrafts (propertyDrafts collected properties) rest

/-- Adds properties to the collected ones. -/
def propertyDrafts (collected : Table Draft) : List (String × Schema) → Table Draft
  | [] => collected
  | (name, schema) :: rest =>
    propertyDrafts (collected.insert name (schema.resolve, schema.description)) rest

end

/-- The type of a schema that may be missing. -/
def resolve? : Option Schema → TypeExpr
  | none => .unknown
  | some schema => schema.resolve

end Schema

end TypedClient
