import TypedClient.Proofs.SchemaPlaces
import TypedClient.Schema.Writing

/-! # Schemas that are written and read again

    Reading a schema drops what has the wrong shape, and writing leaves out what says
    nothing. A schema that is written is read as the same schema, so that reading,
    writing and reading again settles after the first time.

    * **Keywords**: a node says of a keyword what the first member of that name says,
      and what it says by default if there is none.
    * **Members** of a written node have names of their own, so each keyword is found
      where it was put, and left out only where the default says the same.
    * **Shapes**: what is read from a shape of its own, as a list of kinds or a truth
      value, is written in that shape.
-/

namespace TypedClient

/-! ### Members -/

section Members

variable {name : String}

theorem Table.find?_cons_self {α : Type} (key : String) (value : α) (t : Table α) :
    Table.find? key ((key, value) :: t) = some value :=
  if_pos rfl

theorem Table.find?_cons_of_ne {α : Type} {key other : String} {value : α} {t : Table α}
    (h : other ≠ key) : Table.find? key ((other, value) :: t) = Table.find? key t :=
  if_neg h

theorem Table.find?_append {α : Type} (key : String) (t u : Table α) :
    Table.find? key (t ++ u) = (Table.find? key t).or (Table.find? key u) := by
  induction t with
  | nil => rfl
  | cons entry r ih =>
    obtain ⟨k, v⟩ := entry
    by_cases hk : k = key <;> simp [Table.find?, hk, ih]

theorem find?_optionalMember (key : String) (value : Option Json) :
    Table.find? key (optionalMember name value) = if name = key then value else none := by
  cases value <;> simp [optionalMember, Table.find?]

theorem find?_listMember (key : String) (items : List Json) :
    Table.find? key (listMember name items)
      = if name = key then (if items = [] then none else some (.array items)) else none := by
  cases items <;> simp [listMember, Table.find?]

theorem find?_objectMember (key : String) (members : List (String × Json)) :
    Table.find? key (objectMember name members)
      = if name = key then (if members = [] then none else some (.object members)) else none := by
  cases members <;> simp [objectMember, Table.find?]

end Members

namespace Schema

/-- **Keywords**: a node says what the first member of each name says. -/
theorem ofMembers_eq (members : List (String × Json)) :
    ofMembers members =
      { reference := (Table.find? "$ref" members).bind Json.text?
        kinds := (Table.find? "type" members).bind (fun v => KindSet.ofDatum? (.ofJson v))
        format := (Table.find? "format" members).bind Json.text?
        title := (Table.find? "title" members).bind Json.text?
        description := (Table.find? "description" members).bind Json.text?
        properties := ((Table.find? "properties" members).map namedOf).getD []
        required := ((Table.find? "required" members).map Json.textItems).getD []
        additional := (Table.find? "additionalProperties" members).map additionalOf
        items := (Table.find? "items" members).map ofJson
        allOf := ((Table.find? "allOf" members).map listOf).getD []
        oneOf := ((Table.find? "oneOf" members).map listOf).getD []
        anyOf := ((Table.find? "anyOf" members).map listOf).getD []
        enumeration := ((Table.find? "enum" members).map valuesOf).getD []
        sample := Table.find? "example" members } := by
  induction members with
  | nil => rfl
  | cons member rest ih =>
    obtain ⟨keyword, value⟩ := member
    rw [ofMembers_cons, ih]
    unfold withKeyword
    split
    case h_15 _ href htype hformat htitle hdescription hproperties hrequired hadditional hitems
        hallOf honeOf hanyOf henum hexample =>
      -- A name of no keyword is passed over by each look-up.
      rw [Table.find?_cons_of_ne href, Table.find?_cons_of_ne htype,
        Table.find?_cons_of_ne hformat, Table.find?_cons_of_ne htitle,
        Table.find?_cons_of_ne hdescription, Table.find?_cons_of_ne hproperties,
        Table.find?_cons_of_ne hrequired, Table.find?_cons_of_ne hadditional,
        Table.find?_cons_of_ne hitems, Table.find?_cons_of_ne hallOf,
        Table.find?_cons_of_ne honeOf, Table.find?_cons_of_ne hanyOf,
        Table.find?_cons_of_ne henum, Table.find?_cons_of_ne hexample]
    all_goals
      simp only [Table.find?_cons_self, Table.find?_cons_of_ne, ne_eq, String.reduceEq,
        not_false_eq_true, Option.bind_some, Option.map_some, Option.getD_some]

end Schema

/-! ### Shapes -/

/-- What may be left out when it is empty is read as empty then. -/
theorem getD_map_unlessEmpty {α β : Type} {read : Json → List β} (wrap : List α → Json)
    (hnil : read (wrap []) = []) (items : List α) :
    ((if items = [] then none else some (wrap items)).map read).getD [] = read (wrap items) := by
  cases items with
  | nil => exact hnil.symm
  | cons => rfl

theorem Json.bind_text?_map (text : Option String) :
    (text.map Json.string).bind Json.text? = text := by
  cases text <;> rfl

theorem Json.textItems_map (texts : List String) :
    Json.textItems (.array (texts.map Json.string)) = texts := by
  rw [textItems, List.filterMap_map]
  exact List.filterMap_some

theorem Kind.ofName_name (kind : Kind) : Kind.ofName kind.name = kind := by
  cases kind <;> rfl

theorem Kind.ofDatum?_toJson (kind : Kind) : Kind.ofDatum? (.ofJson kind.toJson) = some kind :=
  congrArg some kind.ofName_name

theorem Datum.itemsOfJson_eq_map (items : List Json) :
    itemsOfJson items = items.map ofJson := by
  induction items with
  | nil => rfl
  | cons item rest ih => rw [itemsOfJson, ih, List.map_cons]

theorem KindSet.ofDatum?_toJson (kinds : KindSet) :
    KindSet.ofDatum? (.ofJson kinds.toJson) = some kinds := by
  cases kinds with
  | single kind => rw [toJson, ofDatum?, Kind.ofDatum?_toJson]
  | multiple kinds =>
    -- A list is no name of a kind, so it is read kind by kind.
    show ((Datum.itemsOfJson (kinds.map Kind.toJson)).mapM Kind.ofDatum?).map KindSet.multiple = _
    have hread : (kinds.map (fun kind => Datum.ofJson kind.toJson)).mapM Kind.ofDatum?
        = some kinds := by
      induction kinds with
      | nil => rfl
      | cons kind rest ih =>
        rw [List.map_cons, List.mapM_cons, Kind.ofDatum?_toJson, ih]
        rfl
    rw [Datum.itemsOfJson_eq_map, List.map_map]
    exact congrArg (Option.map KindSet.multiple) hread

namespace Schema

/-! ### Round trips -/

mutual

/-- **Writing and reading**: a schema that is written is read as itself. -/
theorem ofJson_toJson : ∀ s : Schema, ofJson s.toJson = s
  | { reference, kinds, format, title, description, properties, required, additional, items,
      allOf, oneOf, anyOf, enumeration, sample } => by
    have hproperties := namedOfMembers_namedToJson properties
    have hadditional := map_additionalToJson additional
    have hitems := map_itemsToJson items
    have hallOf := listOfItems_listToJson allOf
    have honeOf := listOfItems_listToJson oneOf
    have hanyOf := listOfItems_listToJson anyOf
    rw [toJson, ofJson, ofMembers_eq]
    -- Each keyword is looked up among members of other names.
    simp only [Table.find?_append, find?_optionalMember, find?_listMember, find?_objectMember,
      String.reduceEq, if_true, if_false, Option.or_none, Option.none_or]
    have hkinds : (kinds.map KindSet.toJson).bind (fun v => KindSet.ofDatum? (.ofJson v))
        = kinds := by
      cases kinds with
      | none => rfl
      | some kinds => exact kinds.ofDatum?_toJson
    have hnamed : namedOf (.object (namedToJson properties)) = properties := by
      rw [namedOf, hproperties]
    have hlist : ∀ schemas, listOfItems (listToJson schemas) = schemas →
        listOf (.array (listToJson schemas)) = schemas := by
      intro schemas hschemas
      rw [listOf, hschemas]
    rw [Json.bind_text?_map, Json.bind_text?_map, Json.bind_text?_map, Json.bind_text?_map, hkinds,
      getD_map_unlessEmpty .object rfl, hnamed, getD_map_unlessEmpty .array rfl,
      Json.textItems_map, hadditional, hitems, getD_map_unlessEmpty .array rfl, hlist allOf hallOf,
      getD_map_unlessEmpty .array rfl, hlist oneOf honeOf, getD_map_unlessEmpty .array rfl,
      hlist anyOf hanyOf, getD_map_unlessEmpty .array rfl, valuesOf]

/-- A collection of named schemas is read as itself. -/
theorem namedOfMembers_namedToJson :
    ∀ schemas : List (String × Schema), namedOfMembers (namedToJson schemas) = schemas
  | [] => rfl
  | (name, schema) :: rest => by
    rw [namedToJson, namedOfMembers, schema.ofJson_toJson, namedOfMembers_namedToJson rest]

/-- A list of schemas is read as itself. -/
theorem listOfItems_listToJson : ∀ schemas : List Schema, listOfItems (listToJson schemas) = schemas
  | [] => rfl
  | schema :: rest => by
    rw [listToJson, listOfItems, schema.ofJson_toJson, listOfItems_listToJson rest]

theorem map_additionalToJson :
    ∀ additional : Option Additional, (additionalToJson additional).map additionalOf = additional
  | none => rfl
  | some (.flag allowed) => rfl
  | some (.schema schema) => by
    have hschema := schema.ofJson_toJson
    rw [additionalToJson, Option.map_some]
    cases schema
    rw [toJson, ofJson] at hschema
    rw [toJson, additionalOf, hschema]

theorem map_itemsToJson : ∀ items : Option Schema, (itemsToJson items).map ofJson = items
  | none => rfl
  | some schema => by rw [itemsToJson, Option.map_some, schema.ofJson_toJson]

end

/-- **Reading settles**: what any JSON value is read as is read again from what is
    written for it, keyword by keyword and at every depth. What is written tells two
    values apart exactly if they are read as different schemas. -/
theorem reading_settles (value : Json) :
    ofJson (ofJson value).toJson = ofJson value
      ∧ ∀ other : Json,
          (ofJson other).toJson = (ofJson value).toJson ↔ ofJson other = ofJson value := by
  refine ⟨ofJson_toJson (ofJson value), fun other => ⟨fun hwritten => ?_, congrArg toJson⟩⟩
  calc ofJson other = ofJson (ofJson other).toJson := (ofJson_toJson _).symm
    _ = ofJson (ofJson value).toJson := congrArg ofJson hwritten
    _ = ofJson value := ofJson_toJson _

-- A list of kinds with one of another name, keywords that say something by being there,
-- and one of the wrong shape.
example :
    ofJson (.object [("type", .array [.string "null", .string "file"]), ("items", .null),
        ("additionalProperties", .array []), ("enum", .bool true), ("example", .null)])
      = { kinds := some (.multiple [.null, .other]), items := some {},
          additional := some (.schema {}), sample := some .null } := by
  rfl

end Schema

end TypedClient
