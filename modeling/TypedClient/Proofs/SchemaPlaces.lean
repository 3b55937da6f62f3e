import TypedClient.Json.Printer
import TypedClient.Proofs.DocumentChanges

/-! # Places of schemas

    A schema node may be replaced by anything. The document is accepted as
    before, and is the same but for that schema.

    * **Places** name every schema of a document: the named ones, the branches
      below them, and those of parameters, bodies and responses.
    * **Putting** a value at a place changes the schema there, and nothing else:
      an operation stays an operation, and what is none stays the value it is.
    * **Leniency carries**: a schema is read from any value, and so each reader
      above it follows the change, up to the whole text.
-/

namespace TypedClient

open Json

/-! ### Places inside schemas -/

/-- A place of a schema inside a schema. -/
inductive Schema.SchemaPlace where
  | here
  | property (name : String) (inside : SchemaPlace)
  | items (inside : SchemaPlace)
  | additional (inside : SchemaPlace)
  /-- A branch of `allOf`. -/
  | allOf (index : Nat) (inside : SchemaPlace)
  /-- A branch of `oneOf`. -/
  | oneOf (index : Nat) (inside : SchemaPlace)
  /-- A branch of `anyOf`. -/
  | anyOf (index : Nat) (inside : SchemaPlace)

namespace Schema

/-- Where a place is in the text of a schema. -/
def SchemaPlace.steps : SchemaPlace → List Step
  | .here => []
  | .property name inside => .member "properties" :: .member name :: inside.steps
  | .items inside => .member "items" :: inside.steps
  | .additional inside => .member "additionalProperties" :: inside.steps
  | .allOf index inside => .member "allOf" :: .item index :: inside.steps
  | .oneOf index inside => .member "oneOf" :: .item index :: inside.steps
  | .anyOf index inside => .member "anyOf" :: .item index :: inside.steps

/-- Puts what a value reads as at a place of a schema. -/
def SchemaPlace.put (value : Datum) : SchemaPlace → Schema → Schema
  | .here, _ => ofJson value.json
  | .property name inside, s =>
    { s with properties := Table.adjust name (inside.put value) s.properties }
  | .items inside, s => { s with items := s.items.map (inside.put value) }
  | .additional .here, s =>
    { s with additional := s.additional.map (fun _ => additionalOf value.json) }
  | .additional inside, s =>
    { s with additional := s.additional.map (fun
        | .flag allowed => .flag allowed
        | .schema schema => .schema (inside.put value schema)) }
  | .allOf index inside, s => { s with allOf := s.allOf.modify index (inside.put value) }
  | .oneOf index inside, s => { s with oneOf := s.oneOf.modify index (inside.put value) }
  | .anyOf index inside, s => { s with anyOf := s.anyOf.modify index (inside.put value) }

/-- Reads a keyword into a schema. -/
def withKeyword (keyword : String) (value : Json) (s : Schema) : Schema :=
  match keyword with
  | "$ref" => { s with reference := value.text? }
  | "type" => { s with kinds := KindSet.ofDatum? (.ofJson value) }
  | "format" => { s with format := value.text? }
  | "title" => { s with title := value.text? }
  | "description" => { s with description := value.text? }
  | "properties" => { s with properties := namedOf value }
  | "required" => { s with required := value.textItems }
  | "additionalProperties" => { s with additional := some (additionalOf value) }
  | "items" => { s with items := some (ofJson value) }
  | "allOf" => { s with allOf := listOf value }
  | "oneOf" => { s with oneOf := listOf value }
  | "anyOf" => { s with anyOf := listOf value }
  | "enum" => { s with enumeration := valuesOf value }
  | "example" => { s with sample := some value }
  | _ => s

theorem ofMembers_cons (keyword : String) (value : Json) (rest : List (String × Json)) :
    ofMembers ((keyword, value) :: rest) = withKeyword keyword value (ofMembers rest) := by
  rw [ofMembers.eq_def]
  rfl

/-- **One keyword**: a change of its value is a change of what it says, if the
    other keywords do not touch that. -/
theorem ofMembers_adjust {keyword : String} {change : Json → Json} {upd : Schema → Schema}
    (hnone : upd {} = {})
    (hself : ∀ value s, withKeyword keyword (change value) s = upd (withKeyword keyword value s))
    (hothers : ∀ other value s, other ≠ keyword →
      withKeyword other value (upd s) = upd (withKeyword other value s))
    (members : List (String × Json)) :
    ofMembers (Table.adjust keyword change members) = upd (ofMembers members) := by
  induction members with
  | nil => exact hnone.symm
  | cons member rest ih =>
    obtain ⟨other, value⟩ := member
    by_cases hother : other = keyword
    · rw [Table.adjust, if_pos hother, ofMembers_cons, ofMembers_cons, hother, hself]
    · rw [Table.adjust, if_neg hother, ofMembers_cons, ofMembers_cons, ih, hothers _ _ _ hother]

/-- A change under a keyword is a change of what the keyword says. -/
theorem ofJson_replaceAt_keyword {value : Json} {keyword : String} {steps : List Step}
    (upd : Schema → Schema) (hnone : upd {} = {})
    (hself : ∀ v s,
      withKeyword keyword (Json.replaceAt value steps v) s = upd (withKeyword keyword v s))
    (hothers : ∀ other v s, other ≠ keyword →
      withKeyword other v (upd s) = upd (withKeyword other v s)) (json : Json) :
    ofJson (Json.replaceAt value (.member keyword :: steps) json) = upd (ofJson json) := by
  cases json with
  | object members =>
    show ofMembers (Table.adjust keyword _ members) = upd (ofMembers members)
    exact ofMembers_adjust hnone hself hothers members
  | _ => exact hnone.symm

theorem namedOf_replaceAt {value : Json} {name : String} {steps : List Step}
    {change : Schema → Schema}
    (h : ∀ j : Json, ofJson (Json.replaceAt value steps j) = change (ofJson j)) (json : Json) :
    namedOf (Json.replaceAt value (.member name :: steps) json)
      = Table.adjust name change (namedOf json) := by
  cases json with
  | object members =>
    show namedOfMembers (Table.adjust name _ members)
      = Table.adjust name change (namedOfMembers members)
    induction members with
    | nil => rfl
    | cons member rest ih =>
      obtain ⟨k, v⟩ := member
      by_cases hk : k = name <;> simp [Table.adjust, namedOfMembers, hk, h, ih]
  | _ => rfl

theorem listOf_replaceAt {value : Json} {index : Nat} {steps : List Step}
    {change : Schema → Schema}
    (h : ∀ j : Json, ofJson (Json.replaceAt value steps j) = change (ofJson j)) (json : Json) :
    listOf (Json.replaceAt value (.item index :: steps) json)
      = (listOf json).modify index change := by
  have hmap : ∀ items : List Json, listOfItems items = items.map ofJson := by
    intro items
    induction items with
    | nil => rfl
    | cons item rest ih => rw [listOfItems, ih, List.map_cons]
  cases json with
  | array items =>
    show listOfItems (items.modify index _) = (listOfItems items).modify index change
    rw [hmap, hmap]
    refine List.ext_getElem? (fun i => ?_)
    simp only [List.getElem?_map, List.getElem?_modify]
    cases items[i]? with
    | none => rfl
    | some j => by_cases hi : index = i <;> simp [hi, h]
  | object _ => exact (List.modify_nil _ _).symm
  | _ => exact (List.modify_nil _ _).symm

theorem additionalOf_of_ne_bool {json : Json} (h : ∀ allowed, json ≠ .bool allowed) :
    additionalOf json = .schema (ofJson json) := by
  cases json with
  | bool allowed => exact absurd rfl (h allowed)
  | _ => rfl

/-- Below the value itself, what may be given beside the properties changes as a
    schema does, and a flag has no place. -/
theorem additionalOf_replaceAt {value : Json} {step : Step} {steps : List Step}
    {change : Schema → Schema}
    (h : ∀ j : Json, ofJson (Json.replaceAt value (step :: steps) j) = change (ofJson j))
    (json : Json) :
    additionalOf (Json.replaceAt value (step :: steps) json)
      = (match additionalOf json with
        | .flag allowed => .flag allowed
        | .schema schema => .schema (change schema)) := by
  by_cases hbool : ∃ allowed, json = .bool allowed
  · obtain ⟨allowed, rfl⟩ := hbool
    rfl
  · have hne : ∀ allowed, json ≠ .bool allowed := fun allowed heq => hbool ⟨allowed, heq⟩
    have hkeep : ∀ allowed, Json.replaceAt value (step :: steps) json ≠ .bool allowed := by
      intro allowed
      cases json with
      | bool b => exact absurd rfl (hne b)
      | object _ =>
        rw [Json.replaceAt]
        split <;> exact Json.noConfusion
      | array _ =>
        rw [Json.replaceAt]
        split <;> exact Json.noConfusion
      | _ => exact Json.noConfusion
    rw [additionalOf_of_ne_bool hkeep, additionalOf_of_ne_bool hne, h]

/-- **Putting is replacing**: what is read of a changed text is what is read of
    the text, changed at the place. -/
theorem ofJson_replaceAt (value : Datum) (p : SchemaPlace) (json : Json) :
    ofJson (Json.replaceAt value.json p.steps json) = p.put value (ofJson json) := by
  induction p generalizing json with
  | here => rfl
  | property name inside ih =>
    refine ofJson_replaceAt_keyword (SchemaPlace.put value (.property name inside)) rfl
      (fun v s => ?_) (fun other v s hne => ?_) json
    · exact congrArg (fun properties => { s with properties }) (namedOf_replaceAt ih v)
    · unfold withKeyword
      split <;> first | rfl | exact absurd rfl hne
  | items inside ih =>
    refine ofJson_replaceAt_keyword (SchemaPlace.put value (.items inside)) rfl (fun v s => ?_)
      (fun other v s hne => ?_) json
    · exact congrArg (fun schema => { s with items := some schema }) (ih v)
    · unfold withKeyword
      split <;> first | rfl | exact absurd rfl hne
  | additional inside ih =>
    refine ofJson_replaceAt_keyword (SchemaPlace.put value (.additional inside)) ?_
      (fun v s => ?_) (fun other v s hne => ?_) json
    · cases inside <;> rfl
    · cases inside with
      | here => rfl
      | _ => exact congrArg (fun a => { s with additional := some a }) (additionalOf_replaceAt ih v)
    · cases inside <;> unfold withKeyword <;> split <;> first | rfl | exact absurd rfl hne
  | allOf index inside ih =>
    refine ofJson_replaceAt_keyword (SchemaPlace.put value (.allOf index inside))
      (by simp [SchemaPlace.put]) (fun v s => ?_) (fun other v s hne => ?_) json
    · exact congrArg (fun allOf => { s with allOf }) (listOf_replaceAt ih v)
    · unfold withKeyword
      split <;> first | rfl | exact absurd rfl hne
  | oneOf index inside ih =>
    refine ofJson_replaceAt_keyword (SchemaPlace.put value (.oneOf index inside))
      (by simp [SchemaPlace.put]) (fun v s => ?_) (fun other v s hne => ?_) json
    · exact congrArg (fun oneOf => { s with oneOf }) (listOf_replaceAt ih v)
    · unfold withKeyword
      split <;> first | rfl | exact absurd rfl hne
  | anyOf index inside ih =>
    refine ofJson_replaceAt_keyword (SchemaPlace.put value (.anyOf index inside))
      (by simp [SchemaPlace.put]) (fun v s => ?_) (fun other v s hne => ?_) json
    · exact congrArg (fun anyOf => { s with anyOf }) (listOf_replaceAt ih v)
    · unfold withKeyword
      split <;> first | rfl | exact absurd rfl hne

/-- A schema follows at each of its places. -/
theorem SchemaPlace.follows (p : SchemaPlace) (value : Datum) :
    Datum.Follows (Datum.Becomes value) p.steps ofDatum? (p.put value) := by
  intro shown d d' hchange
  rw [ofDatum?, ofDatum?, Datum.follows_toJson value p.steps hchange, Option.map_map,
    Option.map_map]
  refine Option.map_congr (fun json _ => ?_)
  cases shown with
  | true => exact ofJson_replaceAt value p json
  | false => rfl

/-- Puts a value at a place of a schema that may be missing: at the schema
    itself, a null is none. -/
def SchemaPlace.putOptional (value : Datum) : SchemaPlace → Option Schema → Option Schema
  | .here, _ =>
    match value with
    | .null => none
    | value => some (ofJson value.json)
  | inside, s => s.map (inside.put value)

/-- A schema that may be missing follows at each of its places. -/
theorem SchemaPlace.follows_optional (p : SchemaPlace) (value : Datum) :
    Datum.Follows (Datum.Becomes value) p.steps (Datum.nullable? ofDatum?)
      (p.putOptional value) := by
  have hfollows := p.follows value
  cases p with
  | here =>
    intro shown d d' hchange
    cases hchange with
    | here h =>
      have hread : ∀ d : Datum, d.toJson?.isSome → Datum.nullable? ofDatum? d
          = some (match d with
            | .null => none
            | d => some (ofJson d.json)) := by
        intro d hd
        obtain ⟨json, hjson⟩ := Option.isSome_iff_exists.mp hd
        cases d <;> simp [Datum.nullable?, ofDatum?, Datum.json, hjson]
      rw [h.eq, hread _ h.new, hread _ h.old]
      rfl
  | _ => exact Datum.Follows.nullable hfollows

end Schema

/-! ### Places inside operations -/

/-- A place of a schema inside a parameter. -/
inductive Parameter.SchemaPlace where
  | schema (inside : Schema.SchemaPlace)
  | items (inside : Schema.SchemaPlace)

namespace Parameter

/-- The names of the fields of a parameter. -/
def fieldNames : List String :=
  ["name", "in", "description", "required", "schema", "type", "items", "enum"]

def SchemaPlace.steps : SchemaPlace → List Step
  | .schema inside => .field fieldNames "schema" :: inside.steps
  | .items inside => .field fieldNames "items" :: inside.steps

def SchemaPlace.put (value : Datum) : SchemaPlace → Parameter → Parameter
  | .schema inside, p => { p with schema := inside.putOptional value p.schema }
  | .items inside, p => { p with items := inside.putOptional value p.items }

/-- A parameter follows at each of its places. -/
theorem SchemaPlace.follows (p : SchemaPlace) (value : Datum) :
    Datum.Follows (Datum.Becomes value) p.steps Parameter.ofDatum? (p.put value) := by
  cases p with
  | schema inside =>
    refine Datum.Follows.record fieldNames (by decide) (fun hfound hrest => ?_)
    have hschema := Datum.Fields.optional_withValue hfound (inside.follows_optional value hrest)
    simp (disch := decide) only [Datum.Fields.required_withValue_of_ne,
      Datum.Fields.defaulted_withValue_of_ne, Datum.Fields.optional_withValue_of_ne, hschema,
      Option.bind_eq_bind, Option.map_bind, Option.bind_map, Function.comp_def]
    split <;> rfl
  | items inside =>
    refine Datum.Follows.record fieldNames (by decide) (fun hfound hrest => ?_)
    have hitems := Datum.Fields.optional_withValue hfound (inside.follows_optional value hrest)
    simp (disch := decide) only [Datum.Fields.required_withValue_of_ne,
      Datum.Fields.defaulted_withValue_of_ne, Datum.Fields.optional_withValue_of_ne, hitems,
      Option.bind_eq_bind, Option.map_bind, Option.bind_map, Function.comp_def]
    split <;> rfl

end Parameter

/-- Puts a value at a place of a parameter that may be referred to only. -/
def Parameter.SchemaPlace.putEntry (value : Datum) (p : Parameter.SchemaPlace) :
    ParameterEntry → ParameterEntry
  | .reference target => .reference target
  | .inline parameter => .inline (p.put value parameter)

/-- An entry of a list or table of parameters follows at each place of its
    parameter. -/
theorem Parameter.SchemaPlace.follows_entry (p : Parameter.SchemaPlace) (value : Datum) :
    Datum.Follows (Datum.Becomes value) p.steps ParameterEntry.ofDatum? (p.putEntry value) := by
  intro shown d d' hchange
  have hreference : d'.fields? ["$ref"] = d.fields? ["$ref"] := by
    cases p with
    | schema inside => exact hchange.fields?_eq (by decide) (by decide)
    | items inside => exact hchange.fields?_eq (by decide) (by decide)
  rw [ParameterEntry.ofDatum?, ParameterEntry.ofDatum?, hreference, p.follows value hchange]
  cases shown <;> cases Parameter.ofDatum? d <;> split <;> rfl

namespace MediaType

/-- The names of the fields of a payload in one of its formats. -/
def fieldNames : List String :=
  ["schema", "example"]

/-- Puts a value at a place of the schema of a payload. -/
def put (value : Datum) (inside : Schema.SchemaPlace) (m : MediaType) : MediaType :=
  { m with schema := inside.putOptional value m.schema }

theorem follows (inside : Schema.SchemaPlace) (value : Datum) :
    Datum.Follows (Datum.Becomes value) (.field fieldNames "schema" :: inside.steps)
      MediaType.ofDatum? (put value inside) := by
  refine Datum.Follows.record fieldNames (by decide) (fun hfound hrest => ?_)
  have hschema := Datum.Fields.optional_withValue hfound (inside.follows_optional value hrest)
  simp (disch := decide) only [Datum.Fields.optional_withValue_of_ne, hschema,
    Option.bind_eq_bind, Option.map_bind, Option.bind_map, Function.comp_def]
  split <;> rfl

end MediaType

namespace RequestBody

/-- The names of the fields of the body of a request. -/
def fieldNames : List String :=
  ["description", "content", "required"]

/-- Puts a value at a place of the schema of one of the formats of a body. -/
def put (value : Datum) (type : String) (inside : Schema.SchemaPlace) (b : RequestBody) :
    RequestBody :=
  { b with content := Table.adjust type (MediaType.put value inside) b.content }

theorem follows (type : String) (inside : Schema.SchemaPlace) (value : Datum) :
    Datum.Follows (Datum.Becomes value)
      (.field fieldNames "content" :: .member type :: .field MediaType.fieldNames "schema"
        :: inside.steps) RequestBody.ofDatum? (put value type inside) := by
  refine Datum.Follows.record fieldNames (by decide) (fun hfound hrest => ?_)
  have hcontent := Datum.Fields.defaulted_withValue hfound
    ((MediaType.follows inside value).table type hrest) []
  simp (disch := decide) only [Datum.Fields.defaulted_withValue_of_ne,
    Datum.Fields.optional_withValue_of_ne, hcontent,
    Option.bind_eq_bind, Option.map_bind, Option.bind_map, Function.comp_def]
  split <;> rfl

end RequestBody

/-- A place of a schema inside a response. -/
inductive Response.SchemaPlace where
  | schema (inside : Schema.SchemaPlace)
  /-- In the schema of one of its formats. -/
  | content (type : String) (inside : Schema.SchemaPlace)

namespace Response

/-- The names of the fields of a response. -/
def fieldNames : List String :=
  ["description", "content", "schema"]

def SchemaPlace.steps : SchemaPlace → List Step
  | .schema inside => .field fieldNames "schema" :: inside.steps
  | .content type inside =>
    .field fieldNames "content" :: .member type :: .field MediaType.fieldNames "schema"
      :: inside.steps

def SchemaPlace.put (value : Datum) : SchemaPlace → Response → Response
  | .schema inside, r => { r with schema := inside.putOptional value r.schema }
  | .content type inside, r =>
    { r with content := Table.adjust type (MediaType.put value inside) r.content }

/-- A response follows at each of its places. -/
theorem SchemaPlace.follows (p : SchemaPlace) (value : Datum) :
    Datum.Follows (Datum.Becomes value) p.steps Response.ofDatum? (p.put value) := by
  cases p with
  | schema inside =>
    refine Datum.Follows.record fieldNames (by decide) (fun hfound hrest => ?_)
    have hschema := Datum.Fields.optional_withValue hfound (inside.follows_optional value hrest)
    simp (disch := decide) only [Datum.Fields.defaulted_withValue_of_ne, hschema,
      Option.bind_eq_bind, Option.map_bind, Option.bind_map, Function.comp_def]
    split <;> rfl
  | content type inside =>
    refine Datum.Follows.record fieldNames (by decide) (fun hfound hrest => ?_)
    have hcontent := Datum.Fields.defaulted_withValue hfound
      ((MediaType.follows inside value).table type hrest) []
    simp (disch := decide) only [Datum.Fields.defaulted_withValue_of_ne,
      Datum.Fields.optional_withValue_of_ne, hcontent,
      Option.bind_eq_bind, Option.map_bind, Option.bind_map, Function.comp_def]
    split <;> rfl

end Response

/-- A place of a schema inside an operation. -/
inductive Operation.SchemaPlace where
  | parameter (index : Nat) (inside : Parameter.SchemaPlace)
  /-- In the schema of one of the formats of the body. -/
  | body (type : String) (inside : Schema.SchemaPlace)
  | response (status : String) (inside : Response.SchemaPlace)

namespace Operation

def SchemaPlace.steps : SchemaPlace → List Step
  | .parameter index inside => .field fieldNames "parameters" :: .item index :: inside.steps
  | .body type inside =>
    .field fieldNames "requestBody" :: .field RequestBody.fieldNames "content" :: .member type
      :: .field MediaType.fieldNames "schema" :: inside.steps
  | .response status inside => .field fieldNames "responses" :: .member status :: inside.steps

def SchemaPlace.put (value : Datum) : SchemaPlace → Operation → Operation
  | .parameter index inside, o =>
    { o with parameters := o.parameters.modify index (inside.putEntry value) }
  | .body type inside, o =>
    { o with requestBody := o.requestBody.map (RequestBody.put value type inside) }
  | .response status inside, o =>
    { o with responses := Table.adjust status (inside.put value) o.responses }

/-- An operation follows at each of its places. -/
theorem SchemaPlace.follows (p : SchemaPlace) (value : Datum) :
    Datum.Follows (Datum.Becomes value) p.steps Operation.ofDatum? (p.put value) := by
  cases p with
  | parameter index inside =>
    refine Datum.Follows.record fieldNames (by decide) (fun hfound hrest => ?_)
    have hparameters := Datum.Fields.defaulted_withValue hfound
      ((inside.follows_entry value).list index hrest) []
    simp (disch := decide) only [Datum.Fields.defaulted_withValue_of_ne,
      Datum.Fields.optional_withValue_of_ne, hparameters,
      Option.bind_eq_bind, Option.map_bind, Option.bind_map, Function.comp_def]
    split <;> rfl
  | body type inside =>
    refine Datum.Follows.record fieldNames (by decide) (fun hfound hrest => ?_)
    have hbody := Datum.Fields.optional_withValue hfound
      ((RequestBody.follows type inside value).nullable hrest)
    simp (disch := decide) only [Datum.Fields.defaulted_withValue_of_ne,
      Datum.Fields.optional_withValue_of_ne, hbody,
      Option.bind_eq_bind, Option.map_bind, Option.bind_map, Function.comp_def]
    split <;> rfl
  | response status inside =>
    refine Datum.Follows.record fieldNames (by decide) (fun hfound hrest => ?_)
    have hresponses := Datum.Fields.defaulted_withValue hfound
      ((inside.follows value).table status hrest) []
    simp (disch := decide) only [Datum.Fields.defaulted_withValue_of_ne,
      Datum.Fields.optional_withValue_of_ne, hresponses,
      Option.bind_eq_bind, Option.map_bind, Option.bind_map, Function.comp_def]
    split <;> rfl

/-- Puts a value at a place of an entry of a path item. -/
def SchemaPlace.putEntry (value : Datum) (p : SchemaPlace) : PathEntry → PathEntry
  | .operation operation => .operation (p.put value operation)
  | .other json => .other (Json.replaceAt value.json p.steps json)

/-- An entry of a path item follows at each place of an operation: it is one
    exactly if it was one. -/
theorem SchemaPlace.follows_entry (p : SchemaPlace) (value : Datum) :
    Datum.Follows (Datum.Becomes value) p.steps PathEntry.ofDatum? (p.putEntry value) := by
  intro shown d d' hchange
  rw [PathEntry.ofDatum?, PathEntry.ofDatum?, p.follows value hchange,
    Datum.follows_toJson value p.steps hchange]
  cases Operation.ofDatum? d with
  | some operation => cases shown <;> rfl
  | none => cases shown <;> cases d.toJson? <;> rfl

end Operation

/-! ### Places inside documents -/

/-- A place of a schema inside a document. -/
inductive Document.SchemaPlace where
  /-- In a named schema of the older dialect. -/
  | definition (name : String) (inside : Schema.SchemaPlace)
  /-- In a named schema of the newer dialect. -/
  | component (name : String) (inside : Schema.SchemaPlace)
  /-- In a shared parameter of the older dialect. -/
  | sharedParameter (name : String) (inside : Parameter.SchemaPlace)
  /-- In a shared parameter of the newer dialect. -/
  | componentParameter (name : String) (inside : Parameter.SchemaPlace)
  /-- In a parameter that the operations of a path share. -/
  | pathParameter (path : String) (index : Nat) (inside : Parameter.SchemaPlace)
  /-- In an operation, or where one would be. -/
  | operation (path key : String) (hkey : key ≠ "parameters") (inside : Operation.SchemaPlace)

namespace Document

def SchemaPlace.steps : SchemaPlace → List Step
  | .definition name inside => .field fieldNames "definitions" :: .member name :: inside.steps
  | .component name inside =>
    .field fieldNames "components" :: .field Components.fieldNames "schemas" :: .member name
      :: inside.steps
  | .sharedParameter name inside => .field fieldNames "parameters" :: .member name :: inside.steps
  | .componentParameter name inside =>
    .field fieldNames "components" :: .field Components.fieldNames "parameters" :: .member name
      :: inside.steps
  | .pathParameter path index inside =>
    .field fieldNames "paths" :: .member path :: .member "parameters" :: .item index :: inside.steps
  | .operation path key _ inside =>
    .field fieldNames "paths" :: .member path :: .member key :: inside.steps

/-- Puts what a value reads as at a place of a document. -/
def SchemaPlace.put (value : Datum) : SchemaPlace → Document → Document
  | .definition name inside, d =>
    { d with definitions := Table.adjust name (inside.put value) d.definitions }
  | .component name inside, d =>
    { d with components := d.components.map (fun k =>
        { k with schemas := Table.adjust name (inside.put value) k.schemas }) }
  | .sharedParameter name inside, d =>
    { d with parameters := Table.adjust name (inside.putEntry value) d.parameters }
  | .componentParameter name inside, d =>
    { d with components := d.components.map (fun k =>
        { k with parameters := Table.adjust name (inside.putEntry value) k.parameters }) }
  | .pathParameter path index inside, d =>
    { d with paths := Table.adjust path (fun item =>
        { item with parameters := item.parameters.modify index (inside.putEntry value) }) d.paths }
  | .operation path key _ inside, d =>
    { d with paths := Table.adjust path (fun item =>
        { item with entries := Table.adjust key (inside.putEntry value) item.entries }) d.paths }

end Document

section Replacing

variable {v : Content} {value : Datum}

/-- Where a content is replaced, its data become those of the new content. -/
theorem becomes_of_replaced (hv : v.datum? = some value) {c c' : Content} {d : Datum} (h : c' = v)
    (hd : c.datum? = some d) : ∃ d', c'.datum? = some d' ∧ Datum.Becomes value d d' := by
  obtain ⟨_, hold⟩ := c.exists_toJson_of_datum hd
  obtain ⟨_, hnew⟩ := v.exists_toJson_of_datum hv
  exact ⟨value, h ▸ hv, Option.isSome_iff_exists.mpr ⟨_, hold⟩,
    Option.isSome_iff_exists.mpr ⟨_, hnew⟩, rfl⟩

theorem Schema.ofContent?_eq (c : Content) :
    Schema.ofContent? c = c.datum?.bind Schema.ofDatum? := by
  rw [Schema.ofContent?]
  cases hd : c.datum? with
  | none => rfl
  | some datum =>
    obtain ⟨json, hjson⟩ := c.exists_toJson_of_datum hd
    rw [Option.map_some, Option.bind_some, Schema.ofDatum?, hjson]
    rfl

variable (hv : v.datum? = some value)
include hv

theorem Schema.SchemaPlace.follows_content (p : Schema.SchemaPlace) :
    Content.Follows (fun _ c' => c' = v) p.steps Schema.ofContent?
      (fun s s' => s' = p.put value s) := by
  rw [funext Schema.ofContent?_eq]
  exact Content.Follows.ofData (becomes_of_replaced hv) (p.follows value)

theorem Parameter.SchemaPlace.follows_content (p : Parameter.SchemaPlace) :
    Content.Follows (fun _ c' => c' = v) p.steps ParameterEntry.ofContent?
      (fun e e' => e' = p.putEntry value e) :=
  Content.Follows.ofData (becomes_of_replaced hv) (p.follows_entry value)

theorem Operation.SchemaPlace.follows_content (p : Operation.SchemaPlace) :
    Content.Follows (fun _ c' => c' = v) p.steps PathEntry.ofContent?
      (fun e e' => e' = p.putEntry value e) :=
  Content.Follows.ofData (becomes_of_replaced hv) (p.follows_entry value)

/-- A document follows at each of its places. -/
theorem Document.SchemaPlace.follows (p : Document.SchemaPlace) :
    Content.Follows (fun _ c' => c' = v) p.steps Document.ofContent?
      (fun d d' => d' = p.put value d) := by
  cases p with
  | definition name inside =>
    refine (Document.follows_definitions ((inside.follows_content hv).adjustTable name)).mono ?_
    rintro d _ ⟨_, rfl, rfl⟩
    rfl
  | component name inside =>
    refine (Document.follows_components (Components.follows_schemas
      ((inside.follows_content hv).adjustTable name)).orNull).mono ?_
    rintro d _ ⟨_, ⟨k, _, hk, ⟨_, rfl, rfl⟩, rfl⟩, rfl⟩
    rw [SchemaPlace.put, hk]
    rfl
  | sharedParameter name inside =>
    refine (Document.follows_parameters ((inside.follows_content hv).adjustTable name)).mono ?_
    rintro d _ ⟨_, rfl, rfl⟩
    rfl
  | componentParameter name inside =>
    refine (Document.follows_components (Components.follows_parameters
      ((inside.follows_content hv).adjustTable name)).orNull).mono ?_
    rintro d _ ⟨_, ⟨k, _, hk, ⟨_, rfl, rfl⟩, rfl⟩, rfl⟩
    rw [SchemaPlace.put, hk]
    rfl
  | pathParameter path index inside =>
    have hitem : Content.Follows (fun _ c' => c' = v)
        (.member "parameters" :: .item index :: inside.steps) PathItem.ofContent?
        (fun item item' => item' = { item with
          parameters := item.parameters.modify index (inside.putEntry value) }) := by
      refine (PathItem.follows_parameters ((inside.follows_content hv).modifyList index)).mono ?_
      rintro item _ ⟨_, rfl, rfl⟩
      rfl
    refine (Document.follows_paths (hitem.adjustTable path)).mono ?_
    rintro d _ ⟨_, rfl, rfl⟩
    rfl
  | operation path key hkey inside =>
    have hitem : Content.Follows (fun _ c' => c' = v) (.member key :: inside.steps)
        PathItem.ofContent? (fun item item' => item' = { item with
          entries := item.entries.adjust key (inside.putEntry value) }) := by
      refine (PathItem.follows_entry (inside.follows_content hv) hkey).mono ?_
      rintro item _ ⟨e, _, hfound, rfl, rfl⟩
      have hput : item.entries.adjust key (fun _ => inside.putEntry value e)
          = item.entries.adjust key (inside.putEntry value) := Table.adjust_congr hfound rfl
      rw [hput]
    refine (Document.follows_paths (hitem.adjustTable path)).mono ?_
    rintro d _ ⟨_, rfl, rfl⟩
    rfl

end Replacing

/-! ### Locality -/

/-- Whether an entry of a path item is an operation. -/
def PathEntry.isOperation : PathEntry → Bool
  | .operation _ => true
  | .other _ => false

/-- Whether an operation could be read at each key of a path item. -/
def PathItem.readable (item : PathItem) (key : String) : Option Bool :=
  (item.entries.find? key).map PathEntry.isOperation

/-- Whether an operation could be read at each key of each path. -/
def Document.readable (d : Document) (path : String) : Option (String → Option Bool) :=
  (d.paths.find? path).map PathItem.readable

/-- Putting a value at a place neither makes nor breaks an operation. -/
theorem Document.SchemaPlace.readable_put (p : Document.SchemaPlace) (value : Datum) (d : Document)
    (path : String) : (p.put value d).readable path = d.readable path := by
  cases p with
  | pathParameter changed index inside =>
    refine Table.map_find?_adjust (fun item => ?_) changed path d.paths
    rfl
  | operation changed key hkey inside =>
    refine Table.map_find?_adjust (fun item => funext fun other => ?_) changed path d.paths
    exact Table.map_find?_adjust (fun entry => by cases entry <;> rfl) key other item.entries
  | _ => rfl

/-- **Schemas are local**: a text in which a schema is replaced by anything that
    can be read is accepted, and gives the same document but for what the value
    reads as at that place. Where a later member of the same name hides the
    schema, it gives the very same document. -/
theorem Document.ofJsonText_replaced {text text' : String} {c c' v : Content} {value : Datum}
    {shown : Bool} {d : Document} (p : Document.SchemaPlace) (hd : Document.ofJsonText text = .ok d)
    (hc : Json.Holds text c) (hc' : Json.Holds text' c') (hv : v.datum? = some value)
    (hchange : Content.ChangedAt (fun _ c' => c' = v) p.steps shown c c') :
    ∃ d', Document.ofJsonText text' = .ok d' ∧ (d' = if shown then p.put value d else d)
      ∧ ∀ path, d'.readable path = d.readable path := by
  obtain ⟨_, hheld, hread⟩ := Document.ofJsonText_eq_ok_iff.mp hd
  obtain rfl := hc.2.symm.trans hheld.2
  obtain ⟨d', hd', hchanges⟩ := p.follows hv hchange hread
  refine ⟨d', Document.ofJsonText_eq_ok_iff.mpr ⟨c', hc', hd'⟩, ?_⟩
  cases shown with
  | true =>
    obtain rfl : d' = p.put value d := hchanges
    exact ⟨rfl, p.readable_put value d⟩
  | false =>
    obtain rfl : d' = d := hchanges
    exact ⟨rfl, fun _ => rfl⟩

/-! ### A list of anything -/

/-- The text of a document with an operation that returns a list. -/
def listingText (items : Json) : String :=
  Json.compact (.object [("paths", .object [("/pets", .object [("get", .object
    [("operationId", .string "listPets"),
     ("responses", .object [("200", .object [("schema", .object
       [("type", .string "array"), ("items", items)])])])])])])])

/-- The content of that text. -/
def listingContent (items : Content) : Content :=
  .object false [(some "paths", .object false [(some "/pets", .object false [(some "get",
    .object false [(some "operationId", .string "listPets"),
      (some "responses", .object false [(some "200", .object false [(some "schema", .object false
        [(some "type", .string "array"), (some "items", items)])])])])])])]

/-- The document that the text is read as. -/
def listing (items : Schema) : Document :=
  let schema : Schema := { kinds := some (.single .array), items := some items }
  let operation : Operation :=
    { operationId := some "listPets", responses := [("200", { schema := some schema })] }
  { paths := [("/pets", { entries := [("get", .operation operation)] })] }

/-- The place of the schema of the items. -/
def listingItems : Document.SchemaPlace :=
  .operation "/pets" "get" (by decide) (.response "200" (.schema (.items .here)))

/-- A number in place of the schema of the items makes them unknown, and leaves
    the operation as it is. -/
theorem Document.ofJsonText_replaced_sample :
    Document.ofJsonText (listingText (.object [("type", .string "string")]))
        = .ok (listing { kinds := some (.single .string) })
      ∧ ∃ d', Document.ofJsonText (listingText (.number (.int 7))) = .ok d'
        ∧ d' = listing {}
        ∧ ∀ path, d'.readable path
          = (listing { kinds := some (.single .string) }).readable path := by
  have hc : Json.Holds (listingText (.object [("type", .string "string")]))
      (listingContent (.object false [(some "type", .string "string")])) :=
    ⟨by decide +kernel, Content.eq_of_same _ _ (by decide +kernel)⟩
  have hc' : Json.Holds (listingText (.number (.int 7))) (listingContent (.number (.int 7))) :=
    ⟨by decide +kernel, Content.eq_of_same _ _ (by decide +kernel)⟩
  have hd : Document.ofJsonText (listingText (.object [("type", .string "string")]))
      = .ok (listing { kinds := some (.single .string) }) :=
    Document.ofJsonText_eq_ok_iff.mpr ⟨_, hc, rfl⟩
  have hchange : Content.ChangedAt (fun _ c' => c' = .number (.int 7)) listingItems.steps true
      (listingContent (.object false [(some "type", .string "string")]))
      (listingContent (.number (.int 7))) :=
    .lastMember [] rfl <| .lastMember [] rfl <| .lastMember [] rfl <| .lastMember [_] rfl <|
      .lastMember [] rfl <| .lastMember [] rfl <| .lastMember [_] rfl <| .here rfl
  obtain ⟨d', hd', heq, hreadable⟩ :=
    Document.ofJsonText_replaced listingItems hd hc hc' rfl hchange
  exact ⟨hd, d', hd', heq, hreadable⟩

end TypedClient
