import TypedClient.Proofs.DocumentChanges
import TypedClient.Proofs.WellFormedTypes

/-! # Distinct keys

    A part of a document has distinct keys if no table, schema or value in it gives a
    key twice, at any depth.

    * **Tables** are filled by insertion, which puts a repeated key in the place of the
      one before.
    * **Parts** that are read from data of unknown shape have distinct keys. A reader of
      a part sees to that, as the readers of all that is in it do.
-/

namespace TypedClient

variable {α β : Type} {p : α → Prop}

/-! ### Tables -/

/-- A table with **distinct keys**, and with values that are as they should be. -/
structure Table.Distinct (p : α → Prop) (t : Table α) : Prop where
  keys : t.keys.Nodup
  values : ∀ entry ∈ t, p entry.2

namespace Table

variable {t u : Table α}

theorem Distinct.nil : Distinct p [] where
  keys := List.nodup_nil
  values := by simp

theorem Distinct.insert (h : t.Distinct p) (key : String) {value : α} (hvalue : p value) :
    (t.insert key value).Distinct p where
  keys := nodup_keys_insert h.keys key value
  values := forall_mem_insert h.values key hvalue

theorem distinct_ofEntries {entries : List (String × α)} (h : ∀ entry ∈ entries, p entry.2) :
    (ofEntries entries).Distinct p := by
  have hrun : ∀ t : Table α, t.Distinct p →
      (entries.foldl (fun t entry => t.insert entry.1 entry.2) t).Distinct p := by
    induction entries with
    | nil => exact fun t ht => ht
    | cons entry rest ih =>
      obtain ⟨hentry, hrest⟩ := List.forall_mem_cons.1 h
      exact fun t ht => ih hrest _ (ht.insert entry.1 hentry)
  exact hrun [] .nil

/-- Of two tables with distinct keys the first one has precedence. -/
theorem Distinct.addNew (ht : t.Distinct p) (hu : u.Distinct p) : (t.addNew u).Distinct p := by
  have hvalues := hu.values
  unfold Table.addNew
  clear hu
  induction u generalizing t with
  | nil => exact ht
  | cons entry rest ih =>
    obtain ⟨hentry, hrest⟩ := List.forall_mem_cons.1 hvalues
    rw [List.foldl_cons]
    split
    · exact ih ht hrest
    · exact ih (ht.insert entry.1 hentry) hrest

end Table

/-! ### Parts of documents -/

structure Parameter.Distinct (parameter : Parameter) : Prop where
  schema : ∀ s ∈ parameter.schema, s.DistinctNames
  items : ∀ s ∈ parameter.items, s.DistinctNames
  /-- The allowed values may be objects. -/
  enumeration : ∀ value ∈ parameter.enumeration, value.DistinctNames

def ParameterEntry.Distinct : ParameterEntry → Prop
  | .reference _ => True
  | .inline parameter => parameter.Distinct

structure MediaType.Distinct (media : MediaType) : Prop where
  schema : ∀ s ∈ media.schema, s.DistinctNames
  sample : ∀ value ∈ media.sample, value.DistinctNames

structure Response.Distinct (response : Response) : Prop where
  content : response.content.Distinct MediaType.Distinct
  schema : ∀ s ∈ response.schema, s.DistinctNames

structure Operation.Distinct (operation : Operation) : Prop where
  parameters : ∀ entry ∈ operation.parameters, entry.Distinct
  /-- The formats of the body, if there is one. -/
  requestBody : ∀ body ∈ operation.requestBody, body.content.Distinct MediaType.Distinct
  responses : operation.responses.Distinct Response.Distinct

def PathEntry.Distinct : PathEntry → Prop
  | .operation found => found.Distinct
  | .other value => value.DistinctNames

structure PathItem.Distinct (item : PathItem) : Prop where
  parameters : ∀ entry ∈ item.parameters, entry.Distinct
  entries : item.entries.Distinct PathEntry.Distinct

structure Components.Distinct (components : Components) : Prop where
  schemas : components.schemas.Distinct Schema.DistinctNames
  parameters : components.parameters.Distinct ParameterEntry.Distinct

/-- A document with distinct keys, in all its tables and at every depth. -/
structure Document.Distinct (d : Document) : Prop where
  paths : d.paths.Distinct PathItem.Distinct
  /-- The shared parts, in the newer dialect. -/
  components : ∀ components ∈ d.components, components.Distinct
  definitions : d.definitions.Distinct Schema.DistinctNames
  parameters : d.parameters.Distinct ParameterEntry.Distinct

/-- The named schemas of both dialects have distinct keys together. -/
theorem Document.Distinct.allDefinitions {d : Document} (h : d.Distinct) :
    d.allDefinitions.Distinct Schema.DistinctNames := by
  refine Table.Distinct.addNew ?_ h.definitions
  cases hcomponents : d.components with
  | none => exact .nil
  | some components => exact (h.components components hcomponents).schemas

/-! ### From data -/

theorem forall_mem_of_mapM_eq_some {read : β → Option α} (h : ∀ x, ∀ value ∈ read x, p value)
    {items : List β} {values : List α} (hvalues : items.mapM read = some values) :
    ∀ value ∈ values, p value := by
  induction items generalizing values with
  | nil =>
    obtain rfl := Option.some.inj hvalues
    simp
  | cons item rest ih =>
    rw [List.mapM_cons] at hvalues
    obtain ⟨value, hvalue, hvalues⟩ := Option.bind_eq_some_iff.1 hvalues
    obtain ⟨others, hothers, hvalues⟩ := Option.bind_eq_some_iff.1 hvalues
    obtain rfl := Option.some.inj hvalues
    exact List.forall_mem_cons.2 ⟨h item value hvalue, ih hothers⟩

theorem distinct_of_readTable {κ : Type} {key : κ → Option String} {read : β → Option α}
    (h : ∀ x, ∀ value ∈ read x, p value) {entries : List (κ × β)} {t : Table α}
    (ht : readTable key read entries = some t) : t.Distinct p := by
  obtain ⟨values, hvalues, rfl⟩ := Option.map_eq_some_iff.1 ht
  refine Table.distinct_ofEntries (forall_mem_of_mapM_eq_some ?_ hvalues)
  intro entry named hnamed
  obtain ⟨name, _, hread⟩ := Option.bind_eq_some_iff.1 hnamed
  obtain ⟨value, hvalue, rfl⟩ := Option.map_eq_some_iff.1 hread
  exact h entry.2 value hvalue

namespace Datum

variable {read : Datum → Option α} (h : ∀ d, ∀ value ∈ read d, p value)
include h

theorem forall_mem_of_list? {d : Datum} {values : List α} (hvalues : d.list? read = some values) :
    ∀ value ∈ values, p value := by
  cases d with
  | sequence items => exact forall_mem_of_mapM_eq_some h hvalues
  | _ => cases hvalues

theorem distinct_of_table? (d : Datum) : ∀ t ∈ d.table? read, t.Distinct p := by
  intro t ht
  cases d with
  | map entries => exact distinct_of_readTable h (table?_eq_readTable read entries ▸ ht)
  | _ => cases ht

theorem Fields.forall_mem_of_optional {f : Fields} {name : String} {value : Option α}
    (hvalue : f.optional name read = some value) : ∀ found ∈ value, p found := by
  unfold Fields.optional at hvalue
  split at hvalue
  · split at hvalue
    · cases hvalue
    · obtain rfl := Option.some.inj hvalue
      simp
  · obtain rfl := Option.some.inj hvalue
    simp
  · obtain ⟨found, hfound, rfl⟩ := Option.map_eq_some_iff.1 hvalue
    simpa using h _ found hfound

theorem Fields.of_defaulted {f : Fields} {name : String} {default value : α} (hdefault : p default)
    (hvalue : f.defaulted name default read = some value) : p value := by
  unfold Fields.defaulted at hvalue
  split at hvalue
  · exact Option.some.inj hvalue ▸ hdefault
  · exact h _ value hvalue

end Datum

section OfDatum

open Datum

variable (d : Datum)

theorem Parameter.distinct_of_ofDatum? :
    ∀ parameter ∈ Parameter.ofDatum? d, parameter.Distinct := by
  intro parameter h
  simp only [Parameter.ofDatum?, Option.bind_eq_bind, Option.mem_def, Option.bind_eq_some_iff] at h
  obtain ⟨f, -, name, -, location, -, description, -, required, -, schema, hschema, kinds, -,
    items, hitems, enumeration, henumeration, h⟩ := h
  obtain rfl := Option.some.inj h
  exact {
    schema := Fields.forall_mem_of_optional (fun _ _ => Schema.distinctNames_of_ofDatum?) hschema
    items := Fields.forall_mem_of_optional (fun _ _ => Schema.distinctNames_of_ofDatum?) hitems
    enumeration := Fields.of_defaulted
      (fun _ _ => forall_mem_of_list? (fun d _ => distinctNames_of_toJson? d)) (by simp)
      henumeration }

theorem ParameterEntry.distinct_of_ofDatum? :
    ∀ entry ∈ ParameterEntry.ofDatum? d, entry.Distinct := by
  intro entry h
  simp only [ParameterEntry.ofDatum?] at h
  split at h
  · obtain rfl := Option.some.inj h
    trivial
  · obtain ⟨parameter, hparameter, rfl⟩ := Option.map_eq_some_iff.1 h
    exact Parameter.distinct_of_ofDatum? d parameter hparameter

theorem MediaType.distinct_of_ofDatum? : ∀ media ∈ MediaType.ofDatum? d, media.Distinct := by
  intro media h
  simp only [MediaType.ofDatum?, Option.bind_eq_bind, Option.mem_def, Option.bind_eq_some_iff] at h
  obtain ⟨f, -, schema, hschema, sample, hsample, h⟩ := h
  obtain rfl := Option.some.inj h
  exact {
    schema := Fields.forall_mem_of_optional (fun _ _ => Schema.distinctNames_of_ofDatum?) hschema
    sample := Fields.forall_mem_of_optional (fun d _ => distinctNames_of_toJson? d) hsample }

theorem RequestBody.distinct_of_ofDatum? :
    ∀ body ∈ RequestBody.ofDatum? d, body.content.Distinct MediaType.Distinct := by
  intro body h
  simp only [RequestBody.ofDatum?, Option.bind_eq_bind, Option.mem_def,
    Option.bind_eq_some_iff] at h
  obtain ⟨f, -, description, -, content, hcontent, required, -, h⟩ := h
  obtain rfl := Option.some.inj h
  exact Fields.of_defaulted (distinct_of_table? MediaType.distinct_of_ofDatum?) .nil hcontent

theorem Response.distinct_of_ofDatum? : ∀ response ∈ Response.ofDatum? d, response.Distinct := by
  intro response h
  simp only [Response.ofDatum?, Option.bind_eq_bind, Option.mem_def, Option.bind_eq_some_iff] at h
  obtain ⟨f, -, description, -, content, hcontent, schema, hschema, h⟩ := h
  obtain rfl := Option.some.inj h
  exact {
    content := Fields.of_defaulted (distinct_of_table? MediaType.distinct_of_ofDatum?) .nil hcontent
    schema := Fields.forall_mem_of_optional (fun _ _ => Schema.distinctNames_of_ofDatum?) hschema }

theorem Operation.distinct_of_ofDatum? :
    ∀ operation ∈ Operation.ofDatum? d, operation.Distinct := by
  intro operation h
  simp only [Operation.ofDatum?, Option.bind_eq_bind, Option.mem_def, Option.bind_eq_some_iff] at h
  obtain ⟨f, -, operationId, -, summary, -, description, -, parameters, hparameters, requestBody,
    hrequestBody, responses, hresponses, deprecated, -, h⟩ := h
  obtain rfl := Option.some.inj h
  exact {
    parameters := Fields.of_defaulted
      (fun _ _ => forall_mem_of_list? ParameterEntry.distinct_of_ofDatum?) (by simp) hparameters
    requestBody := Fields.forall_mem_of_optional RequestBody.distinct_of_ofDatum? hrequestBody
    responses :=
      Fields.of_defaulted (distinct_of_table? Response.distinct_of_ofDatum?) .nil hresponses }

theorem PathEntry.distinct_of_ofDatum? : ∀ entry ∈ PathEntry.ofDatum? d, entry.Distinct := by
  intro entry h
  unfold PathEntry.ofDatum? at h
  split at h
  · rename_i operation hoperation
    obtain rfl := Option.some.inj h
    exact Operation.distinct_of_ofDatum? d operation hoperation
  · obtain ⟨value, hvalue, rfl⟩ := Option.map_eq_some_iff.1 h
    exact distinctNames_of_toJson? d hvalue

end OfDatum

end TypedClient
