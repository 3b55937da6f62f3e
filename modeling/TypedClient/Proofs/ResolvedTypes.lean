import TypedClient.TypeExpr.Resolution
import TypedClient.Usage.Mentions

/-! # Names and data in the types of schemas

    The type of a schema is made from the schema alone: whatever named type it
    holds comes from a reference at some depth of the schema, and whatever data
    it holds is the text of a value that is no text itself.
-/

namespace TypedClient

/-! ### Names and data of types -/

namespace TypeExpr

mutual

/-- The names of named types at any depth of a type. -/
def refs : TypeExpr → List String
  | .ref name => [name]
  | .array item => item.refs
  | .record value => value.refs
  | .object fields => fieldRefs fields
  | .union members => listRefs members
  | .intersection members => listRefs members
  | _ => []

/-- The names of named types at any depth of types. -/
def listRefs : List TypeExpr → List String
  | [] => []
  | type :: rest => type.refs ++ listRefs rest

/-- The names of named types at any depth of fields. -/
def fieldRefs : List Field → List String
  | [] => []
  | { type, .. } :: rest => type.refs ++ fieldRefs rest

end

mutual

/-- The texts of data at any depth of a type. -/
def literals : TypeExpr → List String
  | .literal text => [text]
  | .array item => item.literals
  | .record value => value.literals
  | .object fields => fieldLiterals fields
  | .union members => listLiterals members
  | .intersection members => listLiterals members
  | _ => []

/-- The texts of data at any depth of types. -/
def listLiterals : List TypeExpr → List String
  | [] => []
  | type :: rest => type.literals ++ listLiterals rest

/-- The texts of data at any depth of fields. -/
def fieldLiterals : List Field → List String
  | [] => []
  | { type, .. } :: rest => type.literals ++ fieldLiterals rest

end

/-- A name is in types if it is in one of them. -/
theorem mem_listRefs {name : String} {types : List TypeExpr} :
    name ∈ listRefs types ↔ ∃ type ∈ types, name ∈ type.refs := by
  induction types with
  | nil => simp [listRefs]
  | cons type rest ih => simp [listRefs, ih]

/-- A name is in fields if it is in the type of one of them. -/
theorem mem_fieldRefs {name : String} {fields : List Field} :
    name ∈ fieldRefs fields ↔ ∃ f ∈ fields, name ∈ f.type.refs := by
  induction fields with
  | nil => simp [fieldRefs]
  | cons f rest ih =>
    obtain ⟨key, type, required, description⟩ := f
    simp [fieldRefs, ih]

/-- A text of data is in types if it is in one of them. -/
theorem mem_listLiterals {text : String} {types : List TypeExpr} :
    text ∈ listLiterals types ↔ ∃ type ∈ types, text ∈ type.literals := by
  induction types with
  | nil => simp [listLiterals]
  | cons type rest ih => simp [listLiterals, ih]

/-- A text of data is in fields if it is in the type of one of them. -/
theorem mem_fieldLiterals {text : String} {fields : List Field} :
    text ∈ fieldLiterals fields ↔ ∃ f ∈ fields, text ∈ f.type.literals := by
  induction fields with
  | nil => simp [fieldLiterals]
  | cons f rest ih =>
    obtain ⟨key, type, required, description⟩ := f
    simp [fieldLiterals, ih]

/-- **Given** types: their names come from references, and their data from values
    that are no texts. -/
structure Given (references : List String) (type : TypeExpr) : Prop where
  names : ∀ name ∈ type.refs, ∃ r ∈ references, name = Name.typeName r
  data : ∀ text ∈ type.literals, ∃ v : Json, (∀ s, v ≠ .string s) ∧ text = v.compact

namespace Given

variable {references more : List String} {type : TypeExpr}

theorem mono (h : type.Given references) (hsub : references ⊆ more) : type.Given more where
  names := by
    intro name hname
    obtain ⟨r, hr, heq⟩ := h.names name hname
    exact ⟨r, hsub hr, heq⟩
  data := h.data

theorem leaf (hrefs : type.refs = []) (hliterals : type.literals = []) : type.Given references :=
  ⟨by simp [hrefs], by simp [hliterals]⟩

theorem ref {r : String} (hr : r ∈ references) :
    (TypeExpr.ref (Name.typeName r)).Given references where
  names := by
    intro name hname
    exact ⟨r, hr, List.mem_singleton.1 hname⟩
  data := by simp [literals]

theorem literal {v : Json} (hv : ∀ s, v ≠ .string s) :
    (TypeExpr.literal v.compact).Given references where
  names := by simp [refs]
  data := by
    intro text htext
    exact ⟨v, hv, List.mem_singleton.1 htext⟩

theorem array (h : type.Given references) : (TypeExpr.array type).Given references :=
  ⟨h.names, h.data⟩

theorem record (h : type.Given references) : (TypeExpr.record type).Given references :=
  ⟨h.names, h.data⟩

theorem object {fields : List Field} (h : ∀ f ∈ fields, f.type.Given references) :
    (TypeExpr.object fields).Given references where
  names := by
    intro name hname
    obtain ⟨f, hf, hmem⟩ := mem_fieldRefs.1 hname
    exact (h f hf).names name hmem
  data := by
    intro text htext
    obtain ⟨f, hf, hmem⟩ := mem_fieldLiterals.1 htext
    exact (h f hf).data text hmem

theorem union {members : List TypeExpr} (h : ∀ t ∈ members, t.Given references) :
    (TypeExpr.union members).Given references where
  names := by
    intro name hname
    obtain ⟨t, ht, hmem⟩ := mem_listRefs.1 hname
    exact (h t ht).names name hmem
  data := by
    intro text htext
    obtain ⟨t, ht, hmem⟩ := mem_listLiterals.1 htext
    exact (h t ht).data text hmem

theorem intersection {members : List TypeExpr} (h : ∀ t ∈ members, t.Given references) :
    (TypeExpr.intersection members).Given references :=
  ⟨(union h).names, (union h).data⟩

end Given

end TypeExpr

/-! ### From schemas to types -/

namespace Schema

open TypeExpr (Given)

variable {sources : List String} {s : Schema} {parts : Parts}

/-- The names behind the references of a schema: its own, and those of its
    parts. -/
theorem mem_references {r : String} :
    r ∈ s.references ↔ (∃ own ∈ s.reference, Name.referenceName own = r)
      ∨ r ∈ itemsReferences s.items ∨ r ∈ namedReferences s.properties
      ∨ r ∈ additionalReferences s.additional ∨ r ∈ listReferences s.allOf
      ∨ r ∈ listReferences s.oneOf ∨ r ∈ listReferences s.anyOf := by
  cases s
  simp only [references, List.mem_append, Option.mem_toList, Option.mem_def,
    Option.map_eq_some_iff, or_assoc]

/-- **Given parts**: the types of all parts of a schema are given. -/
structure Parts.Given (sources : List String) (parts : Parts) : Prop where
  /-- Those of the `oneOf` branches. -/
  oneOf : ∀ t ∈ parts.oneOf, t.Given sources
  /-- Those of the `anyOf` branches. -/
  anyOf : ∀ t ∈ parts.anyOf, t.Given sources
  /-- That of the `allOf` branches. -/
  allOf : ∀ t ∈ parts.allOf, t.Given sources
  items : parts.items.Given sources
  /-- Those of the declared properties. -/
  fields : ∀ f ∈ parts.fields, f.type.Given sources
  /-- That of what may be given beside them. -/
  additional : ∀ t ∈ parts.additional, t.Given sources

theorem given_stringType (values : List Json) : (stringType values).Given sources := by
  cases values with
  | nil => exact .leaf rfl rfl
  | cons value values =>
    refine .union fun t ht => ?_
    obtain ⟨v, -, rfl⟩ := List.mem_map.1 ht
    exact .leaf rfl rfl

theorem given_bareLiteral (value : Json) : (bareLiteral value).Given sources := by
  unfold bareLiteral
  split
  · exact .leaf rfl rfl
  · rename_i hv
    exact .literal hv

theorem given_recordOf {value : Option TypeExpr} (h : ∀ t ∈ value, t.Given sources) :
    (recordOf value).Given sources := by
  cases value with
  | none => exact .record (.leaf rfl rfl)
  | some t => exact .record (h t rfl)

/-- Bases and an object of properties that are given make a type that is. -/
theorem given_merged {bases : List TypeExpr} {fields : List Field}
    (hbases : ∀ t ∈ bases, t.Given sources) (hfields : ∀ f ∈ fields, f.type.Given sources) :
    ∀ t ∈ merged? bases fields, t.Given sources := by
  intro t ht
  have hall : ∀ u ∈ bases ++ [TypeExpr.object fields], u.Given sources := by
    intro u hu
    rcases List.mem_append.1 hu with hu | hu
    · exact hbases u hu
    · rw [List.mem_singleton.1 hu]
      exact .object hfields
  unfold merged? at ht
  split at ht
  · cases ht
  · obtain rfl := Option.some.inj ht
    exact .object hfields
  · obtain rfl := Option.some.inj ht
    exact hbases _ List.mem_cons_self
  · obtain rfl := Option.some.inj ht
    exact .intersection hbases
  · obtain rfl := Option.some.inj ht
    exact .intersection hall

/-- Where the kind decides nothing, given parts make a type that is given. -/
theorem given_looseType (h : parts.Given sources) : (s.looseType parts).Given sources := by
  unfold looseType
  split
  · rename_i value values _
    split
    · exact given_stringType _
    · refine .union fun t ht => ?_
      obtain ⟨v, -, rfl⟩ := List.mem_map.1 ht
      exact given_bareLiteral v
  · split
    · rename_i field fields hfields
      exact .object (hfields ▸ h.fields)
    · split
      · exact given_recordOf h.additional
      · exact .leaf rfl rfl

/-- **The step**: given parts make a type that is given. -/
theorem given_assembleType (h : parts.Given sources)
    (hs : ∀ r ∈ s.reference, Name.referenceName r ∈ sources) :
    (s.assembleType parts).Given sources := by
  unfold assembleType
  split
  · rename_i r hr
    exact .ref (hs r hr)
  · split
    · rename_i branch branches _ _ hone
      exact .union (hone ▸ h.oneOf)
    · rename_i branch branches _ _ hany
      exact .union (hany ▸ h.anyOf)
    · rename_i type _ _ hall
      exact h.allOf type hall
    · split
      · exact given_stringType _
      · exact .leaf rfl rfl
      · exact .leaf rfl rfl
      · exact .leaf rfl rfl
      · exact .array h.items
      · exact given_looseType h

theorem given_bases (branches : List Schema) :
    ∀ t ∈ bases branches, t.Given (listReferences branches) := by
  induction branches with
  | nil => simp [bases]
  | cons branch rest ih =>
    intro t ht
    rw [bases, List.filterMap_cons] at ht
    have hrest : ∀ t ∈ bases rest, t.Given (listReferences (branch :: rest)) := fun t ht =>
      (ih t ht).mono (List.subset_append_right _ _)
    split at ht
    · exact hrest t ht
    · rename_i u hu
      rcases List.mem_cons.1 ht with rfl | ht
      · obtain ⟨r, hr, rfl⟩ := Option.map_eq_some_iff.1 hu
        exact .ref (List.mem_append_left _ (mem_references.2 (.inl ⟨r, hr, rfl⟩)))
      · exact hrest t ht

mutual

/-- **Types of schemas** are given by the references at any depth of the schema. -/
theorem given_resolve : (s : Schema) → s.resolve.Given s.references
  | { reference, kinds, format, title, description, properties, required, additional, items,
      allOf, oneOf, anyOf, enumeration, sample } => by
    have hone := given_resolveList oneOf
    have hany := given_resolveList anyOf
    have hitems := given_resolveItems items
    have hfields := given_resolveFields required properties
    have hadditional := given_resolveAdditional additional
    have hdrafts : ∀ d ∈ branchDrafts [] allOf, d.2.1.Given (listReferences allOf) :=
      given_branchDrafts allOf (fun _ h => h) [] (fun d hd => absurd hd List.not_mem_nil)
    have hmerged : ∀ fields : List Field, (∀ f ∈ fields, f.type.Given (listReferences allOf)) →
        ∀ t ∈ merged? (bases allOf) fields, t.Given (listReferences allOf) :=
      fun fields => given_merged (given_bases allOf)
    unfold resolve
    refine given_assembleType ⟨?_, ?_, ?_, ?_, ?_, ?_⟩ ?_
    · exact fun t ht => (hone t ht).mono (fun r hr => mem_references.2 (by simp [hr]))
    · exact fun t ht => (hany t ht).mono (fun r hr => mem_references.2 (by simp [hr]))
    · refine fun t ht => (hmerged _ ?_ t ht).mono (fun r hr => mem_references.2 (by simp [hr]))
      intro f hf
      obtain ⟨d, hd, rfl⟩ := List.mem_map.1 hf
      exact hdrafts d hd
    · exact hitems.mono (fun r hr => mem_references.2 (by simp [hr]))
    · exact fun f hf => (hfields f hf).mono (fun r hr => mem_references.2 (by simp [hr]))
    · exact fun t ht => (hadditional t ht).mono (fun r hr => mem_references.2 (by simp [hr]))
    · intro r hr
      exact mem_references.2 (.inl ⟨r, hr, rfl⟩)

theorem given_resolveList : (schemas : List Schema) →
    ∀ t ∈ resolveList schemas, t.Given (listReferences schemas)
  | [] => by simp [resolveList]
  | schema :: rest => by
    have hhere := given_resolve schema
    have hrest := given_resolveList rest
    intro t ht
    rcases List.mem_cons.1 ht with rfl | ht
    · exact hhere.mono (List.subset_append_left _ _)
    · exact (hrest t ht).mono (List.subset_append_right _ _)

/-- The type of the items of a list is given. -/
theorem given_resolveItems : (items : Option Schema) →
    (resolveItems items).Given (itemsReferences items)
  | none => .leaf rfl rfl
  | some schema => given_resolve schema

/-- The type of what may be given beside declared properties is given. -/
theorem given_resolveAdditional : (additional : Option Additional) →
    ∀ t ∈ resolveAdditional additional, t.Given (additionalReferences additional)
  | none => by simp [resolveAdditional]
  | some (.flag allowed) => by simp [resolveAdditional]
  | some (.schema schema) => by
    have hschema := given_resolve schema
    intro t ht
    obtain rfl := Option.some.inj ht
    exact hschema

theorem given_resolveFields (required : List String) : (properties : List (String × Schema)) →
    ∀ f ∈ resolveFields required properties, f.type.Given (namedReferences properties)
  | [] => by simp [resolveFields]
  | (name, schema) :: rest => by
    have hhere := given_resolve schema
    have hrest := given_resolveFields required rest
    intro f hf
    rcases List.mem_cons.1 hf with rfl | hf
    · exact hhere.mono (List.subset_append_left _ _)
    · exact (hrest f hf).mono (List.subset_append_right _ _)

theorem given_branchDrafts : (branches : List Schema) → {sources : List String} →
    listReferences branches ⊆ sources → (collected : Table Draft) →
    (∀ d ∈ collected, d.2.1.Given sources) →
    ∀ d ∈ branchDrafts collected branches, d.2.1.Given sources
  | [], _, _, _, h => h
  | { reference := some _, .. } :: rest, _, hsub, collected, h =>
    given_branchDrafts rest (fun _ hr => hsub (List.mem_append_right _ hr)) collected h
  | { reference := none, properties, .. } :: rest, _, hsub, collected, h => by
    have hproperties := given_propertyDrafts properties
      (fun r hr => hsub (List.mem_append_left _ (mem_references.2 (by simp [hr])))) collected h
    exact given_branchDrafts rest (fun _ hr => hsub (List.mem_append_right _ hr)) _ hproperties

theorem given_propertyDrafts : (properties : List (String × Schema)) →
    {sources : List String} → namedReferences properties ⊆ sources →
    (collected : Table Draft) → (∀ d ∈ collected, d.2.1.Given sources) →
    ∀ d ∈ propertyDrafts collected properties, d.2.1.Given sources
  | [], _, _, _, h => h
  | (name, schema) :: rest, _, hsub, collected, h => by
    have hhere := (given_resolve schema).mono (fun _ hr => hsub (List.mem_append_left _ hr))
    refine given_propertyDrafts rest (fun _ hr => hsub (List.mem_append_right _ hr)) _ ?_
    exact Table.forall_mem_insert (p := fun draft : Draft => draft.1.Given _) h name hhere

end

end Schema

end TypedClient
