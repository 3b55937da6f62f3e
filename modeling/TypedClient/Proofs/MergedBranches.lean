import TypedClient.Proofs.NameSets
import TypedClient.Proofs.TableChanges
import TypedClient.TypeExpr.Resolution

/-! # Merged branches

    The branches of an `allOf` give one type: the types that its references name,
    and behind them one object of all properties that its other branches declare.

    * **Names**: each property counts once, at its first place.
    * **Meaning**: the last branch that declares a property says what it is.
    * **Required** is what any branch with properties asks for, whichever of them
      the meaning is from.
    * **No branch** with a reference or properties, no type: all goes on as if there
      were no `allOf`.
-/

namespace TypedClient

/-! ### Tables from entries -/

namespace Table

variable {α : Type} {entries : List (String × α)} {key : String} {value : α}

/-- The keys of a table from entries are theirs, each at its first place. -/
theorem keys_ofEntries (entries : List (String × α)) :
    (ofEntries entries).keys = Name.distinct (entries.map (·.1)) := by
  have hrun : ∀ (rest : List (String × α)) (t : Table α),
      keys (rest.foldl (fun t entry => t.insert entry.1 entry.2) t)
        = NameSet.merge t.keys (rest.map (·.1)) := by
    intro rest
    induction rest with
    | nil => exact fun _ => rfl
    | cons entry rest ih =>
      intro t
      rw [List.foldl_cons, ih, keys_insert]
      rfl
  rw [← NameSet.ofNames_eq]
  exact hrun entries []

theorem nodup_keys_ofEntries (entries : List (String × α)) : (ofEntries entries).keys.Nodup :=
  keys_ofEntries entries ▸ Name.nodup_distinct _

/-- Where keys are distinct, an entry of a table is the one that is found. -/
theorem find?_eq_some_of_mem {t : Table α} (hkeys : t.keys.Nodup) (h : (key, value) ∈ t) :
    t.find? key = some value := by
  induction t with
  | nil => cases h
  | cons entry rest ih =>
    obtain ⟨k, v⟩ := entry
    obtain ⟨hk, hrest⟩ := List.nodup_cons.1 hkeys
    rcases List.mem_cons.1 h with heq | hmem
    · obtain ⟨rfl, rfl⟩ := Prod.mk.inj heq
      rw [find?, if_pos rfl]
    · have hne : k ≠ key := by
        rintro rfl
        exact hk (List.mem_map.2 ⟨_, hmem, rfl⟩)
      rw [find?, if_neg hne]
      exact ih hrest hmem

/-- The last entry of a key. -/
theorem exists_last (h : key ∈ entries.map (·.1)) :
    ∃ before value after, entries = before ++ (key, value) :: after
      ∧ key ∉ after.map (·.1) := by
  induction entries with
  | nil => cases h
  | cons entry rest ih =>
    by_cases hrest : key ∈ rest.map (·.1)
    · obtain ⟨before, value, after, rfl, hlast⟩ := ih hrest
      exact ⟨entry :: before, value, after, rfl, hlast⟩
    · rcases List.mem_cons.1 h with rfl | hmem
      · exact ⟨[], entry.2, rest, rfl, hrest⟩
      · exact absurd hmem hrest

end Table

namespace Schema

variable {branches : List Schema} {s schema : Schema} {name : String}

/-! ### What is merged -/

/-- A branch **contributes** if it has a reference, or properties. -/
def Contributes (branch : Schema) : Prop :=
  branch.reference ≠ none ∨ branch.properties ≠ []

/-- A branch is **inline** if it has properties and no reference. -/
def Inline (branch : Schema) : Prop :=
  branch.reference = none ∧ branch.properties ≠ []

/-- The properties of the branches without reference, in order. -/
def inlineProperties (branches : List Schema) : List (String × Schema) :=
  (branches.filter (fun branch => branch.reference.isNone)).flatMap (·.properties)

/-- The schema of a property in the last branch without reference that declares it. -/
def LastDeclared (branches : List Schema) (name : String) (schema : Schema) : Prop :=
  ∃ before branch after, branches = before ++ branch :: after ∧ branch.reference = none
    ∧ (∃ early late, branch.properties = early ++ (name, schema) :: late
      ∧ name ∉ late.map (·.1))
    ∧ ∀ other ∈ after, other.reference = none → name ∉ other.properties.map (·.1)

/-- The fields that branches are **merged** into. -/
structure MergedInto (branches : List Schema) (fields : List Field) : Prop where
  /-- One for each property, in the order of their first declarations. -/
  names : fields.map (·.name) = Name.distinct ((inlineProperties branches).map (·.1))
  /-- Type and description are those of the last declaration. -/
  latest : ∀ f ∈ fields, ∃ schema, LastDeclared branches f.name schema
    ∧ f.type = schema.resolve ∧ f.description = schema.description
  /-- It has to be given if any of the inline branches asks for it. -/
  required : ∀ f ∈ fields, f.required = true
    ↔ ∃ branch ∈ branches, branch.Inline ∧ f.name ∈ branch.required

/-- The types that the references of branches name, in order. -/
def baseTypes (branches : List Schema) : List TypeExpr :=
  (branches.filterMap (·.reference)).map
    (fun reference => .ref (Name.typeName (Name.referenceName reference)))

/-- The **members** of the type of branches. -/
inductive Members (branches : List Schema) : List TypeExpr → Prop where
  /-- Without an inline branch, the types of the references. -/
  | bases (h : ∀ branch ∈ branches, ¬ branch.Inline) : Members branches (baseTypes branches)
  /-- With one, an object is behind them. -/
  | withObject {fields : List Field} (h : ∃ branch ∈ branches, branch.Inline)
    (hfields : MergedInto branches fields) :
    Members branches (baseTypes branches ++ [.object fields])

/-- The type of members: a lone one stands by itself. -/
def together : List TypeExpr → TypeExpr
  | [only] => only
  | members => .intersection members

/-! ### Properties of branches -/

theorem inlineProperties_append (branches others : List Schema) :
    inlineProperties (branches ++ others)
      = inlineProperties branches ++ inlineProperties others := by
  rw [inlineProperties, List.filter_append, List.flatMap_append]
  rfl

theorem mem_inlineProperties {property : String × Schema} :
    property ∈ inlineProperties branches
      ↔ ∃ branch ∈ branches, branch.reference = none ∧ property ∈ branch.properties := by
  simp [inlineProperties, List.mem_flatMap, and_assoc]

theorem inlineProperties_eq_nil_iff :
    inlineProperties branches = [] ↔ ∀ branch ∈ branches, ¬ branch.Inline := by
  simp [inlineProperties, Inline]

/-- A property that is declared has a last declaration. -/
theorem exists_lastDeclared (h : name ∈ (inlineProperties branches).map (·.1)) :
    ∃ schema, LastDeclared branches name schema := by
  induction branches with
  | nil => cases h
  | cons branch rest ih =>
    by_cases hrest : name ∈ (inlineProperties rest).map (·.1)
    · obtain ⟨schema, before, last, after, rfl, hlast⟩ := ih hrest
      exact ⟨schema, branch :: before, last, after, rfl, hlast⟩
    · -- No branch behind declares it, so the first one does.
      have hbehind : ∀ other ∈ rest, other.reference = none →
          name ∉ other.properties.map (·.1) := by
        intro other hother hnone hdeclared
        obtain ⟨property, hproperty, rfl⟩ := List.mem_map.1 hdeclared
        exact hrest (List.mem_map_of_mem (mem_inlineProperties.2 ⟨other, hother, hnone, hproperty⟩))
      obtain ⟨property, hproperty, rfl⟩ := List.mem_map.1 h
      obtain ⟨other, hother, hnone, hdeclared⟩ := mem_inlineProperties.1 hproperty
      rcases List.mem_cons.1 hother with rfl | hother
      · obtain ⟨early, schema, late, hsplit, hlate⟩ :=
          Table.exists_last (List.mem_map_of_mem (f := (·.1)) hdeclared)
        exact ⟨schema, [], other, rest, rfl, hnone, ⟨early, late, hsplit, hlate⟩, hbehind⟩
      · exact absurd (List.mem_map_of_mem hdeclared) (hbehind other hother hnone)

/-- The last declaration of a property is the last of all that there are in order. -/
theorem LastDeclared.split (h : LastDeclared branches name schema) :
    ∃ early late, inlineProperties branches = early ++ (name, schema) :: late
      ∧ name ∉ late.map (·.1) := by
  obtain ⟨before, branch, after, rfl, hnone, ⟨early, late, hsplit, hlate⟩, hafter⟩ := h
  have hbranch : inlineProperties (branch :: after)
      = early ++ (name, schema) :: (late ++ inlineProperties after) := by
    rw [inlineProperties, List.filter_cons_of_pos (by rw [hnone]; rfl), List.flatMap_cons, hsplit,
      List.append_assoc]
    rfl
  refine ⟨inlineProperties before ++ early, late ++ inlineProperties after, ?_, ?_⟩
  · rw [inlineProperties_append, hbranch, List.append_assoc]
  · rw [List.map_append, List.mem_append, not_or]
    refine ⟨hlate, fun hmem => ?_⟩
    obtain ⟨property, hproperty, rfl⟩ := List.mem_map.1 hmem
    obtain ⟨other, hother, hothernone, hdeclared⟩ := mem_inlineProperties.1 hproperty
    exact hafter other hother hothernone (List.mem_map_of_mem hdeclared)

/-! ### Drafts -/

/-- The draft of a property. -/
def draftOf (property : String × Schema) : String × Draft :=
  (property.1, property.2.resolve, property.2.description)

theorem propertyDrafts_eq (collected : Table Draft) (properties : List (String × Schema)) :
    propertyDrafts collected properties
      = (properties.map draftOf).foldl (fun t entry => t.insert entry.1 entry.2) collected := by
  induction properties generalizing collected with
  | nil => rfl
  | cons property rest ih =>
    obtain ⟨name, schema⟩ := property
    rw [propertyDrafts, ih]
    rfl

/-- The drafts of branches are those of their properties, inserted one after the
    other. -/
theorem branchDrafts_eq (branches : List Schema) :
    branchDrafts [] branches = Table.ofEntries ((inlineProperties branches).map draftOf) := by
  have hrun : ∀ (rest : List Schema) (collected : Table Draft),
      branchDrafts collected rest = propertyDrafts collected (inlineProperties rest) := by
    intro rest
    induction rest with
    | nil => exact fun _ => rfl
    | cons branch rest ih =>
      intro collected
      obtain ⟨reference, kinds, format, title, description, properties, required, additional,
        items, allOf, oneOf, anyOf, enumeration, sample⟩ := branch
      cases reference with
      | some reference => exact ih collected
      | none =>
        rw [branchDrafts, ih, propertyDrafts_eq, propertyDrafts_eq, propertyDrafts_eq,
          ← List.foldl_append, ← List.map_append]
        rfl
  rw [hrun, propertyDrafts_eq, Table.ofEntries]

/-- What stands in the drafts of branches is the draft of a last declaration. -/
theorem exists_lastDeclared_of_mem {draft : String × Draft} (h : draft ∈ branchDrafts [] branches) :
    ∃ schema, LastDeclared branches draft.1 schema
      ∧ draft.2 = (schema.resolve, schema.description) := by
  obtain ⟨name, meaning⟩ := draft
  rw [branchDrafts_eq] at h
  have hkeys := Table.nodup_keys_ofEntries ((inlineProperties branches).map draftOf)
  have hname : name ∈ (inlineProperties branches).map (·.1) := by
    have hkey : name ∈ (Table.ofEntries ((inlineProperties branches).map draftOf)).keys :=
      List.mem_map.2 ⟨_, h, rfl⟩
    rw [Table.keys_ofEntries, Name.mem_distinct, List.map_map] at hkey
    exact hkey
  obtain ⟨schema, hlast⟩ := exists_lastDeclared hname
  obtain ⟨early, late, hsplit, hlate⟩ := hlast.split
  have hfound : (Table.ofEntries ((inlineProperties branches).map draftOf)).find? name
      = some (schema.resolve, schema.description) := by
    rw [hsplit, List.map_append, List.map_cons]
    refine Table.find?_ofEntries_of_last (fun hmem => hlate ?_) _
    rwa [Table.keys, List.map_map] at hmem
  exact ⟨schema, hlast, Option.some.inj ((Table.find?_eq_some_of_mem hkeys h).symm.trans hfound)⟩

/-! ### Fields -/

/-- The fields that the branches of an `allOf` add up to. -/
def mergedFields (branches : List Schema) : List Field :=
  (branchDrafts [] branches).map (fun draft =>
    ⟨draft.1, draft.2.1, (branchRequired branches).contains draft.1, draft.2.2⟩)

theorem addsProperties_iff {branch : Schema} : addsProperties branch = true ↔ branch.Inline := by
  simp [addsProperties, Inline]

theorem mem_branchRequired :
    name ∈ branchRequired branches
      ↔ ∃ branch ∈ branches, branch.Inline ∧ name ∈ branch.required := by
  simp only [branchRequired, List.mem_flatMap, List.mem_filter, addsProperties_iff, and_assoc]

theorem map_name_mergedFields (branches : List Schema) :
    (mergedFields branches).map (·.name)
      = Name.distinct ((inlineProperties branches).map (·.1)) := by
  have hkeys := Table.keys_ofEntries ((inlineProperties branches).map draftOf)
  rw [← branchDrafts_eq, List.map_map] at hkeys
  rw [mergedFields, List.map_map]
  exact hkeys

/-- The fields are what the branches are merged into. -/
theorem mergedInto_mergedFields (branches : List Schema) :
    MergedInto branches (mergedFields branches) where
  names := map_name_mergedFields branches
  latest := by
    intro f hf
    obtain ⟨draft, hdraft, rfl⟩ := List.mem_map.1 hf
    obtain ⟨schema, hlast, hmeaning⟩ := exists_lastDeclared_of_mem hdraft
    exact ⟨schema, hlast, congrArg Prod.fst hmeaning, congrArg Prod.snd hmeaning⟩
  required := by
    intro f hf
    obtain ⟨draft, -, rfl⟩ := List.mem_map.1 hf
    rw [← mem_branchRequired]
    exact List.contains_iff_mem

theorem mergedFields_eq_nil_iff :
    mergedFields branches = [] ↔ ∀ branch ∈ branches, ¬ branch.Inline := by
  rw [← inlineProperties_eq_nil_iff]
  have hnames := map_name_mergedFields branches
  constructor
  · intro hnil
    rw [hnil] at hnames
    rw [List.eq_nil_iff_forall_not_mem]
    intro property hproperty
    have hmem := Name.mem_distinct.2 (List.mem_map_of_mem (f := (·.1)) hproperty)
    rw [← hnames] at hmem
    cases hmem
  · intro hnil
    rw [hnil] at hnames
    exact List.map_eq_nil_iff.1 hnames

/-! ### The type of an `allOf` -/

theorem bases_eq (branches : List Schema) : bases branches = baseTypes branches := by
  rw [bases, baseTypes, List.map_filterMap]
  rfl

theorem baseTypes_eq_nil_iff :
    baseTypes branches = [] ↔ ∀ branch ∈ branches, branch.reference = none := by
  rw [baseTypes, List.map_eq_nil_iff, List.filterMap_eq_nil_iff]

/-- Branches of which none contributes have no type. -/
theorem merged?_of_none (h : ∀ branch ∈ branches, ¬ branch.Contributes) :
    merged? (bases branches) (mergedFields branches) = none := by
  have hbases : baseTypes branches = [] := baseTypes_eq_nil_iff.2 fun branch hbranch =>
    Classical.byContradiction fun hreference => h branch hbranch (.inl hreference)
  have hfields : mergedFields branches = [] :=
    mergedFields_eq_nil_iff.2 fun branch hbranch hinline => h branch hbranch (.inr hinline.2)
  rw [bases_eq, hbases, hfields]
  rfl

/-- If one of them contributes, they have the type of their members. -/
theorem exists_members (h : ∃ branch ∈ branches, branch.Contributes) :
    ∃ members, Members branches members
      ∧ merged? (bases branches) (mergedFields branches) = some (together members) := by
  rw [bases_eq]
  by_cases hinline : ∃ branch ∈ branches, branch.Inline
  · refine ⟨_, .withObject hinline (mergedInto_mergedFields branches), ?_⟩
    have hfields : mergedFields branches ≠ [] := fun hnil =>
      have ⟨branch, hbranch, hhere⟩ := hinline
      mergedFields_eq_nil_iff.1 hnil branch hbranch hhere
    obtain ⟨field, fields, heq⟩ := List.exists_cons_of_ne_nil hfields
    rw [heq]
    rcases baseTypes branches with _ | ⟨base, _ | ⟨other, rest⟩⟩ <;> rfl
  · have hnone : ∀ branch ∈ branches, ¬ branch.Inline := fun branch hbranch hhere =>
      hinline ⟨branch, hbranch, hhere⟩
    refine ⟨_, .bases hnone, ?_⟩
    obtain ⟨branch, hbranch, hcontributes⟩ := h
    have hbases : baseTypes branches ≠ [] := by
      intro hnil
      have hreference := baseTypes_eq_nil_iff.1 hnil branch hbranch
      rcases hcontributes with hsome | hproperties
      · exact hsome hreference
      · exact hnone branch hbranch ⟨hreference, hproperties⟩
    rw [mergedFields_eq_nil_iff.2 hnone]
    obtain ⟨base, rest, heq⟩ := List.exists_cons_of_ne_nil hbases
    rw [heq]
    cases rest <;> rfl

/-- What is known of a schema once its parts have types. -/
def parts (s : Schema) : Parts :=
  { oneOf := resolveList s.oneOf
    anyOf := resolveList s.anyOf
    allOf := merged? (bases s.allOf) (mergedFields s.allOf)
    items := resolveItems s.items
    fields := resolveFields s.required s.properties
    additional := resolveAdditional s.additional }

theorem resolve_eq_assembleType (s : Schema) : s.resolve = s.assembleType s.parts := by
  cases s
  rw [resolve]
  rfl

/-- Where `allOf` is the keyword that decides, the type of the branches is that of the
    schema; where they have none, `allOf` might as well be missing. -/
theorem resolve_eq_merged (hreference : s.reference = none) (hone : s.oneOf = [])
    (hany : s.anyOf = []) :
    s.resolve = (merged? (bases s.allOf) (mergedFields s.allOf)).getD
      ({ s with allOf := [] } : Schema).resolve := by
  have hbare : ({ s with allOf := [] } : Schema).resolve
      = s.assembleType { s.parts with allOf := none } := by
    rw [resolve_eq_assembleType]
    rfl
  have honeParts : s.parts.oneOf = [] := by rw [parts, hone, resolveList]
  have hanyParts : s.parts.anyOf = [] := by rw [parts, hany, resolveList]
  rw [hbare, resolve_eq_assembleType, assembleType, assembleType, hreference]
  simp only [honeParts, hanyParts]
  show _ = s.parts.allOf.getD _
  cases s.parts.allOf <;> rfl

/-- **Merging** is what an `allOf` does where it decides: if a branch contributes, the
    type of the schema is that of the members, together if there are several. If
    none does, the type is the one without `allOf`. -/
theorem allOf_merged (hreference : s.reference = none) (hone : s.oneOf = []) (hany : s.anyOf = []) :
    ((∃ branch ∈ s.allOf, branch.Contributes) →
        ∃ members, Members s.allOf members ∧ s.resolve = together members)
      ∧ ((∀ branch ∈ s.allOf, ¬ branch.Contributes) →
        s.resolve = ({ s with allOf := [] } : Schema).resolve) := by
  have htype := resolve_eq_merged hreference hone hany
  constructor
  · intro hcontributes
    obtain ⟨members, hmembers, hmerged⟩ := exists_members hcontributes
    rw [hmerged, Option.getD_some] at htype
    exact ⟨members, hmembers, htype⟩
  · intro hnone
    rwa [merged?_of_none hnone, Option.getD_none] at htype

/-- A base twice, and a property that is declared twice: first with the place, then
    with the meaning. -/
def mergeSample : Schema :=
  { allOf := [
      { reference := some "#/definitions/Base" },
      { properties := [("id", { kinds := some (.single .integer) }),
          ("name", { kinds := some (.single .string) })]
        required := ["id"] },
      { reference := some "#/definitions/Base" },
      { properties := [("id", { kinds := some (.single .string), description := some "key" })] }] }

theorem allOf_merged_sample :
    mergeSample.reference = none ∧ mergeSample.oneOf = [] ∧ mergeSample.anyOf = []
      ∧ (∃ branch ∈ mergeSample.allOf, branch.Contributes)
      ∧ ∃ members, Members mergeSample.allOf members ∧ mergeSample.resolve = together members := by
  have hcontributes : ∃ branch ∈ mergeSample.allOf, branch.Contributes :=
    ⟨_, List.mem_cons_self, .inl (Option.some_ne_none _)⟩
  exact ⟨rfl, rfl, rfl, hcontributes, (allOf_merged rfl rfl rfl).1 hcontributes⟩

example : mergeSample.resolve = .intersection [.ref "Base", .ref "Base", .object
    [⟨"id", .string, true, some "key"⟩, ⟨"name", .string, false, none⟩]] := by
  rfl

end Schema

end TypedClient
