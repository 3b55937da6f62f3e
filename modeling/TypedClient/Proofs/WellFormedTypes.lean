import TypedClient.Client.Declaration
import TypedClient.Proofs.MergedBranches
import TypedClient.Proofs.SchemaPlaces
import TypedClient.Proofs.SettledNames
import TypedClient.Proofs.TrackedTypes

/-! # Well-formed types

    The type of a schema is put together in several places, under a precedence of
    keywords. At no depth of it is there a type that says nothing by accident.

    * **Proper** types: a union has members, an intersection has several, an object has
      fields of distinct names, and a name is the type name that it has itself.
    * **Parts**: a type is well formed if it is proper, and all its parts are well
      formed. So each place that puts types together is looked at alone.
    * **Distinct names** of properties are what a schema brings. Whatever is read has
      them at every depth.
-/

namespace TypedClient

/-! ### Well-formed types -/

namespace TypeExpr

variable {t : TypeExpr}

/-- A type is a **part** of another one if that is made of it. -/
inductive IsPart : TypeExpr → TypeExpr → Prop where
  | item {item : TypeExpr} : IsPart item (.array item)
  | value {value : TypeExpr} : IsPart value (.record value)
  | field {f : Field} {fields : List Field} (h : f ∈ fields) : IsPart f.type (.object fields)
  /-- A member of a union. -/
  | alternative {member : TypeExpr} {members : List TypeExpr} (h : member ∈ members) :
    IsPart member (.union members)
  /-- A member of an intersection. -/
  | factor {member : TypeExpr} {members : List TypeExpr} (h : member ∈ members) :
    IsPart member (.intersection members)

/-- A list of **factors**: two at least, and all of them names, except that the last one
    may be an object. -/
def AreFactors (members : List TypeExpr) : Prop :=
  ∃ bases last, members = bases ++ [last] ∧ bases ≠ [] ∧ (∀ base ∈ bases, ∃ name, base = .ref name)
    ∧ ((∃ name, last = .ref name) ∨ ∃ fields, last = .object fields)

/-- **Proper** types, whatever their parts are. -/
def Proper : TypeExpr → Prop
  | .union members => members ≠ []
  | .intersection members => AreFactors members
  | .object fields => fields ≠ [] ∧ (fields.map (·.name)).Nodup
  | .ref name => Name.isPlain name = true ∧ Name.typeName name = name
  | _ => True

/-- Whether a type is neither a name nor made of other types. -/
def isBasic : TypeExpr → Bool
  | .string | .number | .boolean | .unknown | .any | .stringLiteral _ | .literal _ => true
  | _ => false

/-- A type is **well formed** if it is proper at every depth. -/
def WellFormed (t : TypeExpr) : Prop :=
  ∀ part, Relation.ReflTransGen IsPart part t → part.Proper

/-- **One level**: a type is well formed if it is proper and its parts are well formed. -/
theorem wellFormed_iff :
    t.WellFormed ↔ t.Proper ∧ ∀ part, IsPart part t → part.WellFormed := by
  constructor
  · intro h
    exact ⟨h t .refl, fun part hpart deep hdeep => h deep (hdeep.tail hpart)⟩
  · rintro ⟨hproper, hparts⟩ deep hdeep
    rcases Relation.ReflTransGen.cases_tail hdeep with rfl | ⟨part, hdeep, hpart⟩
    · exact hproper
    · exact hparts part hpart deep hdeep

namespace WellFormed

/-- A proper type without parts is well formed. -/
theorem leaf (h : t.Proper) (hparts : ∀ part, ¬ IsPart part t) : t.WellFormed :=
  wellFormed_iff.2 ⟨h, fun part hpart => absurd hpart (hparts part)⟩

theorem of_isBasic (h : t.isBasic = true) : t.WellFormed := by
  have hparts : ∀ part, ¬ IsPart part t := by
    intro part hpart
    cases hpart <;> cases h
  cases t <;> first | exact leaf trivial hparts | cases h

theorem ref (key : String) : (TypeExpr.ref (Name.typeName key)).WellFormed := by
  refine leaf ⟨(Name.isIdentifier_typeName key).plain, ?_⟩ (fun _ h => by cases h)
  rw [Name.typeName, Name.typeName, String.toList_ofList, Name.typeChars_typeChars]

theorem array (h : t.WellFormed) : (TypeExpr.array t).WellFormed := by
  refine wellFormed_iff.2 ⟨trivial, fun part hpart => ?_⟩
  cases hpart
  exact h

theorem record (h : t.WellFormed) : (TypeExpr.record t).WellFormed := by
  refine wellFormed_iff.2 ⟨trivial, fun part hpart => ?_⟩
  cases hpart
  exact h

theorem object {fields : List Field} (hne : fields ≠ []) (hnames : (fields.map (·.name)).Nodup)
    (h : ∀ f ∈ fields, f.type.WellFormed) : (TypeExpr.object fields).WellFormed := by
  refine wellFormed_iff.2 ⟨⟨hne, hnames⟩, fun part hpart => ?_⟩
  cases hpart with
  | field hf => exact h _ hf

theorem union {members : List TypeExpr} (hne : members ≠ [])
    (h : ∀ member ∈ members, member.WellFormed) : (TypeExpr.union members).WellFormed := by
  refine wellFormed_iff.2 ⟨hne, fun part hpart => ?_⟩
  cases hpart with
  | alternative hmember => exact h _ hmember

theorem intersection {members : List TypeExpr} (hfactors : AreFactors members)
    (h : ∀ member ∈ members, member.WellFormed) : (TypeExpr.intersection members).WellFormed := by
  refine wellFormed_iff.2 ⟨hfactors, fun part hpart => ?_⟩
  cases hpart with
  | factor hmember => exact h _ hmember

end WellFormed

end TypeExpr

/-! ### Distinct names of properties -/

namespace Schema

open TypeExpr (WellFormed AreFactors)

variable {s part : Schema}

/-- A schema has **distinct names** if no two properties of one schema in it, at any
    depth, are called the same. -/
def DistinctNames (s : Schema) : Prop :=
  ∀ part, Relation.ReflTransGen IsPart part s → (part.properties.map (·.1)).Nodup

theorem DistinctNames.of_part (h : s.DistinctNames) (hpart : IsPart part s) : part.DistinctNames :=
  fun deep hdeep => h deep (hdeep.tail hpart)

/-- **One level** of distinct names, part by part. -/
structure DistinctWithin (s : Schema) : Prop where
  names : (s.properties.map (·.1)).Nodup
  /-- Those of the declared properties. -/
  properties : ∀ property ∈ s.properties, property.2.DistinctNames
  items : ∀ part, s.items = some part → part.DistinctNames
  /-- Those of what may be given beside the declared properties. -/
  additional : ∀ part, s.additional = some (.schema part) → part.DistinctNames
  allOf : ∀ part ∈ s.allOf, part.DistinctNames
  /-- Those of the `oneOf` branches. -/
  oneOf : ∀ part ∈ s.oneOf, part.DistinctNames
  anyOf : ∀ part ∈ s.anyOf, part.DistinctNames

theorem DistinctWithin.distinctNames (h : s.DistinctWithin) : s.DistinctNames := by
  intro deep hdeep
  rcases Relation.ReflTransGen.cases_tail hdeep with rfl | ⟨part, hdeep, hpart⟩
  · exact h.names
  · cases hpart with
    | property hmem => exact h.properties _ hmem deep hdeep
    | items heq => exact h.items _ heq deep hdeep
    | additional heq => exact h.additional _ heq deep hdeep
    | allOf hmem => exact h.allOf _ hmem deep hdeep
    | oneOf hmem => exact h.oneOf _ hmem deep hdeep
    | anyOf hmem => exact h.anyOf _ hmem deep hdeep

/-- The schema that says nothing. -/
theorem distinctWithin_empty : DistinctWithin {} where
  names := List.nodup_nil
  properties := by simp
  items := by simp
  additional := by simp
  allOf := by simp
  oneOf := by simp
  anyOf := by simp

end Schema

/-! ### What is read -/

/-- A JSON value with **distinct names** of members, at every depth. -/
inductive Json.DistinctNames : Json → Prop where
  | null : DistinctNames .null
  | bool (value : Bool) : DistinctNames (.bool value)
  | number (value : Number) : DistinctNames (.number value)
  | string (value : String) : DistinctNames (.string value)
  | array {items : List Json} (h : ∀ item ∈ items, DistinctNames item) :
    DistinctNames (.array items)
  | object {members : List (String × Json)} (hnames : (members.map (·.1)).Nodup)
    (h : ∀ member ∈ members, DistinctNames member.2) : DistinctNames (.object members)

theorem Json.distinctNames_ofFloat (x : Float) : (Json.ofFloat x).DistinctNames := by
  unfold Json.ofFloat
  split
  · exact .number _
  · exact .null

namespace Datum

mutual

/-- A JSON value of a datum has distinct names, as a repeated name takes the place of
    the one before. -/
theorem distinctNames_of_toJson? : (d : Datum) → {json : Json} → d.toJson? = some json →
    json.DistinctNames
  | .null, _, h => by obtain rfl := Option.some.inj h; exact .null
  | .bool b, _, h => by obtain rfl := Option.some.inj h; exact .bool b
  | .natural _, _, h => by obtain rfl := Option.some.inj h; exact .number _
  | .signed _, _, h => by obtain rfl := Option.some.inj h; exact .number _
  | .float x, _, h => by obtain rfl := Option.some.inj h; exact Json.distinctNames_ofFloat x
  | .string s, _, h => by obtain rfl := Option.some.inj h; exact .string s
  | .sequence items, _, h => by
    obtain ⟨values, hvalues, rfl⟩ := Option.map_eq_some_iff.1 h
    exact .array (distinctNames_of_itemsToJson? items hvalues)
  | .map entries, _, h => by
    obtain ⟨members, hmembers, rfl⟩ := Option.map_eq_some_iff.1 h
    have hnone : (([] : List (String × Json)).map (·.1)).Nodup := List.nodup_nil
    obtain ⟨hnames, hvalues⟩ := distinctNames_of_entriesToJson? entries hnone
      (fun _ h => absurd h List.not_mem_nil) hmembers
    exact .object hnames hvalues

theorem distinctNames_of_itemsToJson? : (items : List Datum) → {values : List Json} →
    itemsToJson? items = some values → ∀ value ∈ values, value.DistinctNames
  | [], _, h => by
    obtain rfl := Option.some.inj h
    exact fun _ h => absurd h List.not_mem_nil
  | item :: rest, _, h => by
    obtain ⟨value, hvalue, hrest⟩ := Option.bind_eq_some_iff.1 h
    obtain ⟨values, hvalues, heq⟩ := Option.bind_eq_some_iff.1 hrest
    obtain rfl := Option.some.inj heq
    exact List.forall_mem_cons.2
      ⟨distinctNames_of_toJson? item hvalue, distinctNames_of_itemsToJson? rest hvalues⟩

theorem distinctNames_of_entriesToJson? : (entries : List (Datum × Datum)) →
    {before members : List (String × Json)} → (before.map (·.1)).Nodup →
    (∀ member ∈ before, member.2.DistinctNames) →
    entriesToJson? before entries = some members →
    (members.map (·.1)).Nodup ∧ ∀ member ∈ members, member.2.DistinctNames
  | [], _, _, hnames, hvalues, h => by
    obtain rfl := Option.some.inj h
    exact ⟨hnames, hvalues⟩
  | (.string name, d) :: rest, before, _, hnames, hvalues, h => by
    obtain ⟨value, hvalue, hrest⟩ := Option.bind_eq_some_iff.1 h
    have hhere := distinctNames_of_toJson? d hvalue
    refine distinctNames_of_entriesToJson? rest ?_ ?_ hrest
    · exact Table.nodup_keys_insert hnames name value
    · exact Table.forall_mem_insert hvalues name hhere
  | (.null, _) :: _, _, _, _, _, h => by cases h
  | (.bool _, _) :: _, _, _, _, _, h => by cases h
  | (.natural _, _) :: _, _, _, _, _, h => by cases h
  | (.signed _, _) :: _, _, _, _, _, h => by cases h
  | (.float _, _) :: _, _, _, _, _, h => by cases h
  | (.sequence _, _) :: _, _, _, _, _, h => by cases h
  | (.map _, _) :: _, _, _, _, _, h => by cases h

end

end Datum

namespace Schema

open TypeExpr (WellFormed AreFactors)

variable {s part : Schema} {json : Json}

/-- Whatever a JSON value is **read** as has distinct names. -/
structure ReadDistinct (json : Json) : Prop where
  node : (ofJson json).DistinctNames
  /-- As a collection of named schemas. -/
  named : ((namedOf json).map (·.1)).Nodup ∧ ∀ property ∈ namedOf json, property.2.DistinctNames
  list : ∀ schema ∈ listOf json, schema.DistinctNames
  /-- As what may be given beside declared properties. -/
  additional : ∀ schema, additionalOf json = .schema schema → schema.DistinctNames

/-- **The step**: a keyword adds what its value is read as. -/
theorem DistinctWithin.withKeyword (h : s.DistinctWithin) (hjson : ReadDistinct json)
    (keyword : String) : (s.withKeyword keyword json).DistinctWithin := by
  unfold Schema.withKeyword
  split
  case h_6 => exact { h with names := hjson.named.1, properties := hjson.named.2 }
  case h_8 =>
    exact { h with additional := fun schema heq => hjson.additional schema (Option.some.inj heq) }
  case h_9 => exact { h with items := fun schema heq => Option.some.inj heq ▸ hjson.node }
  case h_10 => exact { h with allOf := hjson.list }
  case h_11 => exact { h with oneOf := hjson.list }
  case h_12 => exact { h with anyOf := hjson.list }
  all_goals exact { h with }

theorem distinctWithin_ofMembers {members : List (String × Json)}
    (h : ∀ member ∈ members, ReadDistinct member.2) : (ofMembers members).DistinctWithin := by
  induction members with
  | nil => exact distinctWithin_empty
  | cons member rest ih =>
    obtain ⟨hmember, hrest⟩ := List.forall_mem_cons.1 h
    obtain ⟨keyword, value⟩ := member
    rw [ofMembers_cons]
    exact (ih hrest).withKeyword hmember keyword

theorem namedOfMembers_eq_map (members : List (String × Json)) :
    namedOfMembers members = members.map (fun member => (member.1, ofJson member.2)) := by
  induction members with
  | nil => rfl
  | cons member rest ih =>
    rw [namedOfMembers, ih]
    rfl

theorem listOfItems_eq_map (items : List Json) : listOfItems items = items.map ofJson := by
  induction items with
  | nil => rfl
  | cons item rest ih =>
    rw [listOfItems, ih]
    rfl

/-- What is no list, no object and no truth value is read as a schema that says
    nothing. -/
theorem readDistinct_of_leaf (hnode : ofJson json = {}) (hnamed : namedOf json = [])
    (hlist : listOf json = []) (hadditional : ∀ schema, additionalOf json = .schema schema →
      schema = {}) : ReadDistinct json where
  node := hnode ▸ distinctWithin_empty.distinctNames
  named := by
    rw [hnamed]
    exact ⟨List.nodup_nil, fun _ h => absurd h List.not_mem_nil⟩
  list := by simp [hlist]
  additional := fun schema h => hadditional schema h ▸ distinctWithin_empty.distinctNames

/-- **Reading** keeps names distinct. -/
theorem readDistinct_of_distinctNames (h : json.DistinctNames) : ReadDistinct json := by
  have hleaf : ∀ schema : Schema, Additional.schema {} = .schema schema → schema = {} :=
    fun schema heq => (Additional.schema.inj heq).symm
  induction h with
  | null => exact readDistinct_of_leaf rfl rfl rfl hleaf
  | bool value => exact readDistinct_of_leaf rfl rfl rfl (fun _ h => by cases h)
  | number value => exact readDistinct_of_leaf rfl rfl rfl hleaf
  | string value => exact readDistinct_of_leaf rfl rfl rfl hleaf
  | array h ih =>
    have hnull : ReadDistinct .null := readDistinct_of_leaf rfl rfl rfl hleaf
    refine { hnull with list := ?_ }
    intro schema hschema
    rw [listOf, listOfItems_eq_map] at hschema
    obtain ⟨item, hitem, rfl⟩ := List.mem_map.1 hschema
    exact (ih item hitem).node
  | @object members hnames h ih =>
    have hnode : (ofMembers members).DistinctNames := (distinctWithin_ofMembers ih).distinctNames
    refine ⟨hnode, ?_, fun _ h => absurd h List.not_mem_nil, fun schema heq => ?_⟩
    · rw [namedOf, namedOfMembers_eq_map, List.map_map]
      refine ⟨hnames, fun property hproperty => ?_⟩
      obtain ⟨member, hmember, rfl⟩ := List.mem_map.1 hproperty
      exact (ih member hmember).node
    · exact Additional.schema.inj heq ▸ hnode

/-- A schema that is read has distinct names. -/
theorem distinctNames_of_ofDatum? {d : Datum} (h : ofDatum? d = some s) : s.DistinctNames := by
  obtain ⟨json, hjson, rfl⟩ := Option.map_eq_some_iff.1 h
  exact (readDistinct_of_distinctNames (Datum.distinctNames_of_toJson? d hjson)).node

/-! ### Putting types together -/

theorem mem_resolveList {schemas : List Schema} {t : TypeExpr} :
    t ∈ resolveList schemas ↔ ∃ schema ∈ schemas, schema.resolve = t := by
  induction schemas with
  | nil => simp [resolveList]
  | cons schema rest ih => simp [resolveList, ih, eq_comm]

theorem map_name_resolveFields (required : List String) (properties : List (String × Schema)) :
    (resolveFields required properties).map (·.name) = properties.map (·.1) := by
  induction properties with
  | nil => rfl
  | cons property rest ih =>
    obtain ⟨name, schema⟩ := property
    rw [resolveFields, List.map_cons, ih]
    rfl

theorem exists_of_mem_resolveFields {required : List String} {properties : List (String × Schema)}
    {f : Field} (h : f ∈ resolveFields required properties) :
    ∃ property ∈ properties, f.type = property.2.resolve := by
  induction properties with
  | nil => cases h
  | cons property rest ih =>
    obtain ⟨name, schema⟩ := property
    rcases List.mem_cons.1 h with rfl | h
    · exact ⟨_, List.mem_cons_self, rfl⟩
    · obtain ⟨other, hother, htype⟩ := ih h
      exact ⟨other, List.mem_cons_of_mem _ hother, htype⟩

theorem wellFormed_stringType (values : List Json) : (stringType values).WellFormed := by
  cases values with
  | nil => exact .of_isBasic rfl
  | cons value values =>
    refine .union (List.cons_ne_nil _ _) fun member hmember => ?_
    obtain ⟨_, -, rfl⟩ := List.mem_map.1 hmember
    exact .of_isBasic rfl

theorem wellFormed_bareLiteral (value : Json) : (bareLiteral value).WellFormed := by
  unfold bareLiteral
  split
  · exact .of_isBasic rfl
  · exact .of_isBasic rfl

/-- **Branches together**: a lone base stands by itself, and an object stands behind
    the bases, if there are any. -/
theorem wellFormed_of_merged? {bases : List TypeExpr} {fields : List Field} {t : TypeExpr}
    (hbases : ∀ base ∈ bases, ∃ key, base = .ref (Name.typeName key))
    (hnames : (fields.map (·.name)).Nodup) (hfields : ∀ f ∈ fields, f.type.WellFormed)
    (h : merged? bases fields = some t) : t.WellFormed := by
  have hbase : ∀ base ∈ bases, base.WellFormed := by
    intro base hmem
    obtain ⟨key, rfl⟩ := hbases base hmem
    exact .ref key
  have hname : ∀ base ∈ bases, ∃ name, base = .ref name := fun base hmem =>
    have ⟨key, heq⟩ := hbases base hmem
    ⟨_, heq⟩
  unfold merged? at h
  -- Nothing, an object alone, a base alone, several bases, and bases with an object.
  split at h
  · cases h
  · obtain rfl := Option.some.inj h
    exact .object (List.cons_ne_nil _ _) hnames hfields
  · obtain rfl := Option.some.inj h
    exact hbase _ List.mem_cons_self
  · rename_i hnil hlone
    obtain rfl := Option.some.inj h
    refine .intersection ?_ hbase
    rcases List.eq_nil_or_concat bases with rfl | ⟨front, last, rfl⟩
    · exact absurd rfl hnil
    · rw [List.concat_eq_append] at hname hlone ⊢
      have hfront : front ≠ [] := by
        rintro rfl
        exact hlone last rfl
      exact ⟨front, last, rfl, hfront, fun base hmem => hname base (List.mem_append_left _ hmem),
        .inl (hname last (List.mem_append_right _ List.mem_cons_self))⟩
  · rename_i field rest hnone
    obtain rfl := Option.some.inj h
    have hobject : (TypeExpr.object (field :: rest)).WellFormed :=
      .object (List.cons_ne_nil _ _) hnames hfields
    refine .intersection ⟨bases, _, rfl, hnone, hname, .inr ⟨_, rfl⟩⟩ fun member hmember => ?_
    rcases List.mem_append.1 hmember with hmember | hmember
    · exact hbase member hmember
    · exact List.mem_singleton.1 hmember ▸ hobject

/-- Where the kind of a schema decides nothing, its type is that of its allowed values
    or properties. -/
theorem wellFormed_looseType (hs : s.DistinctNames)
    (ih : ∀ part, Relation.TransGen IsPart part s → part.resolve.WellFormed) :
    (s.looseType s.parts).WellFormed := by
  unfold looseType
  split
  · split
    · exact wellFormed_stringType _
    · refine .union (List.cons_ne_nil _ _) fun member hmember => ?_
      obtain ⟨value, -, rfl⟩ := List.mem_map.1 hmember
      exact wellFormed_bareLiteral value
  · split
    · rename_i field fields hfields
      have hproperties : resolveFields s.required s.properties = field :: fields := hfields
      refine .object (List.cons_ne_nil _ _) ?_ fun f hf => ?_
      · rw [← hproperties, map_name_resolveFields]
        exact hs s .refl
      · obtain ⟨property, hmem, htype⟩ := exists_of_mem_resolveFields (hproperties ▸ hf)
        exact htype ▸ ih _ (.single (.property hmem))
    · split
      · show (recordOf (resolveAdditional s.additional)).WellFormed
        have hany : (TypeExpr.record .any).WellFormed :=
          .record (.of_isBasic rfl)
        cases hadditional : s.additional with
        | none => exact hany
        | some additional =>
          cases additional with
          | flag allowed => exact hany
          | schema schema => exact .record (ih schema (.single (.additional hadditional)))
      · exact .of_isBasic rfl

/-- The type of the branches of an `allOf`. The properties are parts of parts. -/
theorem wellFormed_of_allOf (ih : ∀ part, Relation.TransGen IsPart part s → part.resolve.WellFormed)
    {t : TypeExpr} (h : s.parts.allOf = some t) : t.WellFormed := by
  have hmerged := mergedInto_mergedFields s.allOf
  refine wellFormed_of_merged? (fun base hbase => ?_) ?_ (fun f hf => ?_) h
  · rw [bases_eq] at hbase
    obtain ⟨reference, -, rfl⟩ := List.mem_map.1 hbase
    exact ⟨_, rfl⟩
  · rw [hmerged.names]
    exact Name.nodup_distinct _
  · obtain ⟨schema, hlast, htype, -⟩ := hmerged.latest f hf
    obtain ⟨before, branch, after, hsplit, -, ⟨early, late, hproperties, -⟩, -⟩ := hlast
    have hbranch : IsPart branch s := .allOf (hsplit ▸ List.mem_append_right _ List.mem_cons_self)
    have hproperty : IsPart schema branch :=
      .property (hproperties ▸ List.mem_append_right _ List.mem_cons_self)
    exact htype ▸ ih schema (.tail (.single hproperty) hbranch)

/-- **The step**: where the types of all that is in a schema are well formed, its own
    type is. -/
theorem wellFormed_step (hs : s.DistinctNames)
    (ih : ∀ part, Relation.TransGen IsPart part s → part.resolve.WellFormed) :
    s.resolve.WellFormed := by
  -- Both kinds of branches become a union, and only if there are any.
  have hlist : ∀ schemas, (∀ schema ∈ schemas, IsPart schema s) → ∀ branch branches,
      resolveList schemas = branch :: branches →
      (TypeExpr.union (branch :: branches)).WellFormed := by
    intro schemas hparts branch branches heq
    refine .union (List.cons_ne_nil _ _) fun member hmember => ?_
    obtain ⟨schema, hschema, rfl⟩ := mem_resolveList.1 (heq ▸ hmember)
    exact ih schema (.single (hparts schema hschema))
  rw [resolve_eq_assembleType]
  unfold assembleType
  split
  · exact .ref _
  · split
    · rename_i hone
      exact hlist s.oneOf (fun _ h => .oneOf h) _ _ hone
    · rename_i hany
      exact hlist s.anyOf (fun _ h => .anyOf h) _ _ hany
    · rename_i hall
      exact wellFormed_of_allOf ih hall
    · split
      · exact wellFormed_stringType _
      · exact .of_isBasic rfl
      · exact .of_isBasic rfl
      · exact .of_isBasic rfl
      · refine .array ?_
        show (resolveItems s.items).WellFormed
        cases hitems : s.items with
        | none => exact .of_isBasic rfl
        | some schema => exact ih schema (.single (.items hitems))
      · exact wellFormed_looseType hs ih

theorem sizeOf_lt_of_transGen (h : Relation.TransGen IsPart part s) : sizeOf part < sizeOf s := by
  induction h with
  | single hpart => exact sizeOf_lt_of_isPart hpart
  | tail _ hpart ih => exact Nat.lt_trans ih (sizeOf_lt_of_isPart hpart)

/-- **The run**: types of schemas are well formed. -/
theorem wellFormed_resolve (s : Schema) (h : s.DistinctNames) : s.resolve.WellFormed := by
  refine wellFormed_step h fun part hpart => ?_
  have hlt := sizeOf_lt_of_transGen hpart
  exact wellFormed_resolve part fun deep hdeep => h deep (hdeep.trans hpart.to_reflTransGen)
termination_by sizeOf s

/-- The fields of a declaration are those of a proper object. -/
theorem wellFormed_declaration (h : s.DistinctNames) {name : String} {fields : List Field}
    (hfields : (s.declaration name).fields = some fields) :
    (TypeExpr.object fields).WellFormed := by
  have hcases : s.properties ≠ [] ∧ resolveFields s.required s.properties = fields := by
    simpa [declaration] using hfields
  obtain ⟨hne, rfl⟩ := hcases
  -- Each property becomes one field of its name.
  have hnames := map_name_resolveFields s.required s.properties
  refine .object ?_ ?_ fun f hf => ?_
  · intro hnil
    rw [hnil] at hnames
    exact hne (List.map_eq_nil_iff.1 hnames.symm)
  · rw [hnames]
    exact h s .refl
  · obtain ⟨property, hmem, htype⟩ := exists_of_mem_resolveFields hf
    exact htype ▸ wellFormed_resolve _ (h.of_part (.property hmem))

/-- **Resolved types are well formed**, at every depth: the type of a schema that may be
    missing, and the types of the fields of its declaration, which make a proper object
    by themselves. All that this takes are distinct names of properties, and whatever
    is read has them. -/
theorem resolved_wellFormed :
    (∀ s : Schema, s.DistinctNames → s.resolve.WellFormed
        ∧ ∀ name, ∀ fields ∈ (s.declaration name).fields,
          (TypeExpr.object fields).WellFormed ∧ ∀ f ∈ fields, f.type.WellFormed)
      ∧ (resolve? none).WellFormed
      ∧ ∀ d, ∀ s ∈ ofDatum? d, s.DistinctNames := by
  refine ⟨fun s hs => ⟨wellFormed_resolve s hs, fun name fields hfields => ?_⟩,
    .of_isBasic rfl, fun d s h => distinctNames_of_ofDatum? h⟩
  have hobject := wellFormed_declaration hs hfields
  exact ⟨hobject, fun f hf => (TypeExpr.wellFormed_iff.1 hobject).2 _ (.field hf)⟩

/-- A name that is given twice, and branches of which two have a name and one has
    properties. -/
def shapeSample : Datum :=
  .map [(.string "properties", .map [
    (.string "pet", .null),
    (.string "pet", .map [(.string "allOf", .sequence [
      .map [(.string "$ref", .string "#/definitions/base")],
      .map [(.string "properties", .map [(.string "id", .map [(.string "enum",
        .sequence [.natural 1])])])],
      .map [(.string "$ref", .string "#/definitions/3d-model")]])])])]

theorem resolved_wellFormed_sample :
    ∃ s, ofDatum? shapeSample = some s ∧ s.DistinctNames ∧ s.resolve.WellFormed
      ∧ s.resolve = .object [⟨"pet", .intersection [.ref "Base", .ref "_3dModel",
        .object [⟨"id", .union [.stringLiteral "1"], false, none⟩]], false, none⟩] := by
  obtain ⟨s, hs⟩ : ∃ s, ofDatum? shapeSample = some s := ⟨_, rfl⟩
  have hdistinct := resolved_wellFormed.2.2 shapeSample s hs
  refine ⟨s, hs, hdistinct, (resolved_wellFormed.1 s hdistinct).1, ?_⟩
  obtain rfl := Option.some.inj hs
  rfl

end Schema

end TypedClient
