import Mathlib.Logic.Relation
import TypedClient.Proofs.NameSets
import TypedClient.Proofs.ResolvedTypes

/-! # Tracked types

    A schema is read twice for its named types: once for the type that it asks
    for, where one keyword wins, and once for the names that it mentions, where
    all keywords count.

    * **Depth** is given by the parts of a schema: a reference is in it at some
      depth if a part of a part has it.
    * **Mentions** are the references at any depth that point at a key.
    * **Agreement**: a name in the type comes from such references, so it is
      mentioned unless none of them points at a key.
-/

namespace TypedClient.Schema

variable {definitions : Definitions} {s part whole : Schema} {r name : String}

/-! ### Parts -/

/-- A schema is a **part** of another one if a keyword of that one holds it. -/
inductive IsPart : Schema → Schema → Prop where
  | property {part whole : Schema} {name : String} (h : (name, part) ∈ whole.properties) :
    IsPart part whole
  | items {part whole : Schema} (h : whole.items = some part) : IsPart part whole
  | additional {part whole : Schema} (h : whole.additional = some (.schema part)) :
    IsPart part whole
  | allOf {part whole : Schema} (h : part ∈ whole.allOf) : IsPart part whole
  | oneOf {part whole : Schema} (h : part ∈ whole.oneOf) : IsPart part whole
  | anyOf {part whole : Schema} (h : part ∈ whole.anyOf) : IsPart part whole

/-- A schema **refers** to what the references at any depth of it say. -/
def Refers (s : Schema) (reference : String) : Prop :=
  ∃ part, Relation.ReflTransGen IsPart part s ∧ part.reference = some reference

/-- Parts are smaller, so there is no endless descent. -/
theorem sizeOf_lt_of_isPart (h : IsPart part whole) : sizeOf part < sizeOf whole := by
  obtain ⟨reference, kinds, format, title, description, properties, required, additional, items,
    allOf, oneOf, anyOf, enumeration, sample⟩ := whole
  rw [Schema.mk.sizeOf_spec]
  cases h with
  | property h =>
    have hlt := List.sizeOf_lt_of_mem h
    simp only [Prod.mk.sizeOf_spec] at hlt
    omega
  | items h =>
    subst h
    simp only [Option.some.sizeOf_spec]
    omega
  | additional h =>
    subst h
    simp only [Option.some.sizeOf_spec, Additional.schema.sizeOf_spec]
    omega
  | allOf h =>
    have hlt : sizeOf part < sizeOf allOf := List.sizeOf_lt_of_mem h
    omega
  | oneOf h =>
    have hlt : sizeOf part < sizeOf oneOf := List.sizeOf_lt_of_mem h
    omega
  | anyOf h =>
    have hlt : sizeOf part < sizeOf anyOf := List.sizeOf_lt_of_mem h
    omega

/-! ### References at any depth -/

theorem mem_namedReferences {properties : List (String × Schema)} :
    r ∈ namedReferences properties ↔ ∃ name part, (name, part) ∈ properties
      ∧ r ∈ part.references := by
  induction properties with
  | nil => simp [namedReferences]
  | cons property rest ih =>
    obtain ⟨name, schema⟩ := property
    rw [namedReferences, List.mem_append, ih]
    constructor
    · rintro (hhere | ⟨other, part, hmem, hr⟩)
      · exact ⟨name, schema, List.mem_cons_self, hhere⟩
      · exact ⟨other, part, List.mem_cons_of_mem _ hmem, hr⟩
    · rintro ⟨other, part, hmem, hr⟩
      rcases List.mem_cons.1 hmem with heq | hmem
      · obtain ⟨rfl, rfl⟩ := Prod.mk.inj heq
        exact .inl hr
      · exact .inr ⟨other, part, hmem, hr⟩

theorem mem_listReferences {schemas : List Schema} :
    r ∈ listReferences schemas ↔ ∃ part ∈ schemas, r ∈ part.references := by
  induction schemas with
  | nil => simp [listReferences]
  | cons schema rest ih => simp [listReferences, ih]

theorem mem_itemsReferences {items : Option Schema} :
    r ∈ itemsReferences items ↔ ∃ part, items = some part ∧ r ∈ part.references := by
  cases items with
  | none => simp [itemsReferences]
  | some schema => simp [itemsReferences]

theorem mem_additionalReferences {additional : Option Additional} :
    r ∈ additionalReferences additional ↔ ∃ part, additional = some (.schema part)
      ∧ r ∈ part.references := by
  cases additional with
  | none => simp [additionalReferences]
  | some allowed => cases allowed with
    | flag _ => simp [additionalReferences]
    | schema schema => simp [additionalReferences]

/-- **One level**: the names behind the references of a schema are that of its own
    reference, and those of its parts. -/
theorem mem_references_iff_part :
    r ∈ s.references ↔ (∃ own ∈ s.reference, Name.referenceName own = r)
      ∨ ∃ part, IsPart part s ∧ r ∈ part.references := by
  rw [mem_references, mem_itemsReferences, mem_namedReferences, mem_additionalReferences,
    mem_listReferences, mem_listReferences, mem_listReferences]
  refine or_congr_right ⟨?_, ?_⟩
  · rintro (⟨part, h, hr⟩ | ⟨name, part, h, hr⟩ | ⟨part, h, hr⟩ | ⟨part, h, hr⟩ | ⟨part, h, hr⟩
      | ⟨part, h, hr⟩)
    · exact ⟨part, .items h, hr⟩
    · exact ⟨part, .property h, hr⟩
    · exact ⟨part, .additional h, hr⟩
    · exact ⟨part, .allOf h, hr⟩
    · exact ⟨part, .oneOf h, hr⟩
    · exact ⟨part, .anyOf h, hr⟩
  · rintro ⟨part, hpart, hr⟩
    cases hpart with
    | items h => exact .inl ⟨part, h, hr⟩
    | property h => exact .inr (.inl ⟨_, part, h, hr⟩)
    | additional h => exact .inr (.inr (.inl ⟨part, h, hr⟩))
    | allOf h => exact .inr (.inr (.inr (.inl ⟨part, h, hr⟩)))
    | oneOf h => exact .inr (.inr (.inr (.inr (.inl ⟨part, h, hr⟩))))
    | anyOf h => exact .inr (.inr (.inr (.inr (.inr ⟨part, h, hr⟩))))

theorem mem_references_of_within (h : Relation.ReflTransGen IsPart part s)
    (hr : r ∈ part.references) : r ∈ s.references := by
  induction h with
  | refl => exact hr
  | tail _ hpart ih => exact mem_references_iff_part.2 (.inr ⟨_, hpart, ih⟩)

theorem exists_refers_of_mem_references (s : Schema) (h : r ∈ s.references) :
    ∃ reference, s.Refers reference ∧ Name.PointsAt reference r := by
  rcases mem_references_iff_part.1 h with ⟨own, hown, hname⟩ | ⟨part, hpart, hr⟩
  · exact ⟨own, ⟨s, .refl, hown⟩, Name.referenceName_eq_iff.1 hname⟩
  · have hlt := sizeOf_lt_of_isPart hpart
    obtain ⟨reference, ⟨deep, hwithin, hreference⟩, hname⟩ :=
      exists_refers_of_mem_references part hr
    exact ⟨reference, ⟨deep, hwithin.tail hpart, hreference⟩, hname⟩
termination_by sizeOf s

/-- **All levels**: the names behind the references of a schema are those that the
    references at any depth point at. -/
theorem mem_references_iff_refers :
    r ∈ s.references ↔ ∃ reference, s.Refers reference ∧ Name.PointsAt reference r := by
  refine ⟨exists_refers_of_mem_references s, ?_⟩
  rintro ⟨reference, ⟨part, hwithin, hreference⟩, hname⟩
  refine mem_references_of_within hwithin (mem_references_iff_part.2 (.inl ⟨reference, ?_⟩))
  exact ⟨hreference, Name.referenceName_eq_iff.2 hname⟩

/-! ### Agreement -/

/-- A type name **comes from** a key if it is the type name of that key, and a
    reference at some depth of the schema points at the key. -/
def ComesFrom (s : Schema) (name key : String) : Prop :=
  Name.typeName key = name ∧ ∃ reference, s.Refers reference ∧ Name.PointsAt reference key

theorem comesFrom_iff {key : String} :
    s.ComesFrom name key ↔ Name.typeName key = name ∧ key ∈ s.references := by
  rw [ComesFrom, mem_references_iff_refers]

/-- The names of the type come from references. -/
theorem exists_comesFrom_of_mem_refs (h : name ∈ s.resolve.refs) :
    ∃ key, s.ComesFrom name key := by
  obtain ⟨key, hkey, rfl⟩ := (given_resolve s).names name h
  exact ⟨key, comesFrom_iff.2 ⟨rfl, hkey⟩⟩

/-- The names that a schema mentions are those that come from a key that is
    there. -/
theorem mem_mentions_iff_comesFrom :
    name ∈ s.mentions definitions ↔ ∃ key ∈ definitions.keys, s.ComesFrom name key := by
  simp only [mem_mentions, Table.contains_iff_mem_keys, comesFrom_iff]
  constructor
  · rintro ⟨key, hreference, hkey, hname⟩
    exact ⟨key, hkey, hname, hreference⟩
  · rintro ⟨key, hkey, hname, hreference⟩
    exact ⟨key, hreference, hkey, hname⟩

/-- **Types are tracked**: every name in the type of a schema comes from references
    of the schema, and it is mentioned unless none of them points at a key. The
    mentioned names are exactly the type names of those keys that a reference at
    some depth points at. So where every reference has its target, all names in
    the type are mentioned. -/
theorem types_tracked (s : Schema) (definitions : Definitions) :
    (∀ name ∈ s.resolve.refs, (∃ key, s.ComesFrom name key)
        ∧ (name ∈ s.mentions definitions
          ∨ ∀ key, s.ComesFrom name key → key ∉ definitions.keys))
      ∧ (∀ name, name ∈ s.mentions definitions
          ↔ ∃ key ∈ definitions.keys, s.ComesFrom name key)
      ∧ ((∀ reference, s.Refers reference →
            ∃ key ∈ definitions.keys, Name.PointsAt reference key) →
          ∀ name ∈ s.resolve.refs, name ∈ s.mentions definitions) := by
  refine ⟨fun name hname => ⟨exists_comesFrom_of_mem_refs hname, ?_⟩,
    fun name => mem_mentions_iff_comesFrom, fun htargets name hname => ?_⟩
  · by_cases hkey : ∃ key ∈ definitions.keys, s.ComesFrom name key
    · exact .inl (mem_mentions_iff_comesFrom.2 hkey)
    · exact .inr fun key hfrom hmem => hkey ⟨key, hmem, hfrom⟩
  · obtain ⟨key, hname, reference, hrefers, hpoints⟩ := exists_comesFrom_of_mem_refs hname
    obtain ⟨target, htarget, htpoints⟩ := htargets reference hrefers
    -- A reference points at one name only.
    have hsame : target = key :=
      (Name.referenceName_eq_iff.2 htpoints).symm.trans (Name.referenceName_eq_iff.2 hpoints)
    exact mem_mentions_iff_comesFrom.2
      ⟨key, hsame ▸ htarget, hname, reference, hrefers, hpoints⟩

-- The type is that of the branch; the property is mentioned all the same.
example :
    let s : Schema :=
      { oneOf := [{ reference := some "#/definitions/team" }]
        properties := [("pet", { reference := some "#/definitions/Pet" })] }
    s.resolve.refs = ["Team"] ∧ s.mentions [("team", {}), ("Pet", {})] = ["Pet", "Team"] := by
  decide +kernel

end TypedClient.Schema
