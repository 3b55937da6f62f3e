import TypedClient.Proofs.Chains
import TypedClient.Schema.Following

/-! # Chains of references

    A schema that is a reference stands for the entry that its reference points
    at, which may be a reference again. Following such a chain gives the schema
    without reference that it ends at, if there is one.

    * **Chains** are taken in the whole table. Nothing is said of entries that
      were passed before, so a chain may run in a circle.
    * **No cut**: a chain that comes to an end passes no entry twice, so an entry
      that is taken out once it is passed is not missed later.
    * **Two ways to fail**: a chain without an end names a missing entry, or goes
      on for any number of steps.
-/

namespace TypedClient

/-! ### References between schemas -/

namespace Schema

variable {definitions left : Definitions} {s t u next : Schema} {n m : Nat}

/-- The **step** of a chain: the reference of a schema points at the name of the
    next one. -/
def RefersTo (definitions : Definitions) (s next : Schema) : Prop :=
  ∃ reference name, s.reference = some reference ∧ Name.PointsAt reference name
    ∧ definitions.find? name = some next

/-- The chain from a schema **dangles** if it comes to a reference that points at
    a missing entry. -/
def Dangles (definitions : Definitions) (s : Schema) : Prop :=
  ∃ n u reference name, Chain (RefersTo definitions) n s u ∧ u.reference = some reference
    ∧ Name.PointsAt reference name ∧ definitions.find? name = none

theorem target?_eq_some_iff {name : String} :
    s.target? = some name ↔ ∃ reference, s.reference = some reference
      ∧ Name.PointsAt reference name := by
  rw [target?, Option.map_eq_some_iff]
  simp only [Name.referenceName_eq_iff]

theorem target?_eq_none_iff : s.target? = none ↔ s.reference = none := by
  rw [target?, Option.map_eq_none_iff]

theorem refersTo_iff :
    RefersTo definitions s next ↔ ∃ name, s.target? = some name
      ∧ definitions.find? name = some next := by
  simp only [target?_eq_some_iff, RefersTo]
  constructor
  · rintro ⟨reference, name, hreference, hname, hnext⟩
    exact ⟨name, ⟨reference, hreference, hname⟩, hnext⟩
  · rintro ⟨name, ⟨reference, hreference, hname⟩, hnext⟩
    exact ⟨reference, name, hreference, hname, hnext⟩

theorem refersTo_unique : Relator.RightUnique (RefersTo definitions) := by
  intro s next other h h'
  obtain ⟨name, hname, hnext⟩ := refersTo_iff.1 h
  obtain ⟨name', hname', hother⟩ := refersTo_iff.1 h'
  obtain rfl := Option.some.inj (hname.symm.trans hname')
  exact Option.some.inj (hnext.symm.trans hother)

theorem not_refersTo (h : s.reference = none) (next : Schema) : ¬ RefersTo definitions s next := by
  rintro ⟨reference, name, hreference, -, -⟩
  rw [h] at hreference
  cases hreference

/-- A schema that is a reference and nothing else. -/
def ofReference (reference : String) : Schema :=
  { reference := some reference }

theorem refersTo_ofReference {reference name : String} (h : Name.PointsAt reference name) :
    RefersTo definitions (ofReference reference) next ↔ definitions.find? name = some next := by
  rw [refersTo_iff, target?_eq_some_iff.2 ⟨reference, rfl, h⟩]
  simp only [Option.some.injEq, exists_eq_left']

/-- A missing entry is a dead end. -/
theorem not_refersTo_of_missing {name : String} (hname : s.target? = some name)
    (hmissing : definitions.find? name = none) (next : Schema) :
    ¬ RefersTo definitions s next := by
  intro h
  obtain ⟨name', hname', hnext⟩ := refersTo_iff.1 h
  obtain rfl := Option.some.inj (hname.symm.trans hname')
  rw [hmissing] at hnext
  cases hnext

/-! ### Following -/

theorem follow?_of_reference_none (h : s.reference = none) : s.follow? definitions = some s := by
  rw [follow?.eq_def, target?_eq_none_iff.2 h]

theorem follow?_of_find?_some {name : String} (hname : s.target? = some name)
    (hnext : definitions.find? name = some next) :
    s.follow? definitions = next.follow? (definitions.erase name) := by
  rw [follow?.eq_def, hname]
  dsimp only
  split
  · rename_i hnone
    rw [hnext] at hnone
    cases hnone
  · rename_i other hother
    rw [Option.some.inj (hnext.symm.trans hother)]

/-- **Soundness**: what is found in a part of the table is at the end of a chain
    in the whole table. -/
theorem exists_chain_of_follow?_eq_some (hkeys : left.keys.Nodup)
    (hpart : ∀ name next, left.find? name = some next → definitions.find? name = some next)
    (h : s.follow? left = some t) :
    ∃ n, Chain (RefersTo definitions) n s t ∧ t.reference = none := by
  fun_induction follow? s left with
  | case1 s left hnone =>
    obtain rfl := Option.some.inj h
    exact ⟨0, .refl s, target?_eq_none_iff.1 hnone⟩
  | case2 => cases h
  | case3 s left name hname next hnext ih =>
    have hkeys' : (left.erase name).keys.Nodup := by
      rw [Table.keys_erase]
      exact hkeys.erase name
    have hpart' : ∀ other u, (left.erase name).find? other = some u →
        definitions.find? other = some u := by
      intro other u hu
      by_cases hother : other = name
      · rw [hother, Table.find?_erase_self hkeys] at hu
        cases hu
      · rw [Table.find?_erase_of_ne hother] at hu
        exact hpart other u hu
    obtain ⟨n, hchain, ht⟩ := ih hkeys' hpart' h
    exact ⟨n + 1, .head (refersTo_iff.2 ⟨name, hname, hpart name next hnext⟩) hchain, ht⟩

/-- **Completeness**: a chain to an end is followed in a part of the table, if the
    part has every entry from which the end is nearer than from the start. Such
    an entry is not the one that is passed first, which is as far from the end as
    the rest of the chain is long. -/
theorem follow?_eq_some_of_chain (hchain : Chain (RefersTo definitions) n s t)
    (ht : t.reference = none)
    (hpart : ∀ name u m, definitions.find? name = some u → Chain (RefersTo definitions) m u t →
      m < n → left.find? name = some u) :
    s.follow? left = some t ∧ n ≤ left.length := by
  -- The part gets smaller with each step, the rest of the chain shorter.
  induction hchain generalizing left with
  | refl t => exact ⟨follow?_of_reference_none ht, Nat.zero_le _⟩
  | @head n s next t first rest ih =>
    obtain ⟨name, hname, hnext⟩ := refersTo_iff.1 first
    have hfound : left.find? name = some next := hpart name next n hnext rest (Nat.lt_succ_self n)
    have hpart' : ∀ other u m, definitions.find? other = some u →
        Chain (RefersTo definitions) m u t → m < n → (left.erase name).find? other = some u := by
      intro other u m hu hm hlt
      have hother : other ≠ name := by
        -- The entry passed first has one distance from the end only.
        rintro rfl
        obtain rfl := Option.some.inj (hnext.symm.trans hu)
        have hlength := hm.length_unique refersTo_unique rest (not_refersTo ht)
        omega
      rw [Table.find?_erase_of_ne hother]
      exact hpart other u m hu hm (by omega)
    obtain ⟨hfollow, hle⟩ := ih ht hpart'
    have hshorter := Table.length_erase_lt hfound
    exact ⟨(follow?_of_find?_some hname hfound).trans hfollow, by omega⟩

/-- A schema is found exactly if it is without reference and at the end of a chain. -/
theorem follow?_eq_some_iff (hkeys : definitions.keys.Nodup) :
    s.follow? definitions = some t
      ↔ ∃ n, Chain (RefersTo definitions) n s t ∧ t.reference = none := by
  refine ⟨exists_chain_of_follow?_eq_some hkeys (fun _ _ h => h), ?_⟩
  rintro ⟨n, hchain, ht⟩
  exact (follow?_eq_some_of_chain hchain ht (fun _ _ _ hu _ _ => hu)).1

/-- A schema that refers to another one is followed to where that leads. -/
theorem follow?_of_refersTo (hkeys : definitions.keys.Nodup) (h : RefersTo definitions s next) :
    s.follow? definitions = next.follow? definitions := by
  refine Option.ext fun t => ?_
  rw [follow?_eq_some_iff hkeys, follow?_eq_some_iff hkeys]
  constructor
  · rintro ⟨n, hchain, ht⟩
    cases hchain with
    | refl _ => exact absurd h (not_refersTo ht next)
    | head first rest =>
      obtain rfl := refersTo_unique h first
      exact ⟨_, rest, ht⟩
  · rintro ⟨n, hchain, ht⟩
    exact ⟨n + 1, .head h hchain, ht⟩

/-- A chain that never reaches a schema without reference dangles or is endless. -/
theorem dangles_or_endless
    (h : ∀ n t, Chain (RefersTo definitions) n s t → t.reference ≠ none) :
    Dangles definitions s ∨ Endless (RefersTo definitions) s := by
  by_cases hdangles : Dangles definitions s
  · exact .inl hdangles
  -- A chain of any length can be made longer: its last schema has a reference,
  -- and what that points at is there.
  refine .inr fun n => ?_
  induction n with
  | zero => exact ⟨s, .refl s⟩
  | succ n ih =>
    obtain ⟨u, hu⟩ := ih
    obtain ⟨reference, hreference⟩ := Option.ne_none_iff_exists'.1 (h n u hu)
    have hname := Name.referenceName_eq_iff.1 (rfl : Name.referenceName reference = _)
    cases hnext : definitions.find? (Name.referenceName reference) with
    | none => exact absurd ⟨n, u, reference, _, hu, hreference, hname, hnext⟩ hdangles
    | some next => exact ⟨next, hu.snoc ⟨reference, _, hreference, hname, hnext⟩⟩

/-- A chain that reaches a schema without reference neither dangles nor is
    endless. -/
theorem not_dangles_or_endless (hchain : Chain (RefersTo definitions) n s t)
    (ht : t.reference = none) :
    ¬ (Dangles definitions s ∨ Endless (RefersTo definitions) s) := by
  rintro (⟨m, u, reference, name, hu, hreference, hname, hmissing⟩ | hendless)
  · obtain ⟨k, -, hk⟩ := hu.remaining refersTo_unique hchain (not_refersTo ht)
    cases hk with
    | refl _ =>
      rw [ht] at hreference
      cases hreference
    | head first _ =>
      have htarget := target?_eq_some_iff.2 ⟨reference, hreference, hname⟩
      exact not_refersTo_of_missing htarget hmissing _ first
  · exact hchain.not_endless refersTo_unique (not_refersTo ht) hendless

/-- **Following is exact**: a schema is found exactly if the chain of references
    reaches it and it has no reference, and nothing is found exactly if the chain
    dangles or is endless. A chain that comes to an end takes no more steps than
    the table has entries. -/
theorem following_exact (hkeys : definitions.keys.Nodup) :
    (∀ t, s.follow? definitions = some t
        ↔ ∃ n, Chain (RefersTo definitions) n s t ∧ t.reference = none)
      ∧ (s.follow? definitions = none
        ↔ Dangles definitions s ∨ Endless (RefersTo definitions) s)
      ∧ ∀ n t, Chain (RefersTo definitions) n s t → t.reference = none →
        n ≤ definitions.length := by
  have hcomplete : ∀ n t, Chain (RefersTo definitions) n s t → t.reference = none →
      s.follow? definitions = some t ∧ n ≤ definitions.length :=
    fun n t hchain ht => follow?_eq_some_of_chain hchain ht (fun _ _ _ hu _ _ => hu)
  have hsome : ∀ t, s.follow? definitions = some t
      ↔ ∃ n, Chain (RefersTo definitions) n s t ∧ t.reference = none := by
    intro t
    refine ⟨exists_chain_of_follow?_eq_some hkeys (fun _ _ h => h), ?_⟩
    rintro ⟨n, hchain, ht⟩
    exact (hcomplete n t hchain ht).1
  refine ⟨hsome, ⟨fun hnone => dangles_or_endless fun n t hchain ht => ?_, fun hfail => ?_⟩,
    fun n t hchain ht => (hcomplete n t hchain ht).2⟩
  · rw [(hcomplete n t hchain ht).1] at hnone
    cases hnone
  · rw [Option.eq_none_iff_forall_ne_some]
    intro t ht
    obtain ⟨n, hchain, hend⟩ := (hsome t).1 ht
    exact not_dangles_or_endless hchain hend hfail

/-- A table with a reference to an object, and one to itself. -/
def chainSample : Definitions :=
  [("Team", { reference := some "#/definitions/Group" }),
    ("Group", { kinds := some (.single .object) }),
    ("Loop", { reference := some "#/definitions/Loop" })]

/-- A reference of the sample to a name. -/
def sampleReference (name : String) : Schema :=
  { reference := some ("#/definitions/" ++ name) }

theorem refersTo_sampleReference {name : String} (h : '/' ∉ name.toList)
    (hnext : chainSample.find? name = some next) :
    RefersTo chainSample (sampleReference name) next :=
  ⟨_, name, rfl, ⟨h, .inr ⟨"#/definitions", by rw [String.append_assoc]; rfl⟩⟩, hnext⟩

/-- Two steps lead to the object, a reference in a circle leads nowhere, and
    neither does one to a missing entry. -/
theorem following_exact_sample :
    chainSample.keys.Nodup
      ∧ (sampleReference "Team").follow? chainSample = some { kinds := some (.single .object) }
      ∧ (sampleReference "Loop").follow? chainSample = none
      ∧ (sampleReference "Ghost").follow? chainSample = none := by
  have hkeys : chainSample.keys.Nodup := by decide +kernel
  have hteam : RefersTo chainSample (sampleReference "Team") (sampleReference "Group") :=
    refersTo_sampleReference (by decide) rfl
  have hgroup : RefersTo chainSample (sampleReference "Group")
      { kinds := some (.single .object) } :=
    refersTo_sampleReference (by decide) rfl
  have hloop : RefersTo chainSample (sampleReference "Loop") (sampleReference "Loop") :=
    refersTo_sampleReference (by decide) rfl
  have hendless : ∀ n,
      Chain (RefersTo chainSample) n (sampleReference "Loop") (sampleReference "Loop") := by
    intro n
    induction n with
    | zero => exact .refl _
    | succ n ih => exact .head hloop ih
  have hghost : Name.PointsAt "#/definitions/Ghost" "Ghost" :=
    ⟨by decide, .inr ⟨"#/definitions", rfl⟩⟩
  refine ⟨hkeys, ?_, ?_, ?_⟩
  · exact ((following_exact hkeys).1 _).2 ⟨2, .head hteam (.head hgroup (.refl _)), rfl⟩
  · exact (following_exact hkeys).2.1.2 (.inr fun n => ⟨_, hendless n⟩)
  · exact (following_exact hkeys).2.1.2 (.inl ⟨0, _, _, "Ghost", .refl _, rfl, hghost, rfl⟩)

end Schema

end TypedClient
