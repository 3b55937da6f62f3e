import Mathlib.Data.List.Induction
import Mathlib.Logic.Relation
import Mathlib.Order.Bounds.Basic
import Mathlib.Order.WellFounded
import TypedClient.Proofs.NameSets
import TypedClient.Usage.Reach

/-! # Types within reach

    The search for the types within reach goes round by round, with the names
    reached so far and those still to look at.

    * **Rounds** are stated with the whole table: a name counts once it has a
      schema and is not reached yet. The search that takes schemas out of its
      table goes through these rounds.
    * **Invariant**: what a reached name mentions is reached or pending, and
      nothing is reached that has no need to be.
    * **Result**: the least names that hold the declared ones of the start and
      all that their schemas mention.
-/

namespace TypedClient

/-! ### Schemas by type name -/

namespace Definitions

variable {definitions : Definitions} {name : String}

/-- The schema of the last definition with a type name. -/
def lastOf? (definitions : Definitions) (name : String) : Option Schema :=
  (definitions.reverse.find? (fun entry => Name.typeName entry.1 = name)).map (·.2)

theorem lastOf?_append_singleton (key : String) (schema : Schema) :
    lastOf? (definitions ++ [(key, schema)]) name
      = if Name.typeName key = name then some schema else definitions.lastOf? name := by
  rw [lastOf?, List.reverse_append, List.reverse_singleton, List.singleton_append,
    List.find?_cons]
  by_cases h : Name.typeName key = name <;> simp [h, lastOf?]

theorem byTypeName_append_singleton (key : String) (schema : Schema) :
    byTypeName (definitions ++ [(key, schema)])
      = definitions.byTypeName.insert (Name.typeName key) schema := by
  rw [byTypeName, List.foldl_append]
  rfl

/-- Under a type name stands the schema of the last definition that has it. -/
theorem find?_byTypeName : definitions.byTypeName.find? name = definitions.lastOf? name := by
  induction definitions using List.reverseRecOn with
  | nil => rfl
  | append_singleton definitions entry ih =>
    obtain ⟨key, schema⟩ := entry
    rw [byTypeName_append_singleton, lastOf?_append_singleton]
    split
    · rename_i h
      rw [h, Table.find?_insert_self]
    · rename_i h
      rw [Table.find?_insert_of_ne (Ne.symm h), ih]

theorem nodup_keys_byTypeName : definitions.byTypeName.keys.Nodup := by
  induction definitions using List.reverseRecOn with
  | nil => exact List.nodup_nil
  | append_singleton definitions entry ih =>
    obtain ⟨key, schema⟩ := entry
    rw [byTypeName_append_singleton, Table.keys_insert]
    exact NameSet.nodup_insert ih _

theorem exists_lastOf?_iff :
    (∃ schema, definitions.lastOf? name = some schema) ↔ name ∈ definitions.typeNames := by
  rw [typeNames, Table.keys, List.map_map, List.mem_map, ← Option.isSome_iff_exists, lastOf?,
    Option.isSome_map, List.find?_isSome]
  simp

end Definitions

/-! ### Rounds -/

/-- Where a search for types stands. -/
structure Search where
  reached : NameSet
  /-- The names still to look at, the next one first. -/
  pending : List String

/-- One **round** of the search: the next name is reached, unless it has no schema
    or is reached already. What it mentions is looked at next, as far as it is not
    reached, and the last mention first. -/
inductive Round (definitions : Definitions) : Search → Search → Prop where
  | undeclared {reached : NameSet} {name : String} {pending : List String}
    (hname : definitions.lastOf? name = none) :
    Round definitions ⟨reached, name :: pending⟩ ⟨reached, pending⟩
  | known {reached : NameSet} {name : String} {pending : List String} (hname : name ∈ reached) :
    Round definitions ⟨reached, name :: pending⟩ ⟨reached, pending⟩
  | reach {reached : NameSet} {name : String} {pending : List String} {schema : Schema}
    (hname : definitions.lastOf? name = some schema) (hnew : name ∉ reached) :
    Round definitions ⟨reached, name :: pending⟩
      ⟨reached ++ [name],
        ((schema.mentions definitions).filter (fun other => other ∉ reached ++ [name])).reverse
          ++ pending⟩

variable {definitions : Definitions} {a b : Search}

/-- The declared names that a search has not reached. -/
def Search.unreached (a : Search) (definitions : Definitions) : List String :=
  definitions.typeNames.filter (fun name => name ∉ a.reached)

/-- A round reaches a declared name, or it shortens the list of pending names and
    leaves the rest alone. -/
theorem Round.decreases (h : Round definitions a b) :
    Prod.Lex (· < ·) (· < ·) ((b.unreached definitions).length, b.pending.length)
      ((a.unreached definitions).length, a.pending.length) := by
  cases h with
  | undeclared _ => exact .right _ (Nat.lt_succ_self _)
  | known _ => exact .right _ (Nat.lt_succ_self _)
  | @reach reached name pending schema hname hnew =>
    -- The list of pending names may have grown, but one more name is reached.
    refine .left _ _ ?_
    have hdeclared := Definitions.exists_lastOf?_iff.1 ⟨schema, hname⟩
    have hfilter : (Search.unreached ⟨reached ++ [name], []⟩ definitions)
        = (Search.unreached ⟨reached, []⟩ definitions).filter (fun other => other ≠ name) := by
      rw [Search.unreached, Search.unreached, List.filter_filter]
      apply List.filter_congr
      intro other _
      simp [and_comm]
    show (Search.unreached ⟨reached ++ [name], []⟩ definitions).length
      < (Search.unreached ⟨reached, []⟩ definitions).length
    rw [hfilter, List.length_filter_lt_length_iff_exists]
    exact ⟨name, List.mem_filter.2 ⟨hdeclared, by simpa using hnew⟩, by simp⟩

/-- **Searches end**: there is no endless run of rounds. -/
theorem wellFounded_round (definitions : Definitions) :
    WellFounded (fun later earlier => Round definitions earlier later) :=
  Subrelation.wf Round.decreases
    (InvImage.wf (fun a : Search => ((a.unreached definitions).length, a.pending.length))
      (WellFounded.prod_lex Nat.lt_wfRel.wf Nat.lt_wfRel.wf))

/-! ### From the search to rounds -/

/-- Pending names without some of those that are reached. -/
inductive Trims (reached : NameSet) : List String → List String → Prop where
  | nil : Trims reached [] []
  | keep (name : String) {p q : List String} (rest : Trims reached p q) :
    Trims reached (name :: p) (name :: q)
  | drop {name : String} {p q : List String} (hname : name ∈ reached) (rest : Trims reached p q) :
    Trims reached (name :: p) q

namespace Trims

variable {reached more : NameSet} {p q p' q' : List String}

theorem refl (reached : NameSet) (p : List String) : Trims reached p p := by
  induction p with
  | nil => exact .nil
  | cons name p ih => exact .keep name ih

theorem mono (h : Trims reached p q) (hsub : reached ⊆ more) : Trims more p q := by
  induction h with
  | nil => exact .nil
  | keep name _ ih => exact .keep name ih
  | drop hname _ ih => exact .drop (hsub hname) ih

theorem append (h : Trims reached p q) (h' : Trims reached p' q') :
    Trims reached (p ++ p') (q ++ q') := by
  induction h with
  | nil => exact h'
  | keep name _ ih => exact .keep name ih
  | drop hname _ ih => exact .drop hname ih

theorem filter (reached : NameSet) (p : List String) :
    Trims reached p (p.filter (fun name => name ∉ reached)) := by
  induction p with
  | nil => exact .nil
  | cons name p ih =>
    by_cases hname : name ∈ reached
    · rw [List.filter_cons_of_neg (by simpa using hname)]
      exact .drop hname ih
    · rw [List.filter_cons_of_pos (by simpa using hname)]
      exact .keep name ih

end Trims

/-- A table **holds the rest** if it has the schemas of all names but the reached
    ones. -/
structure HoldsRest (definitions : Definitions) (left : Table Schema) (reached : NameSet) :
    Prop where
  keys : left.keys.Nodup
  find? : ∀ name, left.find? name = if name ∈ reached then none else definitions.lastOf? name

theorem holdsRest_byTypeName (definitions : Definitions) :
    HoldsRest definitions definitions.byTypeName [] where
  keys := Definitions.nodup_keys_byTypeName
  find? := by
    intro name
    rw [Definitions.find?_byTypeName, if_neg List.not_mem_nil]

theorem HoldsRest.erase {left : Table Schema} {reached : NameSet}
    (h : HoldsRest definitions left reached) (name : String) :
    HoldsRest definitions (left.erase name) (reached ++ [name]) where
  keys := by
    rw [Table.keys_erase]
    exact h.keys.erase name
  find? := by
    intro other
    by_cases hother : other = name
    · rw [hother, Table.find?_erase_self h.keys, if_pos (by simp)]
    · rw [Table.find?_erase_of_ne hother, h.find?]
      simp [hother]

/-- **The search goes by rounds**: taking out what is reached has the effect of
    passing over it. A name may be pending here that the rounds leave out, since
    it was reached when it was mentioned. -/
theorem rounds_reachFrom {left : Table Schema} {reached : NameSet} {pending trimmed : List String}
    (hleft : HoldsRest definitions left reached) (htrims : Trims reached pending trimmed) :
    Relation.ReflTransGen (Round definitions) ⟨reached, trimmed⟩
      ⟨reachFrom definitions left reached pending, []⟩ := by
  fun_induction reachFrom definitions left reached pending generalizing trimmed with
  | case1 left reached =>
    cases htrims with
    | nil => exact .refl
  | case2 left reached name pending hnone ih =>
    -- No schema is left for the name: it never had one, or it is reached.
    cases htrims with
    | drop _ rest => exact ih hleft rest
    | keep _ rest =>
      refine .head ?_ (ih hleft rest)
      rw [hleft.find?] at hnone
      split at hnone
      · rename_i hknown
        exact .known hknown
      · exact .undeclared hnone
  | case3 left reached name pending schema hsome ih =>
    have hfound := hleft.find? name
    rw [hsome] at hfound
    split at hfound
    · cases hfound
    · rename_i hnew
      cases htrims with
      | drop hknown _ => exact absurd hknown hnew
      | keep _ rest =>
        refine .head (.reach hfound.symm hnew) (ih (hleft.erase name) ?_)
        -- The round leaves out the mentions that are reached, the search does not.
        have hmentions := Trims.filter (reached ++ [name]) (schema.mentions definitions).reverse
        rw [List.filter_reverse] at hmentions
        exact hmentions.append (rest.mono (List.subset_append_left _ _))

theorem rounds_reachable (s : NameSet) (definitions : Definitions) :
    Relation.ReflTransGen (Round definitions) ⟨[], s.reverse⟩ ⟨s.reachable definitions, []⟩ :=
  rounds_reachFrom (holdsRest_byTypeName definitions) (.refl [] s.reverse)

/-! ### Closed sets of names -/

/-- Names are **closed over** a start if they hold every declared name of it and,
    with each name, all that the last definition of that name mentions. -/
structure ClosedOver (definitions : Definitions) (start : NameSet) (names : Set String) :
    Prop where
  holds : ∀ name ∈ start, name ∈ definitions.typeNames → name ∈ names
  mentions : ∀ name ∈ names, ∀ schema, definitions.lastOf? name = some schema →
    ∀ other ∈ schema.mentions definitions, other ∈ names

/-- The declared names are closed over any start. -/
theorem closedOver_typeNames (definitions : Definitions) (start : NameSet) :
    ClosedOver definitions start {name | name ∈ definitions.typeNames} where
  holds := fun _ _ hdeclared => hdeclared
  mentions := fun _ _ _ _ _ hother => Schema.mem_typeNames_of_mem_mentions hother

/-- The **invariant** of a search. -/
structure Search.Inv (definitions : Definitions) (start : NameSet) (a : Search) : Prop where
  nodup : a.reached.Nodup
  /-- A declared name of the start is reached or pending. -/
  holds : ∀ name ∈ start, name ∈ definitions.typeNames → name ∈ a.reached ∨ name ∈ a.pending
  /-- So is what reached names mention. -/
  mentions : ∀ name ∈ a.reached, ∀ schema, definitions.lastOf? name = some schema →
    ∀ other ∈ schema.mentions definitions, other ∈ a.reached ∨ other ∈ a.pending
  /-- Closed names hold what is reached. -/
  reached : ∀ names, ClosedOver definitions start names → ∀ name ∈ a.reached, name ∈ names
  /-- They hold what is pending, as far as it is declared. -/
  pending : ∀ names, ClosedOver definitions start names → ∀ name ∈ a.pending,
    name ∈ definitions.typeNames → name ∈ names

namespace Search.Inv

variable {start : NameSet}

theorem first (definitions : Definitions) (start : NameSet) :
    Inv definitions start ⟨[], start.reverse⟩ where
  nodup := List.nodup_nil
  holds := fun _ hname _ => .inr (List.mem_reverse.2 hname)
  mentions := fun _ hname => absurd hname List.not_mem_nil
  reached := fun _ _ _ hname => absurd hname List.not_mem_nil
  pending := fun _ hnames name hname => hnames.holds name (List.mem_reverse.1 hname)

/-- A pending name that is reached or not declared can be passed over. -/
theorem pass {reached : NameSet} {name : String} {pending : List String}
    (h : Inv definitions start ⟨reached, name :: pending⟩)
    (hname : name ∈ definitions.typeNames → name ∈ reached) :
    Inv definitions start ⟨reached, pending⟩ := by
  have hmoved : ∀ other, other ∈ definitions.typeNames →
      other ∈ reached ∨ other ∈ name :: pending → other ∈ reached ∨ other ∈ pending := by
    intro other hdeclared hother
    rcases hother with hreached | hpending
    · exact .inl hreached
    · rcases List.mem_cons.1 hpending with rfl | hpending
      · exact .inl (hname hdeclared)
      · exact .inr hpending
  refine ⟨h.nodup, ?_, ?_, h.reached, ?_⟩
  · exact fun other hother hdeclared => hmoved other hdeclared (h.holds other hother hdeclared)
  · exact fun source hsource schema hschema other hother =>
      hmoved other (Schema.mem_typeNames_of_mem_mentions hother)
        (h.mentions source hsource schema hschema other hother)
  · exact fun names hnames other hother =>
      h.pending names hnames other (List.mem_cons_of_mem _ hother)

/-- **The step**: a round keeps the invariant. -/
theorem round (h : Inv definitions start a) (hround : Round definitions a b) :
    Inv definitions start b := by
  cases hround with
  | undeclared hname =>
    refine h.pass fun hdeclared => ?_
    obtain ⟨schema, hschema⟩ := Definitions.exists_lastOf?_iff.2 hdeclared
    rw [hname] at hschema
    cases hschema
  | known hname => exact h.pass fun _ => hname
  | @reach reached name pending schema hname hnew =>
    -- The name moves from the pending ones to the reached ones, the others stay.
    have hmoved : ∀ other, other ∈ reached ∨ other ∈ name :: pending →
        other ∈ reached ++ [name] ∨ other ∈
          ((schema.mentions definitions).filter (fun other => other ∉ reached ++ [name])).reverse
            ++ pending := by
      intro other hother
      rcases hother with hreached | hpending
      · exact .inl (List.mem_append_left _ hreached)
      · rcases List.mem_cons.1 hpending with rfl | hpending
        · exact .inl (by simp)
        · exact .inr (List.mem_append_right _ hpending)
    have hdeclared := Definitions.exists_lastOf?_iff.1 ⟨schema, hname⟩
    refine ⟨?_, ?_, ?_, ?_, ?_⟩
    · have hnodup := NameSet.nodup_insert h.nodup name
      rwa [NameSet.insert, if_neg hnew] at hnodup
    · exact fun other hother hdeclared => hmoved other (h.holds other hother hdeclared)
    · intro source hsource found hfound other hother
      rcases List.mem_append.1 hsource with hsource | hsource
      · exact hmoved other (h.mentions source hsource found hfound other hother)
      · obtain rfl := List.mem_singleton.1 hsource
        obtain rfl := Option.some.inj (hname.symm.trans hfound)
        -- What the new name mentions is pending now, unless it is reached.
        by_cases hreached : other ∈ reached ++ [source]
        · exact .inl hreached
        · refine .inr (List.mem_append_left _ (List.mem_reverse.2 (List.mem_filter.2 ?_)))
          exact ⟨hother, by simpa using hreached⟩
    · intro names hnames other hother
      rcases List.mem_append.1 hother with hother | hother
      · exact h.reached names hnames other hother
      · obtain rfl := List.mem_singleton.1 hother
        exact h.pending names hnames other List.mem_cons_self hdeclared
    · intro names hnames other hother hdeclared'
      rcases List.mem_append.1 hother with hother | hother
      · have hmentioned := (List.mem_filter.1 (List.mem_reverse.1 hother)).1
        have hmem := h.pending names hnames name List.mem_cons_self hdeclared
        exact hnames.mentions name hmem schema hname other hmentioned
      · exact h.pending names hnames other (List.mem_cons_of_mem _ hother) hdeclared'

/-- **The run**: rounds keep the invariant. -/
theorem rounds (h : Inv definitions start a)
    (hrounds : Relation.ReflTransGen (Round definitions) a b) : Inv definitions start b := by
  induction hrounds with
  | refl => exact h
  | tail _ hround ih => exact ih.round hround

/-- Where nothing is pending, the reached names are the least closed ones. -/
theorem isLeast {reached : NameSet} (h : Inv definitions start ⟨reached, []⟩) :
    IsLeast {names | ClosedOver definitions start names} {name | name ∈ reached} := by
  refine ⟨⟨?_, ?_⟩, fun names hnames name hname => h.reached names hnames name hname⟩
  · exact fun name hname hdeclared =>
      (h.holds name hname hdeclared).resolve_right List.not_mem_nil
  · exact fun name hname schema hschema other hother =>
      (h.mentions name hname schema hschema other hother).resolve_right List.not_mem_nil

end Search.Inv

/-! ### The result -/

namespace NameSet

theorem inv_reachable (s : NameSet) (definitions : Definitions) :
    Search.Inv definitions s ⟨s.reachable definitions, []⟩ :=
  (Search.Inv.first definitions s).rounds (rounds_reachable s definitions)

/-- Names are within reach of a larger start, if they are of a smaller one. -/
theorem reachable_subset {s more : NameSet} (h : s ⊆ more) :
    s.reachable definitions ⊆ more.reachable definitions := by
  have hclosed := (inv_reachable more definitions).isLeast.1
  exact (inv_reachable s definitions).isLeast.2
    ⟨fun name hname => hclosed.holds name (h hname), hclosed.mentions⟩

/-- What is within reach of names within reach is within reach. -/
theorem mem_reachable_reachable {s : NameSet} {name : String} :
    name ∈ (s.reachable definitions).reachable definitions ↔ name ∈ s.reachable definitions := by
  have hleast := (inv_reachable s definitions).isLeast
  have hagain := (inv_reachable (s.reachable definitions) definitions).isLeast
  constructor
  · intro hname
    exact hagain.2 ⟨fun _ hother _ => hother, hleast.1.mentions⟩ hname
  · intro hname
    exact hagain.1.holds name hname (hleast.2 (closedOver_typeNames definitions s) hname)

/-- **Reach is exact**: the search ends, and what it reaches is free of repeats and
    is the least set of names that holds every declared name of the start and,
    with each name, what the last definition of that name mentions. So it grows
    with the start, and searching again from the result adds nothing. -/
theorem reachable_exact (s : NameSet) (definitions : Definitions) :
    WellFounded (fun later earlier => Round definitions earlier later)
      ∧ Relation.ReflTransGen (Round definitions) ⟨[], s.reverse⟩ ⟨s.reachable definitions, []⟩
      ∧ (s.reachable definitions).Nodup
      ∧ IsLeast {names | ClosedOver definitions s names} {name | name ∈ s.reachable definitions}
      ∧ (∀ more, s ⊆ more → s.reachable definitions ⊆ NameSet.reachable more definitions)
      ∧ ∀ name, name ∈ (s.reachable definitions).reachable definitions
          ↔ name ∈ s.reachable definitions := by
  have hinv := inv_reachable s definitions
  exact ⟨wellFounded_round definitions, rounds_reachable s definitions, hinv.nodup, hinv.isLeast,
    fun _ h => reachable_subset h, fun _ => mem_reachable_reachable⟩

-- A cycle, and a name that nothing declares.
example :
    NameSet.reachable ["Team", "Ghost"]
      [("team", { items := some { reference := some "#/definitions/Pet" } }),
        ("Pet", { items := some { reference := some "#/definitions/team" } })]
      = ["Team", "Pet"] := by
  cbv

end NameSet

end TypedClient
