import TypedClient.Proofs.Chains
import TypedClient.Client.SharedParameters

/-! # Chains of shared parameters

    An entry of a parameter list that is a reference stands for the shared entry
    that it leads to, which may be a reference again.

    * **Steps** are taken in the whole document: the start of a reference says in
      which table its entry stands, the last segment under which name.
    * **Outcomes**: a chain comes to a parameter, or to a reference that leads
      nowhere, or back to a reference. Only one of them can be the case, and what
      is found for an entry tells which.
    * **Underway**, the references not yet followed are those that the chain has
      not passed, so a reference that is not among them has come up again.
-/

namespace TypedClient

/-! ### Steps -/

/-- A reference is **under** a place if it starts with it. -/
def Name.Under (place reference : String) : Prop :=
  ∃ rest, reference = place ++ rest

/-- Where references into the shared parameters of the older dialect start. -/
def SharedParameters.oldPlace : String :=
  "#/parameters/"

/-- Where references into the shared parameters of the newer dialect start. -/
def SharedParameters.newPlace : String :=
  "#/components/parameters/"

namespace Document

open SharedParameters (oldPlace newPlace reference? unresolvedWarning circularWarning)
open Name (Under PointsAt)

variable {d : Document} {start entry next : ParameterEntry} {reference r : String}
  {n m : Nat} {unused : List String} {p : Parameter} {found : Warned (Option Parameter)}

/-- A reference **leads to** an entry of the table that its start stands for, by the
    name that it points at. -/
inductive LeadsTo (d : Document) (reference : String) (entry : ParameterEntry) : Prop where
  | old {name : String} (hplace : Under oldPlace reference) (hname : PointsAt reference name)
    (hfound : d.parameters.find? name = some entry)
  | new {name : String} {components : Components} (hplace : Under newPlace reference)
    (hname : PointsAt reference name) (hcomponents : d.components = some components)
    (hfound : components.parameters.find? name = some entry)

/-- The **step** of a chain: an entry is a reference that leads to the next one. -/
def PassesTo (d : Document) (entry next : ParameterEntry) : Prop :=
  ∃ reference, entry = .reference reference ∧ d.LeadsTo reference next

/-- The chain from an entry **misses** one if it comes to a reference into a table
    that has no entry of its name. -/
def Misses (d : Document) (entry : ParameterEntry) : Prop :=
  ∃ n reference name, Chain d.PassesTo n entry (.reference reference) ∧ PointsAt reference name
    ∧ (Under oldPlace reference ∧ d.parameters.find? name = none
      ∨ Under newPlace reference
        ∧ ∀ components ∈ d.components, components.parameters.find? name = none)

/-- The chain from an entry **strays** if it comes to a reference that starts like
    none into a table. -/
def Strays (d : Document) (entry : ParameterEntry) : Prop :=
  ∃ n reference, Chain d.PassesTo n entry (.reference reference)
    ∧ ¬ Under oldPlace reference ∧ ¬ Under newPlace reference

theorem isPrefixOf_iff_under {place : String} :
    place.toList.isPrefixOf reference.toList = true ↔ Under place reference := by
  rw [List.isPrefixOf_iff_prefix]
  constructor
  · rintro ⟨rest, hrest⟩
    refine ⟨String.ofList rest, ?_⟩
    rw [← String.toList_inj, ← hrest]
    simp
  · rintro ⟨rest, rfl⟩
    exact ⟨rest.toList, by simp⟩

/-- No reference is into both tables. -/
theorem not_under_old_of_new (h : Under newPlace reference) : ¬ Under oldPlace reference := by
  rintro ⟨rest, hold⟩
  obtain ⟨rest', hnew⟩ := h
  have hsame : newPlace.toList ++ rest'.toList = oldPlace.toList ++ rest.toList := by
    rw [← String.toList_append, ← String.toList_append, ← hnew, ← hold]
  have hnew' : newPlace.toList = '#' :: '/' :: 'c' :: "omponents/parameters/".toList := by decide
  have hold' : oldPlace.toList = '#' :: '/' :: 'p' :: "arameters/".toList := by decide
  rw [hnew', hold'] at hsame
  simp at hsame

/-! ### Look-up -/

theorem find?_sharedParameters (d : Document) (reference : String) :
    d.sharedParameters.find? reference
      = if newPlace.toList.isPrefixOf reference.toList then
          d.components.bind (·.parameters.find? (Name.referenceName reference))
        else if oldPlace.toList.isPrefixOf reference.toList then
          d.parameters.find? (Name.referenceName reference)
        else none := by
  have hnew : d.sharedParameters.new.find? (Name.referenceName reference)
      = d.components.bind (·.parameters.find? (Name.referenceName reference)) := by
    rw [sharedParameters]
    cases d.components <;> rfl
  rw [← hnew]
  rfl

theorem find?_of_under_new (h : Under newPlace reference) :
    d.sharedParameters.find? reference
      = d.components.bind (·.parameters.find? (Name.referenceName reference)) := by
  rw [find?_sharedParameters, if_pos (isPrefixOf_iff_under.2 h)]

theorem find?_of_under_old (h : Under oldPlace reference) :
    d.sharedParameters.find? reference = d.parameters.find? (Name.referenceName reference) := by
  rw [find?_sharedParameters,
    if_neg (fun hnew => not_under_old_of_new (isPrefixOf_iff_under.1 hnew) h),
    if_pos (isPrefixOf_iff_under.2 h)]

theorem find?_of_stray (hold : ¬ Under oldPlace reference) (hnew : ¬ Under newPlace reference) :
    d.sharedParameters.find? reference = none := by
  rw [find?_sharedParameters, if_neg (fun h => hnew (isPrefixOf_iff_under.1 h)),
    if_neg (fun h => hold (isPrefixOf_iff_under.1 h))]

/-- What a reference leads to is what is found for it. -/
theorem leadsTo_iff :
    d.LeadsTo reference entry ↔ d.sharedParameters.find? reference = some entry := by
  have hname : PointsAt reference (Name.referenceName reference) :=
    Name.referenceName_eq_iff.1 rfl
  constructor
  · rintro (⟨hplace, hname, hfound⟩ | ⟨hplace, hname, hcomponents, hfound⟩)
    · rw [find?_of_under_old hplace, Name.referenceName_eq_iff.2 hname, hfound]
    · rw [find?_of_under_new hplace, hcomponents, Option.bind_some,
        Name.referenceName_eq_iff.2 hname, hfound]
  · intro hfound
    by_cases hnew : Under newPlace reference
    · rw [find?_of_under_new hnew] at hfound
      obtain ⟨components, hcomponents, hentry⟩ := Option.bind_eq_some_iff.1 hfound
      exact .new hnew hname hcomponents hentry
    · by_cases hold : Under oldPlace reference
      · exact .old hold hname (find?_of_under_old hold ▸ hfound)
      · rw [find?_of_stray hold hnew] at hfound
        cases hfound

/-- A reference leads nowhere if its entry is missing, or if it is into no table. -/
theorem leads_nowhere_iff :
    (∀ next, ¬ d.LeadsTo reference next)
      ↔ (∃ name, PointsAt reference name
          ∧ (Under oldPlace reference ∧ d.parameters.find? name = none
            ∨ Under newPlace reference
              ∧ ∀ components ∈ d.components, components.parameters.find? name = none))
        ∨ ¬ Under oldPlace reference ∧ ¬ Under newPlace reference := by
  have hnowhere : (∀ next, ¬ d.LeadsTo reference next)
      ↔ d.sharedParameters.find? reference = none := by
    simp only [leadsTo_iff, Option.eq_none_iff_forall_ne_some, Ne]
  have hmissing : (∀ components ∈ d.components,
        components.parameters.find? (Name.referenceName reference) = none)
      ↔ d.components.bind (·.parameters.find? (Name.referenceName reference)) = none := by
    rw [Option.bind_eq_none_iff]
    rfl
  simp only [hnowhere, ← Name.referenceName_eq_iff, exists_eq_left']
  by_cases hnew : Under newPlace reference
  · have hold := not_under_old_of_new hnew
    simp only [find?_of_under_new hnew, hmissing, hnew, hold, true_and, false_and, false_or,
      not_true, and_false, or_false]
  · by_cases hold : Under oldPlace reference
    · simp only [find?_of_under_old hold, hnew, hold, true_and, false_and, or_false, not_true]
    · simp only [find?_of_stray hold hnew, hnew, hold, false_and, or_false, not_false_eq_true,
        true_and, or_true]

theorem passesTo_unique : Relator.RightUnique d.PassesTo := by
  rintro entry next other ⟨reference, hentry, hnext⟩ ⟨reference', hentry', hother⟩
  obtain rfl := ParameterEntry.reference.inj (hentry.symm.trans hentry')
  exact Option.some.inj ((leadsTo_iff.1 hnext).symm.trans (leadsTo_iff.1 hother))

/-- A parameter is a dead end. -/
theorem not_passesTo_inline (p : Parameter) (next : ParameterEntry) :
    ¬ d.PassesTo (.inline p) next := by
  rintro ⟨reference, hentry, -⟩
  cases hentry

/-- So is a reference that leads nowhere. -/
theorem not_passesTo_reference (h : ∀ next, ¬ d.LeadsTo reference next) (next : ParameterEntry) :
    ¬ d.PassesTo (.reference reference) next := by
  rintro ⟨other, hentry, hnext⟩
  obtain rfl := ParameterEntry.reference.inj hentry
  exact h next hnext

/-! ### Outcomes -/

/-- A chain comes **back** to a reference after a number of steps if that is the first
    reference that it has passed before. -/
structure ComesBack (d : Document) (start : ParameterEntry) (n : Nat) (reference : String) :
    Prop where
  chain : Chain d.PassesTo n start (.reference reference)
  /-- It has passed the reference before. -/
  again : ∃ m < n, Chain d.PassesTo m start (.reference reference)
  /-- No other reference has come up twice until then. -/
  first : ∀ m < n, ∀ r, Chain d.PassesTo m start (.reference r) →
    ∀ k < m, ¬ Chain d.PassesTo k start (.reference r)

/-- What an entry **comes to**: the parameter at the end of its chain, or nothing, with
    one warning. -/
inductive ComesTo (d : Document) (start : ParameterEntry) : Warned (Option Parameter) → Prop where
  | reaches {n : Nat} {p : Parameter} (h : Chain d.PassesTo n start (.inline p)) :
    ComesTo d start ⟨some p, []⟩
  | stops {n : Nat} {reference : String} (h : Chain d.PassesTo n start (.reference reference))
    (hnowhere : ∀ next, ¬ d.LeadsTo reference next) :
    ComesTo d start ⟨none, [unresolvedWarning reference]⟩
  | circles {n : Nat} {reference : String} (h : d.ComesBack start n reference) :
    ComesTo d start ⟨none, [circularWarning reference]⟩

theorem ComesBack.endless (h : d.ComesBack start n reference) : Endless d.PassesTo start := by
  obtain ⟨m, hm, hagain⟩ := h.again
  obtain ⟨k, rfl⟩ := Nat.exists_eq_add_of_lt hm
  rw [Nat.add_assoc] at h
  obtain ⟨entry, hentry, hround⟩ := h.chain.cut
  obtain rfl := hagain.end_unique passesTo_unique hentry
  exact hagain.endless_of_round hround

theorem ComesBack.unique (h : d.ComesBack start n reference) (h' : d.ComesBack start m r) :
    reference = r := by
  obtain hlt | rfl | hlt := Nat.lt_trichotomy n m
  · obtain ⟨k, hk, hagain⟩ := h.again
    exact absurd hagain (h'.first n hlt reference h.chain k hk)
  · exact ParameterEntry.reference.inj (h.chain.end_unique passesTo_unique h'.chain)
  · obtain ⟨k, hk, hagain⟩ := h'.again
    exact absurd hagain (h.first m hlt r h'.chain k hk)

/-- **One outcome**: there is no more than one thing to find for an entry. -/
theorem ComesTo.unique {other : Warned (Option Parameter)} (h : d.ComesTo start found)
    (h' : d.ComesTo start other) : found = other := by
  have hend := @not_passesTo_inline d
  cases h with
  | reaches h =>
    cases h' with
    | reaches h' =>
      obtain rfl := ParameterEntry.inline.inj
        (h.deadEnd_unique passesTo_unique h' (hend _) (hend _))
      rfl
    | stops h' hnowhere =>
      cases h.deadEnd_unique passesTo_unique h' (hend _) (not_passesTo_reference hnowhere)
    | circles h' => exact absurd h'.endless (h.not_endless passesTo_unique (hend _))
  | stops h hnowhere =>
    have hstop := not_passesTo_reference hnowhere
    cases h' with
    | reaches h' => cases h.deadEnd_unique passesTo_unique h' hstop (hend _)
    | stops h' hnowhere' =>
      obtain rfl := ParameterEntry.reference.inj
        (h.deadEnd_unique passesTo_unique h' hstop (not_passesTo_reference hnowhere'))
      rfl
    | circles h' => exact absurd h'.endless (h.not_endless passesTo_unique hstop)
  | circles h =>
    cases h' with
    | reaches h' => exact absurd h.endless (h'.not_endless passesTo_unique (hend _))
    | stops h' hnowhere' =>
      exact absurd h.endless (h'.not_endless passesTo_unique (not_passesTo_reference hnowhere'))
    | circles h' => rw [h.unique h']

/-! ### Underway -/

/-- All references that a chain from an entry may pass. -/
def referencesFrom (d : Document) (start : ParameterEntry) : List String :=
  (reference? start).toList ++ d.sharedParameters.references

/-- **Underway**: after a number of steps, a chain has come to an entry, and the
    references that are left are those that it has not passed. -/
structure Underway (d : Document) (start : ParameterEntry) (n : Nat) (entry : ParameterEntry)
    (unused : List String) : Prop where
  chain : Chain d.PassesTo n start entry
  /-- A reference that it has come to is known. -/
  known : ∀ r, entry = .reference r → r ∈ d.referencesFrom start
  /-- A known reference that is not left has been passed. -/
  passed : ∀ r ∈ d.referencesFrom start, r ∉ unused →
    ∃ m < n, Chain d.PassesTo m start (.reference r)
  /-- One that is left has not. -/
  fresh : ∀ r ∈ unused, ∀ m < n, ¬ Chain d.PassesTo m start (.reference r)
  /-- No reference has been passed twice. -/
  first : ∀ m < n, ∀ r, Chain d.PassesTo m start (.reference r) →
    ∀ k < m, ¬ Chain d.PassesTo k start (.reference r)
  /-- Every step has struck out a reference. -/
  bound : n + unused.length ≤ (d.referencesFrom start).length

theorem underway_zero (d : Document) (start : ParameterEntry) :
    d.Underway start 0 start (d.referencesFrom start) where
  chain := .refl start
  known := by
    rintro r rfl
    exact List.mem_append_left _ List.mem_cons_self
  passed := fun r hr hleft => absurd hr hleft
  fresh := fun _ _ _ hm => absurd hm (Nat.not_lt_zero _)
  first := fun _ hm => absurd hm (Nat.not_lt_zero _)
  bound := Nat.le_of_eq (Nat.zero_add _)

/-- A reference that one leads to stands in a table. -/
theorem mem_references (h : d.LeadsTo reference (.reference r)) :
    r ∈ d.sharedParameters.references := by
  have hmem : ∃ name, (name, ParameterEntry.reference r)
      ∈ d.sharedParameters.old ++ d.sharedParameters.new := by
    cases h with
    | @old name _ _ hfound =>
      exact ⟨name, List.mem_append_left _ (Table.mem_of_find?_eq_some hfound)⟩
    | @new name components _ _ hcomponents hfound =>
      have hnew : d.sharedParameters.new = components.parameters := by
        rw [sharedParameters, hcomponents]
        rfl
      exact ⟨name, List.mem_append_right _ (hnew ▸ Table.mem_of_find?_eq_some hfound)⟩
  obtain ⟨name, hname⟩ := hmem
  exact List.mem_filterMap.2 ⟨_, hname, rfl⟩

/-- **The step**: following a reference that is left keeps the chain underway. -/
theorem Underway.step (h : d.Underway start n (.reference reference) unused)
    (hleft : reference ∈ unused) (hnext : d.LeadsTo reference next) :
    d.Underway start (n + 1) next (SharedParameters.strike reference unused) := by
  have hstrike : ∀ r, r ∈ SharedParameters.strike reference unused
      ↔ r ∈ unused ∧ r ≠ reference := by
    intro r
    rw [SharedParameters.strike, List.mem_filter, decide_eq_true_eq]
  -- The reference at the end of the chain is the one that is struck out.
  have hlast : ∀ r, Chain d.PassesTo n start (.reference r) → r = reference := fun r hr =>
    ParameterEntry.reference.inj (hr.end_unique passesTo_unique h.chain)
  constructor
  · exact h.chain.snoc ⟨reference, rfl, hnext⟩
  · rintro r rfl
    exact List.mem_append_right _ (mem_references hnext)
  · intro r hr hstruck
    by_cases heq : r = reference
    · exact ⟨n, Nat.lt_succ_self n, heq ▸ h.chain⟩
    · obtain ⟨m, hm, hchain⟩ := h.passed r hr (fun hmem => hstruck ((hstrike r).2 ⟨hmem, heq⟩))
      exact ⟨m, Nat.lt_succ_of_lt hm, hchain⟩
  · intro r hr m hm hchain
    obtain ⟨hmem, hne⟩ := (hstrike r).1 hr
    obtain hlt | rfl := Nat.lt_or_eq_of_le (Nat.le_of_lt_succ hm)
    · exact h.fresh r hmem m hlt hchain
    · exact hne (hlast r hchain)
  · intro m hm r hchain k hk
    obtain hlt | rfl := Nat.lt_or_eq_of_le (Nat.le_of_lt_succ hm)
    · exact h.first m hlt r hchain k hk
    · exact hlast r hchain ▸ h.fresh reference hleft k hk
  · have hshorter := SharedParameters.length_strike_lt hleft
    have hbound := h.bound
    omega

/-- Where following **ends**, and with what. -/
inductive Ends (d : Document) :
    ParameterEntry → List String → Warned (Option Parameter) → Prop where
  | inline (p : Parameter) (unused : List String) : Ends d (.inline p) unused ⟨some p, []⟩
  | missing {reference : String} (unused : List String)
    (hnowhere : ∀ next, ¬ d.LeadsTo reference next) :
    Ends d (.reference reference) unused ⟨none, [unresolvedWarning reference]⟩
  | again {reference : String} {unused : List String} (hused : reference ∉ unused) :
    Ends d (.reference reference) unused ⟨none, [circularWarning reference]⟩

/-- **The run**: following goes on underway until it ends. -/
theorem Underway.run (h : d.Underway start n entry unused) :
    ∃ m last left, d.Underway start m last left
      ∧ d.Ends last left (d.sharedParameters.follow unused entry) := by
  fun_induction SharedParameters.follow d.sharedParameters unused entry generalizing n with
  | case1 unused p => exact ⟨n, _, unused, h, .inline p unused⟩
  | case2 unused reference hleft next hnext ih => exact ih (h.step hleft (leadsTo_iff.2 hnext))
  | case3 unused reference hleft hnone =>
    refine ⟨n, _, unused, h, .missing unused fun next hnext => ?_⟩
    rw [leadsTo_iff, hnone] at hnext
    cases hnext
  | case4 unused reference hused => exact ⟨n, _, unused, h, .again hused⟩

/-- What is found at the end is the outcome of the chain. -/
theorem Underway.comesTo (h : d.Underway start n entry unused) (hends : d.Ends entry unused found) :
    d.ComesTo start found := by
  cases hends with
  | inline p => exact .reaches h.chain
  | missing _ hnowhere => exact .stops h.chain hnowhere
  | again hused => exact .circles ⟨h.chain, h.passed _ (h.known _ rfl) hused, h.first⟩

/-- What is found for an entry is the one outcome of its chain. -/
theorem resolve_eq_iff : d.sharedParameters.resolve start = found ↔ d.ComesTo start found := by
  obtain ⟨m, last, left, hunderway, hends⟩ := (underway_zero d start).run
  have hfound : d.ComesTo start (d.sharedParameters.resolve start) := hunderway.comesTo hends
  exact ⟨fun h => h ▸ hfound, hfound.unique⟩

/-! ### Parameters and failures -/

/-- Where a parameter is found, the chain comes to it. -/
theorem ComesTo.exists_chain (h : d.ComesTo start found) (hvalue : found.value = some p) :
    ∃ n, Chain d.PassesTo n start (.inline p) := by
  cases h with
  | reaches h =>
    obtain rfl := Option.some.inj hvalue
    exact ⟨_, h⟩
  | stops _ _ => cases hvalue
  | circles _ => cases hvalue

/-- Where nothing is found, the chain misses an entry, strays, or is endless. -/
theorem ComesTo.fails (h : d.ComesTo start found) (hvalue : found.value = none) :
    d.Misses start ∨ d.Strays start ∨ Endless d.PassesTo start := by
  cases h with
  | reaches _ => cases hvalue
  | @stops n reference h hnowhere =>
    obtain ⟨name, hname, hmissing⟩ | ⟨hold, hnew⟩ := leads_nowhere_iff.1 hnowhere
    · exact .inl ⟨n, reference, name, h, hname, hmissing⟩
    · exact .inr (.inl ⟨n, reference, h, hold, hnew⟩)
  | circles h => exact .inr (.inr h.endless)

/-- A chain that misses an entry or strays stops at a reference. -/
theorem exists_stop (h : d.Misses start ∨ d.Strays start) :
    ∃ n reference, Chain d.PassesTo n start (.reference reference)
      ∧ ∀ next, ¬ d.LeadsTo reference next := by
  obtain ⟨n, reference, name, hchain, hname, hmissing⟩ | ⟨n, reference, hchain, hstray⟩ := h
  · exact ⟨n, reference, hchain, leads_nowhere_iff.2 (.inl ⟨name, hname, hmissing⟩)⟩
  · exact ⟨n, reference, hchain, leads_nowhere_iff.2 (.inr hstray)⟩

theorem resolve_value_eq_some_iff :
    (d.sharedParameters.resolve start).value = some p
      ↔ ∃ n, Chain d.PassesTo n start (.inline p) := by
  constructor
  · exact (resolve_eq_iff.1 rfl).exists_chain
  · rintro ⟨n, h⟩
    rw [resolve_eq_iff.2 (.reaches h)]

theorem resolve_value_eq_none_iff :
    (d.sharedParameters.resolve start).value = none
      ↔ d.Misses start ∨ d.Strays start ∨ Endless d.PassesTo start := by
  refine ⟨(resolve_eq_iff.1 rfl).fails, fun hfails => ?_⟩
  rw [Option.eq_none_iff_forall_ne_some]
  intro p hvalue
  obtain ⟨n, hchain⟩ := resolve_value_eq_some_iff.1 hvalue
  rw [← or_assoc] at hfails
  obtain hstops | hendless := hfails
  · obtain ⟨m, reference, hstop, hnowhere⟩ := exists_stop hstops
    rw [resolve_eq_iff.2 (.stops hstop hnowhere)] at hvalue
    cases hvalue
  · exact hchain.not_endless passesTo_unique (not_passesTo_inline p) hendless

/-- A chain to a parameter takes no more steps than there are references that it may
    pass. -/
theorem length_le_of_chain (h : Chain d.PassesTo n start (.inline p)) :
    n ≤ (d.referencesFrom start).length := by
  obtain ⟨m, last, left, hunderway, hends⟩ := (underway_zero d start).run
  have hfound : d.sharedParameters.follow (d.referencesFrom start) start = ⟨some p, []⟩ :=
    resolve_eq_iff.2 (.reaches h)
  rw [hfound] at hends
  cases hends
  have hlength := h.length_unique passesTo_unique hunderway.chain (not_passesTo_inline p)
  have hbound := hunderway.bound
  omega

/-! ### Lists of entries -/

/-- What a list of entries **yields**: the parameters that their chains come to, and one
    warning for each entry that is dropped, both in the order of the list. -/
inductive Yields (d : Document) : List ParameterEntry → List Parameter → List String → Prop where
  | nil : Yields d [] [] []
  | keep {entry : ParameterEntry} {p : Parameter} {rest : List ParameterEntry}
    {ps : List Parameter} {ws : List String} (h : d.ComesTo entry ⟨some p, []⟩)
    (others : Yields d rest ps ws) : Yields d (entry :: rest) (p :: ps) ws
  | drop {entry : ParameterEntry} {w : String} {rest : List ParameterEntry}
    {ps : List Parameter} {ws : List String} (h : d.ComesTo entry ⟨none, [w]⟩)
    (others : Yields d rest ps ws) : Yields d (entry :: rest) ps (w :: ws)

theorem Yields.resolveAll {entries : List ParameterEntry} {ps : List Parameter} {ws : List String}
    (h : d.Yields entries ps ws) : d.sharedParameters.resolveAll entries = ⟨ps, ws⟩ := by
  induction h with
  | nil => rfl
  | keep h _ ih =>
    simp only [SharedParameters.resolveAll, Warned.mk.injEq] at ih ⊢
    rw [List.map_cons, resolve_eq_iff.2 h]
    exact ⟨congrArg (List.cons _) ih.1, ih.2⟩
  | drop h _ ih =>
    simp only [SharedParameters.resolveAll, Warned.mk.injEq] at ih ⊢
    rw [List.map_cons, resolve_eq_iff.2 h]
    exact ⟨ih.1, congrArg (List.cons _) ih.2⟩

/-- Every list yields something. -/
theorem exists_yields (d : Document) (entries : List ParameterEntry) :
    ∃ ps ws, d.Yields entries ps ws := by
  induction entries with
  | nil => exact ⟨[], [], .nil⟩
  | cons entry rest ih =>
    obtain ⟨ps, ws, hothers⟩ := ih
    have hfound : d.ComesTo entry (d.sharedParameters.resolve entry) := resolve_eq_iff.1 rfl
    generalize d.sharedParameters.resolve entry = found at hfound
    cases hfound with
    | reaches h => exact ⟨_, ws, .keep (.reaches h) hothers⟩
    | stops h hnowhere => exact ⟨ps, _, .drop (.stops h hnowhere) hothers⟩
    | circles h => exact ⟨ps, _, .drop (.circles h) hothers⟩

theorem resolveAll_eq_iff {entries : List ParameterEntry} {ps : List Parameter}
    {ws : List String} :
    d.sharedParameters.resolveAll entries = ⟨ps, ws⟩ ↔ d.Yields entries ps ws := by
  refine ⟨fun h => ?_, Yields.resolveAll⟩
  obtain ⟨ps', ws', hyields⟩ := exists_yields d entries
  obtain ⟨rfl, rfl⟩ := Warned.mk.inj (hyields.resolveAll.symm.trans h)
  exact hyields

/-- **Shared parameters are found**: what is found for an entry is the outcome of its
    chain. That is a parameter exactly if the chain comes to it, and nothing exactly
    if the chain misses an entry, strays or is endless; a chain to a parameter takes
    no more steps than there are references. A list of entries yields the parameters
    of those that have one, in order, and one warning for each of the others. -/
theorem parameters_found (d : Document) :
    (∀ entry, (∀ found, d.sharedParameters.resolve entry = found ↔ d.ComesTo entry found)
        ∧ (∀ p, (d.sharedParameters.resolve entry).value = some p
          ↔ ∃ n, Chain d.PassesTo n entry (.inline p))
        ∧ ((d.sharedParameters.resolve entry).value = none
          ↔ d.Misses entry ∨ d.Strays entry ∨ Endless d.PassesTo entry)
        ∧ ∀ n p, Chain d.PassesTo n entry (.inline p) → n ≤ (d.referencesFrom entry).length)
      ∧ ∀ entries ps ws,
        d.sharedParameters.resolveAll entries = ⟨ps, ws⟩ ↔ d.Yields entries ps ws :=
  ⟨fun _ => ⟨fun _ => resolve_eq_iff, fun _ => resolve_value_eq_some_iff,
      resolve_value_eq_none_iff, fun _ _ => length_le_of_chain⟩,
    fun _ _ _ => resolveAll_eq_iff⟩

-- A reference into the newer table leads on into the older one; one to itself does not.
example :
    let d : Document :=
      { parameters := [("id", .inline { name := "id", location := .path })]
        components := some
          { parameters := [("key", .reference "#/parameters/id"),
              ("loop", .reference "#/components/parameters/loop")] } }
    ((d.sharedParameters.resolveAll [.reference "#/components/parameters/key",
        .reference "#/components/parameters/loop", .reference "#/definitions/id"]).value.map
          (·.name),
      (d.sharedParameters.resolveAll [.reference "#/components/parameters/key",
        .reference "#/components/parameters/loop", .reference "#/definitions/id"]).warnings)
      = (["id"], ["circular parameter reference #/components/parameters/loop, skipping",
          "unresolved parameter reference #/definitions/id, skipping"]) := by
  decide +kernel

end Document

end TypedClient
