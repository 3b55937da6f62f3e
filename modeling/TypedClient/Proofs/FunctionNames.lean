import TypedClient.Proofs.Arguments

/-! # Names of functions

    The functions of a client get their names one after the other, and no two of
    them get the same one, whatever names the operations ask for.

    * **Records**: the table of names lists those handed out so far, in order,
      and counts how often each one was asked for or handed out.
    * **Rule**: a name that was not handed out before is given as it is. Any other
      gets a number behind it: the first free one from its count on, which comes
      after no more candidates than there are names handed out.
    * **Runs**: what one claim keeps, and what it gives, goes for every claim of a
      document.
-/

namespace TypedClient

/-! ### Free numbers -/

/-- The search for a free number succeeds. -/
theorem find?_freeNumber (taken : List String) (name : String) (start : Nat) :
    (List.range' start (taken.length + 1)).find? (fun n => !taken.contains (numbered name n))
      = some (freeNumber taken name start) := by
  obtain ⟨n, hn, hfree⟩ := exists_free taken name start
  unfold freeNumber
  cases hfound : (List.range' start (taken.length + 1)).find?
      (fun n => !taken.contains (numbered name n)) with
  | none =>
    have hall := List.find?_eq_none.1 hfound n hn
    simp [hfree] at hall
  | some m => rfl

/-- It ends after no more candidates than there are names taken. -/
theorem freeNumber_bounds (taken : List String) (name : String) (start : Nat) :
    start ≤ freeNumber taken name start
      ∧ freeNumber taken name start ≤ start + taken.length := by
  have hmem := (List.find?_range'_eq_some.1 (find?_freeNumber taken name start)).2.1
  rw [List.mem_range'_1] at hmem
  omega

/-- Every number before the first free one gives a name that is taken. -/
theorem numbered_mem_of_lt_freeNumber {taken : List String} {name : String} {start m : Nat}
    (hstart : start ≤ m) (hm : m < freeNumber taken name start) : numbered name m ∈ taken := by
  have hbefore := (List.find?_range'_eq_some.1 (find?_freeNumber taken name start)).2.2 m hstart hm
  simpa using hbefore

/-! ### Grants -/

/-- A name that was handed out, and the one that had been asked for. -/
structure Grant where
  wanted : String
  given : String

namespace Grant

/-- How often a name was asked for or handed out. -/
def count (earlier : List Grant) (name : String) : Nat :=
  earlier.countP (fun g => g.wanted == name || g.given == name)

/-- **The rule** for a grant, by those before it: a name that none of them gave
    is given as it is, and any other with the first free number behind it. -/
structure Follows (g : Grant) (earlier : List Grant) : Prop where
  free : g.wanted ∉ earlier.map (·.given) → g.given = g.wanted
  taken : g.wanted ∈ earlier.map (·.given) →
    ∃ n, count earlier g.wanted < n ∧ n ≤ count earlier g.wanted + 1 + earlier.length
      ∧ g.given = numbered g.wanted n
      ∧ g.given ∉ earlier.map (·.given)
      ∧ ∀ m, count earlier g.wanted < m → m < n →
          numbered g.wanted m ∈ earlier.map (·.given)

theorem count_append (earlier : List Grant) (g : Grant) (name : String) :
    count (earlier ++ [g]) name
      = count earlier name + if g.wanted = name ∨ g.given = name then 1 else 0 := by
  have hone : count [g] name = if g.wanted = name ∨ g.given = name then 1 else 0 := by
    simp [count, List.countP_singleton]
  rw [← hone]
  exact List.countP_append

end Grant

/-! ### Records -/

namespace FunctionNames

/-- **The invariant** of the table of names: it lists what was handed out, without
    repeats, and its numbers count. -/
structure Records (names : FunctionNames) (earlier : List Grant) : Prop where
  keys : Table.keys names = earlier.map (·.given)
  nodup : (earlier.map (·.given)).Nodup
  /-- A name that is not in the table counts as zero. -/
  counts : ∀ name, (Table.find? name names).getD 0 = Grant.count earlier name

theorem records_nil : Records [] [] :=
  ⟨rfl, List.nodup_nil, fun _ => rfl⟩

/-- The grant of a name that is asked for. -/
def grant (names : FunctionNames) (wanted : String) : Grant :=
  ⟨wanted, (names.claim wanted).value.1⟩

@[simp]
theorem grant_wanted (names : FunctionNames) (wanted : String) :
    (names.grant wanted).wanted = wanted :=
  rfl

namespace Records

variable {names : FunctionNames} {earlier : List Grant} {wanted : String}

/-- A name that was not handed out was not asked for. -/
theorem count_eq_zero (h : Records names earlier) {name : String}
    (hname : name ∉ earlier.map (·.given)) : Grant.count earlier name = 0 := by
  rw [← h.keys] at hname
  rw [← h.counts, Table.find?_eq_none_iff.2 hname]
  rfl

/-- A name that was handed out counts. -/
theorem count_pos (hname : wanted ∈ earlier.map (·.given)) : 0 < Grant.count earlier wanted := by
  obtain ⟨g, hg, rfl⟩ := List.mem_map.1 hname
  exact List.countP_pos_iff.2 ⟨g, hg, by simp⟩

/-- What is handed out for a free name: the name. -/
theorem claim_free (h : Records names earlier) (hwanted : wanted ∉ earlier.map (·.given)) :
    (names.claim wanted).value = (wanted, Table.insert wanted 1 names) := by
  have hcount : (Table.find? wanted names).getD 0 = 0 := by
    rw [h.counts, h.count_eq_zero hwanted]
  unfold claim
  simp only [hcount]
  rfl

/-- What is handed out for a taken name: the name with a free number behind it. -/
theorem claim_taken (h : Records names earlier) (hwanted : wanted ∈ earlier.map (·.given)) :
    (names.claim wanted).value
      = (numbered wanted (freeNumber (earlier.map (·.given)) wanted
            (Grant.count earlier wanted + 1)),
          Table.insert (numbered wanted (freeNumber (earlier.map (·.given)) wanted
              (Grant.count earlier wanted + 1))) 1
            (Table.insert wanted (Grant.count earlier wanted + 1) names)) := by
  have hpos := count_pos hwanted
  have hkeys : Table.keys (Table.insert wanted (Grant.count earlier wanted + 1) names)
      = earlier.map (·.given) := by
    rw [Table.keys_insert, h.keys, if_pos hwanted]
  unfold claim
  simp only [h.counts, hkeys]
  rw [if_neg (by omega)]

/-- **What a claim gives** follows the rule. -/
theorem follows_grant (h : Records names earlier) (wanted : String) :
    (names.grant wanted).Follows earlier where
  free := by
    intro (hwanted : wanted ∉ earlier.map (·.given))
    show (names.claim wanted).value.1 = wanted
    rw [h.claim_free hwanted]
  taken := by
    intro (hwanted : wanted ∈ earlier.map (·.given))
    have hgiven : (names.grant wanted).given = numbered wanted
        (freeNumber (earlier.map (·.given)) wanted (Grant.count earlier wanted + 1)) := by
      show (names.claim wanted).value.1 = _
      rw [h.claim_taken hwanted]
    have hbounds := freeNumber_bounds (earlier.map (·.given)) wanted
      (Grant.count earlier wanted + 1)
    rw [List.length_map] at hbounds
    refine ⟨_, hbounds.1, hbounds.2, hgiven, ?_, ?_⟩
    · rw [hgiven]
      exact numbered_freeNumber _ _ _
    · intro m hm hlt
      exact numbered_mem_of_lt_freeNumber hm hlt

/-- A name that is handed out is new. -/
theorem given_not_mem (h : Records names earlier) (wanted : String) :
    (names.grant wanted).given ∉ earlier.map (·.given) := by
  have hrule := h.follows_grant wanted
  by_cases hwanted : wanted ∈ earlier.map (·.given)
  · obtain ⟨n, -, -, -, hnew, -⟩ := hrule.taken hwanted
    exact hnew
  · rw [hrule.free hwanted]
    exact hwanted

theorem nodup_snoc (h : Records names earlier) (wanted : String) :
    ((earlier ++ [names.grant wanted]).map (·.given)).Nodup := by
  rw [List.map_append, List.map_singleton]
  refine List.nodup_append.2 ⟨h.nodup, List.nodup_singleton _, ?_⟩
  intro old hold given hgiven heq
  rw [List.mem_singleton] at hgiven
  rw [heq, hgiven] at hold
  exact h.given_not_mem wanted hold

theorem claim_of_free (h : Records names earlier) (hwanted : wanted ∉ earlier.map (·.given)) :
    Records (names.claim wanted).value.2 (earlier ++ [names.grant wanted]) := by
  have htable : (names.claim wanted).value.2 = Table.insert wanted 1 names := by
    rw [h.claim_free hwanted]
  have hgiven : (names.grant wanted).given = wanted := (h.follows_grant wanted).free hwanted
  refine ⟨?_, h.nodup_snoc wanted, ?_⟩
  · rw [htable, Table.keys_insert, h.keys, if_neg hwanted, List.map_append, List.map_singleton,
      hgiven]
  · intro name
    rw [htable, Grant.count_append, grant_wanted, hgiven]
    by_cases hname : wanted = name
    · rw [← hname, Table.find?_insert_self, h.count_eq_zero hwanted]
      simp
    · rw [Table.find?_insert_of_ne (Ne.symm hname), h.counts]
      simp [hname]

theorem claim_of_taken (h : Records names earlier) (hwanted : wanted ∈ earlier.map (·.given)) :
    Records (names.claim wanted).value.2 (earlier ++ [names.grant wanted]) := by
  have hnew := h.given_not_mem wanted
  have htable : (names.claim wanted).value.2
      = Table.insert (names.grant wanted).given 1
          (Table.insert wanted (Grant.count earlier wanted + 1) names) := by
    rw [grant, h.claim_taken hwanted]
  refine ⟨?_, h.nodup_snoc wanted, ?_⟩
  · rw [htable, Table.keys_insert, Table.keys_insert, h.keys, if_pos hwanted, if_neg hnew,
      List.map_append, List.map_singleton]
  · intro name
    rw [htable, Grant.count_append, grant_wanted]
    by_cases hgiven : (names.grant wanted).given = name
    · rw [← hgiven, Table.find?_insert_self, h.count_eq_zero hnew]
      simp
    · rw [Table.find?_insert_of_ne (Ne.symm hgiven)]
      by_cases hname : wanted = name
      · rw [← hname, Table.find?_insert_self]
        simp
      · rw [Table.find?_insert_of_ne (Ne.symm hname), h.counts]
        simp [hname, hgiven]

/-- **What a claim keeps**: the table goes on recording. -/
theorem claim (h : Records names earlier) (wanted : String) :
    Records (names.claim wanted).value.2 (earlier ++ [names.grant wanted]) := by
  by_cases hwanted : wanted ∈ earlier.map (·.given)
  · exact h.claim_of_taken hwanted
  · exact h.claim_of_free hwanted

end Records

/-! ### Runs of claims -/

/-- The grants of a run of claims. -/
def grants (names : FunctionNames) (wanted : List String) : List Grant :=
  List.zipWith Grant.mk wanted (names.claimAll wanted)

theorem grants_cons (names : FunctionNames) (wanted : String) (rest : List String) :
    names.grants (wanted :: rest)
      = names.grant wanted :: grants (names.claim wanted).value.2 rest :=
  rfl

/-- A run gives one name for each that is asked for. -/
theorem length_claimAll (names : FunctionNames) (wanted : List String) :
    (names.claimAll wanted).length = wanted.length := by
  induction wanted generalizing names with
  | nil => rfl
  | cons w rest ih =>
    rw [claimAll, List.length_cons, List.length_cons, ih]

/-- **The run**: all names handed out differ, and every grant follows the rule. -/
theorem Records.follows_grants {names : FunctionNames} {earlier : List Grant}
    (h : Records names earlier) (wanted : List String) :
    ((earlier ++ grants names wanted).map Grant.given).Nodup
      ∧ ∀ before g after, grants names wanted = before ++ g :: after →
          g.Follows (earlier ++ before) := by
  induction wanted generalizing names earlier with
  | nil =>
    constructor
    · show ((earlier ++ []).map Grant.given).Nodup
      rw [List.append_nil]
      exact h.nodup
    · intro before g after hsplit
      cases before <;> cases hsplit
  | cons w rest ih =>
    obtain ⟨hnodup, hrule⟩ := ih (h.claim w)
    rw [grants_cons]
    constructor
    · rw [List.append_assoc] at hnodup
      exact hnodup
    · intro before g after hsplit
      cases before with
      | nil =>
        obtain ⟨rfl, -⟩ := List.cons.inj hsplit
        rw [List.append_nil]
        exact h.follows_grant w
      | cons first more =>
        obtain ⟨rfl, hrest⟩ := List.cons.inj hsplit
        have hmore := hrule more g after hrest
        rw [List.append_assoc] at hmore
        exact hmore

/-- A name that is handed out is the wanted one, or has a number behind it. -/
theorem value_claim (names : FunctionNames) (wanted : String) :
    (names.claim wanted).value.1 = wanted
      ∨ ∃ n, (names.claim wanted).value.1 = numbered wanted n := by
  unfold claim
  simp only
  split
  · exact .inl rfl
  · exact .inr ⟨_, rfl⟩

/-- All names that are handed out are wanted ones, or have a number behind them. -/
theorem exists_of_mem_claimAll {names : FunctionNames} {wanted : List String}
    {name : String} (h : name ∈ names.claimAll wanted) :
    ∃ w ∈ wanted, name = w ∨ ∃ n, name = numbered w n := by
  induction wanted generalizing names with
  | nil => simp [claimAll] at h
  | cons w rest ih =>
    rcases List.mem_cons.1 h with rfl | h
    · exact ⟨w, List.mem_cons_self, names.value_claim w⟩
    · obtain ⟨v, hv, hname⟩ := ih h
      exact ⟨v, List.mem_cons_of_mem w hv, hname⟩

/-- A name that is asked for is one of those handed out, then or before. -/
theorem Records.mem_or_mem_claimAll {names : FunctionNames} {earlier : List Grant}
    (h : Records names earlier) {wanted : List String} {name : String} (hname : name ∈ wanted) :
    name ∈ earlier.map (·.given) ∨ name ∈ names.claimAll wanted := by
  induction wanted generalizing names earlier with
  | nil => exact absurd hname List.not_mem_nil
  | cons w rest ih =>
    rw [claimAll, List.mem_cons]
    rcases List.mem_cons.1 hname with rfl | hrest
    · by_cases htaken : name ∈ earlier.map (·.given)
      · exact .inl htaken
      · exact .inr (.inl ((h.follows_grant name).free htaken).symm)
    · have hlater := ih (h.claim w) hrest
      rw [List.map_append, List.map_singleton, List.mem_append, List.mem_singleton] at hlater
      rcases hlater with (hbefore | rfl) | hmem
      · exact .inl hbefore
      · exact .inr (.inl rfl)
      · exact .inr (.inr hmem)

-- A suffix that is asked for by name, before and after it was handed out.
example : FunctionNames.claimAll [] ["fetch", "fetch", "fetch2", "fetch22"]
    = ["fetch", "fetch2", "fetch22", "fetch222"] := by
  rfl

end FunctionNames

/-! ### Functions of a document -/

namespace Document

variable (d : Document) (source : String)

/-- The names of the endpoints of a document, each with the one that its
    operation asks for. -/
def grants : List Grant :=
  List.zipWith (fun site e => ⟨site.wantedName, e.name⟩) d.sites
    (d.client source).value.endpoints

theorem length_functionNames : d.functionNames.length = d.sites.length := by
  rw [functionNames, FunctionNames.length_claimAll, List.length_map]

/-- The functions of a client are called what was handed out. -/
theorem map_name_endpoints :
    (d.client source).value.endpoints.map (·.name) = d.functionNames := by
  rw [endpoints_client, List.map_zipWith]
  apply List.ext_getElem
  · rw [List.length_zipWith, length_functionNames, Nat.min_self]
  · intro i hi hi'
    rw [List.getElem_zipWith]
    rfl

theorem grants_eq :
    d.grants source = FunctionNames.grants [] (d.sites.map (·.wantedName)) := by
  have hnames := d.map_name_endpoints source
  have hgrants : d.grants source
      = List.zipWith Grant.mk (d.sites.map (·.wantedName))
          ((d.client source).value.endpoints.map (·.name)) := by
    rw [List.zipWith_map]
    rfl
  rw [hgrants, hnames]
  rfl

/-- **Distinct functions**: a document has one function for each operation, no two
    of the same name. A name that no operation before was given is given as it is
    asked for; for any other the search for a number ends, and finds the first one
    that is free. -/
theorem functions_distinct :
    (d.client source).value.endpoints.length = d.sites.length
      ∧ ((d.client source).value.endpoints.map (·.name)).Nodup
      ∧ ∀ before g after, d.grants source = before ++ g :: after → g.Follows before := by
  obtain ⟨hnodup, hrule⟩ := FunctionNames.records_nil.follows_grants (d.sites.map (·.wantedName))
  have hlength : (d.client source).value.endpoints.length = d.sites.length := by
    rw [← d.length_functionNames, ← d.map_name_endpoints source, List.length_map]
  refine ⟨hlength, ?_, ?_⟩
  · have hgiven : (d.grants source).map (·.given)
        = (d.client source).value.endpoints.map (·.name) := by
      rw [grants, List.map_zipWith]
      apply List.ext_getElem
      · rw [List.length_zipWith, List.length_map, hlength, Nat.min_self]
      · intro i hi hi'
        rw [List.getElem_zipWith, List.getElem_map]
    rw [← hgiven, d.grants_eq source]
    exact hnodup
  · rw [d.grants_eq source]
    exact hrule

end Document

end TypedClient
