import TypedClient.Proofs.FunctionNames
import TypedClient.Proofs.Hygiene

/-! # Names in signatures

    The identifiers that the signature of a function binds: those of the
    arguments, in order, and that of the body behind them.

    * **Usable** names are bare names that are no reserved words. A sanitized name
      is usable whatever it was made from, and stays so with a number behind it.
    * **Rule**: an identifier is the one asked for if none before it is the same,
      else that with the first free number from two on behind it.
    * **Ending**: the search for that number is over after as many candidates as
      there are identifiers before, and one more.
-/

namespace TypedClient

/-! ### Usable names -/

namespace Name

/-- **Usable** as the name of an argument: a bare name that is no reserved word. -/
structure Usable (name : String) : Prop where
  plain : isPlain name = true
  notReserved : isReserved name.toList = false

theorem isReserved_eq_false_iff {s : List Char} :
    isReserved s = false ↔ ∀ word ∈ reservedWords, word.toList ≠ s := by
  simp [isReserved]

/-- No reserved word starts with an underscore. -/
theorem isReserved_underscore (s : List Char) : isReserved ('_' :: s) = false := by
  rw [isReserved_eq_false_iff]
  intro word hword heq
  have hall : ∀ word ∈ reservedWords, word.toList.head? ≠ some '_' := by decide +kernel
  exact hall word hword (by rw [heq]; rfl)

/-- A guarded name is not empty, does not start with a digit and is no reserved
    word. -/
theorem exists_guardName_eq (s : List Char) :
    ∃ c r, guardName s = c :: r ∧ c.isDigit = false ∧ isReserved (c :: r) = false := by
  cases s with
  | nil => exact ⟨'p', "aram".toList, rfl, by decide, by decide +kernel⟩
  | cons c r =>
    rw [guardName]
    split
    · exact ⟨'_', c :: r, rfl, by decide, isReserved_underscore (c :: r)⟩
    · rename_i hguard
      rw [Bool.not_eq_true, Bool.or_eq_false_iff] at hguard
      exact ⟨c, r, rfl, hguard.1, hguard.2⟩

theorem isFollowing_of_isParameterChar {c : Char} (h : isParameterChar c = true) :
    isFollowing c = true := by
  rw [isParameterChar, Bool.or_eq_true] at h
  rcases h with halnum | hunder
  · exact isFollowing_of_isAlphanum halnum
  · simp [isFollowing, hunder]

/-- Of the characters of identifiers all but the digits may start one. -/
theorem isInitial_of_isParameterChar {c : Char} (h : isParameterChar c = true)
    (hdigit : c.isDigit = false) : isInitial c = true := by
  rw [isParameterChar, Bool.or_eq_true] at h
  rcases h with halnum | hunder
  · have halpha : c.isAlpha = true := by
      simpa [Char.isAlphanum, hdigit] using halnum
    simp [isInitial, halpha]
  · simp [isInitial, hunder]

/-- **Sanitized** names are usable. -/
theorem usable_parameterName (s : String) : Usable (parameterName s) := by
  have hchars : ∀ c ∈ (parameterName s).toList, isParameterChar c = true :=
    fun c hc => isParameterChar_of_mem_parameterName hc
  obtain ⟨c, r, heq, hdigit, hreserved⟩ :=
    exists_guardName_eq (contract (trimUnderscores (underscored (dropBrackets s.toList))))
  have hlist : (parameterName s).toList = c :: r := by
    rw [parameterName, String.toList_ofList, parameterChars, heq]
  rw [hlist, List.forall_mem_cons] at hchars
  constructor
  · rw [isPlain, hlist, isPlainChars_cons]
    exact ⟨isInitial_of_isParameterChar hchars.1 hdigit,
      fun d hd => isFollowing_of_isParameterChar (hchars.2 d hd)⟩
  · rw [hlist]
    exact hreserved

/-- A number behind a bare name leaves it one. -/
theorem isPlain_numbered {name : String} (h : isPlain name = true) (n : Nat) :
    isPlain (numbered name n) = true := by
  have hdigits : ∀ d ∈ Nat.toDigits 10 n, isFollowing d = true := fun d hd =>
    isFollowing_of_isAlphanum
      (isAlphanum_of_isDigit (Nat.isDigit_of_mem_toDigits (by decide) (by decide) hd))
  rw [isPlain] at h ⊢
  rw [toList_numbered]
  cases hname : name.toList with
  | nil =>
    rw [hname] at h
    cases h
  | cons c r =>
    rw [hname, isPlainChars_cons] at h
    rw [List.cons_append, isPlainChars_cons]
    refine ⟨h.1, fun d hd => ?_⟩
    exact (List.mem_append.1 hd).elim (h.2 d) (hdigits d)

/-- No reserved word ends in a digit. -/
theorem isReserved_numbered (name : String) (n : Nat) :
    isReserved (numbered name n).toList = false := by
  rw [isReserved_eq_false_iff]
  intro word hword heq
  have hall : ∀ word ∈ reservedWords, ¬ EndsInDigit word := by decide +kernel
  have hends := endsInDigit_numbered name n
  rw [← String.toList_inj.1 heq] at hends
  exact hall word hword hends

namespace Usable

variable {name : String}

theorem bodyName : Usable bodyName :=
  ⟨by decide +kernel, by decide +kernel⟩

theorem ne_empty (h : Usable name) : name ≠ "" := by
  rintro rfl
  exact absurd h.plain (by decide)

/-- A number behind a usable name leaves it usable: it starts as before, and no
    reserved word ends in a digit. -/
theorem numbered (h : Usable name) (n : Nat) : Usable (numbered name n) where
  plain := isPlain_numbered h.plain n
  notReserved := isReserved_numbered name n

/-- **The step**: what is claimed under a usable name is usable. -/
theorem claimArgument (h : Usable name) (taken : List String) :
    Usable (claimArgument taken name) := by
  unfold TypedClient.claimArgument
  split
  · exact h.numbered _
  · exact h

end Usable

end Name

/-! ### Grants of identifiers -/

namespace Grant

/-- **The rule** for an identifier, by those before it: the one asked for if it is
    free, else that with the first free number from two on. -/
structure FirstFree (g : Grant) (earlier : List Grant) : Prop where
  free : g.wanted ∉ earlier.map (·.given) → g.given = g.wanted
  taken : g.wanted ∈ earlier.map (·.given) →
    ∃ n, 2 ≤ n ∧ n ≤ 2 + earlier.length
      ∧ g.given = numbered g.wanted n
      ∧ g.given ∉ earlier.map (·.given)
      ∧ ∀ m, 2 ≤ m → m < n → numbered g.wanted m ∈ earlier.map (·.given)

/-- A claim among the identifiers before follows the rule. -/
theorem firstFree_of_claim {g : Grant} {earlier : List Grant}
    (h : g.given = claimArgument (earlier.map (·.given)) g.wanted) : g.FirstFree earlier where
  free := by
    intro hfree
    rw [h, claimArgument, if_neg hfree]
  taken := by
    intro htaken
    rw [claimArgument, if_pos htaken] at h
    have hbounds := freeNumber_bounds (earlier.map (·.given)) g.wanted 2
    rw [List.length_map] at hbounds
    refine ⟨_, hbounds.1, hbounds.2, h, ?_, ?_⟩
    · rw [h]
      exact numbered_freeNumber _ _ _
    · intro m hm hlt
      exact numbered_mem_of_lt_freeNumber hm hlt

end Grant

/-- The identifiers of a signature, each with the one asked for: an argument asks
    for its sanitized key, the body for its one name. -/
def Endpoint.grants (e : Endpoint) : List Grant :=
  e.arguments.map (fun a => ⟨Name.parameterName a.key, a.name⟩)
    ++ (e.body.map (fun b => ⟨bodyName, b.name⟩)).toList

/-- The identifiers given are those that the signature binds. -/
theorem Endpoint.map_given_grants (e : Endpoint) : e.grants.map (·.given) = e.boundNames := by
  rw [boundNames_eq, grants, List.map_append, List.map_map]
  cases e.body <;> rfl

/-- Arguments that claim their names in turn do so as grants. -/
theorem Claimed.grants {arguments : List Argument} (h : Claimed arguments) :
    ∀ before g after,
      arguments.map (fun a => (⟨Name.parameterName a.key, a.name⟩ : Grant)) = before ++ g :: after →
        g.given = claimArgument (before.map (·.given)) g.wanted := by
  intro before g after hsplit
  obtain ⟨front, behind, rfl, rfl, hbehind⟩ := List.map_eq_append_iff.1 hsplit
  obtain ⟨a, rest, rfl, rfl, -⟩ := List.map_eq_cons_iff.1 hbehind
  rw [List.map_map]
  exact h front a rest rfl

namespace OperationSite

variable (site : OperationSite) (definitions : Definitions) (function : String)

/-- The arguments claim in order, and the body behind them. -/
theorem claim_of_grants :
    ∀ before g after, (site.endpoint definitions function).grants = before ++ g :: after →
      g.given = claimArgument (before.map (·.given)) g.wanted := by
  have harguments := (site.claimed_endpoint definitions function).grants
  unfold Endpoint.grants
  cases hbody : (site.endpoint definitions function).body with
  | none =>
    rw [Option.map_none, Option.toList_none, List.append_nil]
    exact harguments
  | some b =>
    refine forall_split_snoc harguments ?_
    rw [List.map_map]
    exact site.name_of_mem_body definitions function hbody

/-- What is asked for is usable, so what is given is. -/
theorem usable_of_mem_boundNames {name : String}
    (h : name ∈ (site.endpoint definitions function).boundNames) : Name.Usable name := by
  rw [← Endpoint.map_given_grants] at h
  obtain ⟨g, hg, rfl⟩ := List.mem_map.1 h
  obtain ⟨before, after, hsplit⟩ := List.append_of_mem hg
  rw [site.claim_of_grants definitions function before g after hsplit]
  rw [Endpoint.grants] at hg
  rcases List.mem_append.1 hg with hg | hg
  · obtain ⟨a, -, rfl⟩ := List.mem_map.1 hg
    exact (Name.usable_parameterName a.key).claimArgument _
  · obtain ⟨b, -, rfl⟩ := Option.map_eq_some_iff.1 (Option.mem_toList.1 hg)
    exact Name.Usable.bodyName.claimArgument _

/-- The body is called differently from all arguments, which differ anyway. -/
theorem nodup_boundNames : (site.endpoint definitions function).boundNames.Nodup := by
  have harguments := (site.wellNamed_endpoint definitions function).nodup
  rw [Endpoint.boundNames_eq]
  cases hbody : (site.endpoint definitions function).body with
  | none =>
    rw [Option.map_none, Option.toList_none, List.append_nil]
    exact harguments
  | some b =>
    refine List.nodup_append.2 ⟨harguments, List.nodup_singleton _, ?_⟩
    rintro taken htaken name hname rfl
    rw [Option.map_some, Option.toList_some, List.mem_singleton,
      site.name_of_mem_body definitions function hbody] at hname
    rw [hname] at htaken
    exact claimArgument_not_mem _ _ htaken

end OperationSite

/-! ### Signatures of documents -/

namespace Document

/-- **Distinct identifiers**: the identifiers that a signature binds, those of
    the arguments and that of the body, are pairwise different bare names and no
    reserved words. Each is the one asked for if that is free; for any other the
    search for a number ends, and finds the first one that is free. -/
theorem signature_names_distinct {d : Document} {source : String} {e : Endpoint}
    (h : e ∈ (d.client source).value.endpoints) :
    e.boundNames.Nodup
      ∧ (∀ name ∈ e.boundNames, Name.Usable name)
      ∧ e.grants.map (·.given) = e.boundNames
      ∧ ∀ before g after, e.grants = before ++ g :: after → g.FirstFree before := by
  obtain ⟨site, -, function, -, rfl⟩ := exists_site h
  refine ⟨site.nodup_boundNames _ _, fun name => site.usable_of_mem_boundNames _ _,
    Endpoint.map_given_grants _, ?_⟩
  intro before g after hsplit
  exact Grant.firstFree_of_claim (site.claim_of_grants _ _ before g after hsplit)

/-- Keys that are sanitized alike, and one that looks like a name with a number. -/
theorem signature_names_distinct_sample :
    ∃ e ∈ ((ofQuery ["x", "x[]", "x2", "_x_", "delete"]).client "").value.endpoints,
      e.boundNames = ["x", "x2", "x22", "x3", "_delete"]
        ∧ e.boundNames.Nodup ∧ ∀ name ∈ e.boundNames, Name.Usable name := by
  have hcomputed : ∃ e ∈ ((ofQuery ["x", "x[]", "x2", "_x_", "delete"]).client "").value.endpoints,
      e.boundNames = ["x", "x2", "x22", "x3", "_delete"] := by
    decide +kernel
  obtain ⟨e, he, hnames⟩ := hcomputed
  obtain ⟨hnodup, husable, -, -⟩ := signature_names_distinct he
  exact ⟨e, he, hnames, hnodup, husable⟩

end Document

end TypedClient
