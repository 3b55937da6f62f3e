import Mathlib.Data.List.Chain
import TypedClient.Proofs.SignatureNames

/-! # Names that are sanitized once

    The name of a parameter, sanitized once more, stays as it is. Brackets and other
    characters have gone for good after the first time. Of two steps this is less plain:

    * **Contraction** moves letters up to underscores. It takes an underscore and a
      small letter at a time and writes a capital, so that no underscore in front of
      a small letter is left, and none comes to an end of the text.
    * **The guard** puts an underscore in front, which is trimmed the next time. What
      is left then is the text that was guarded, and it is guarded again.
-/

namespace TypedClient.Name

/-! ### Cores -/

/-- An underscore that makes a capital of the character behind it. -/
def Contracts (c d : Char) : Prop :=
  c = '_' ∧ d.isLower = true
  deriving Decidable

/-- **A core**: what is left of a name in front of the guard. -/
structure IsCore (s : List Char) : Prop where
  chars : ∀ c ∈ s, isParameterChar c = true
  head : '_' ∉ s.head?
  last : '_' ∉ s.getLast?
  contracted : s.IsChain (fun c d => ¬ Contracts c d)

/-! ### Steps that leave a core alone -/

theorem dropBrackets_of_chars {s : List Char} (h : ∀ c ∈ s, isParameterChar c = true) :
    dropBrackets s = s := by
  fun_induction dropBrackets s with
  | case1 => rfl
  | case2 r ih =>
    have hbracket : isParameterChar '[' = true := h '[' List.mem_cons_self
    exact absurd hbracket (by decide)
  | case3 c r hpair ih => rw [ih fun d hd => h d (List.mem_cons_of_mem c hd)]

theorem underscored_of_chars {s : List Char} (h : ∀ c ∈ s, isParameterChar c = true) :
    underscored s = s := by
  have hsame : ∀ c ∈ s, (if c.isAlphanum || c == '_' then c else '_') = id c :=
    fun c hc => if_pos (h c hc)
  rw [underscored, List.map_congr_left hsame, List.map_id]

theorem dropUnderscoresEnd_of_last {s : List Char} (h : '_' ∉ s.getLast?) :
    dropUnderscoresEnd s = s := by
  induction s with
  | nil => rfl
  | cons c r ih =>
    rw [dropUnderscoresEnd]
    cases r with
    | nil =>
      have hc : c ≠ '_' := fun hc => h (by rw [hc]; rfl)
      simp [dropUnderscoresEnd, hc]
    | cons d t =>
      rw [List.getLast?_cons_cons] at h
      rw [ih h]

theorem trimUnderscores_of_ends {s : List Char} (hhead : '_' ∉ s.head?)
    (hlast : '_' ∉ s.getLast?) : trimUnderscores s = s := by
  have hfront : s.dropWhile (· == '_') = s := by
    cases s with
    | nil => rfl
    | cons c r =>
      have hc : c ≠ '_' := fun hc => hhead (by rw [hc]; rfl)
      rw [List.dropWhile_cons_of_neg (by simpa using hc)]
  rw [trimUnderscores, hfront, dropUnderscoresEnd_of_last hlast]

theorem contract_of_isChain {s : List Char} (h : s.IsChain (fun c d => ¬ Contracts c d)) :
    contract s = s := by
  fun_induction contract s with
  | case1 => rfl
  | case2 c => rfl
  | case3 c d r hpair ih => exact absurd hpair (List.isChain_cons_cons.1 h).1
  | case4 c d r hpair ih => rw [ih (List.isChain_cons_cons.1 h).2]

/-- A core is only guarded. -/
theorem IsCore.parameterChars_eq {s : List Char} (h : IsCore s) :
    parameterChars s = guardName s := by
  rw [parameterChars, dropBrackets_of_chars h.chars, underscored_of_chars h.chars,
    trimUnderscores_of_ends h.head h.last, contract_of_isChain h.contracted]

/-! ### Steps that make a core -/

theorem last_cons {c : Char} {s : List Char} (hc : s = [] → c ≠ '_') (h : '_' ∉ s.getLast?) :
    '_' ∉ (c :: s).getLast? := by
  cases s with
  | nil =>
    have hne : c ≠ '_' := hc rfl
    simpa using hne
  | cons d r => rwa [List.getLast?_cons_cons]

theorem last_dropUnderscoresEnd (s : List Char) : '_' ∉ (dropUnderscoresEnd s).getLast? := by
  induction s with
  | nil => exact Option.not_mem_none '_'
  | cons c r ih =>
    rw [dropUnderscoresEnd]
    split
    · split
      · exact Option.not_mem_none '_'
      · rename_i hc
        exact last_cons (fun _ => hc) (Option.not_mem_none '_')
    · rename_i hne
      exact last_cons (fun hnil => absurd hnil hne) ih

/-- Dropping underscores at the end leaves a text that does not start with one as
    it starts. -/
theorem head_dropUnderscoresEnd {s : List Char} (h : '_' ∉ s.head?) :
    '_' ∉ (dropUnderscoresEnd s).head? := by
  cases s with
  | nil => exact h
  | cons c r =>
    rw [dropUnderscoresEnd]
    split
    · split
      · exact Option.not_mem_none '_'
      · exact h
    · exact h

theorem head_trimUnderscores (s : List Char) : '_' ∉ (trimUnderscores s).head? := by
  refine head_dropUnderscoresEnd fun hmem => ?_
  have hfirst := List.head?_dropWhile_not (· == '_') s
  rw [Option.mem_def.1 hmem] at hfirst
  cases hfirst

theorem isUpper_toUpper_of_isLower {c : Char} (h : c.isLower = true) : c.toUpper.isUpper = true :=
  (isUpper_toUpper c).trans (isAlpha_of_isLower h)

theorem ne_underscore_of_isUpper {c : Char} (h : c.isUpper = true) : c ≠ '_' := by
  rintro rfl
  exact absurd h (by decide)

theorem contract_cons_ne_nil (c : Char) (r : List Char) : contract (c :: r) ≠ [] := by
  cases r with
  | nil => exact List.cons_ne_nil _ _
  | cons d t =>
    rw [contract]
    split <;> exact List.cons_ne_nil _ _

/-- What a contraction starts with: the first character, or a capital for the letter
    behind it. -/
theorem head_contract {c d : Char} {r : List Char} (h : d ∈ (contract (c :: r)).head?) :
    d = c ∨ (c = '_' ∧ d.isUpper = true) := by
  cases r with
  | nil => exact .inl (Option.some.inj h).symm
  | cons e t =>
    rw [contract] at h
    split at h
    · rename_i hpair
      obtain rfl : e.toUpper = d := Option.some.inj h
      exact .inr ⟨hpair.1, isUpper_toUpper_of_isLower hpair.2⟩
    · exact .inl (Option.some.inj h).symm

/-- **Contraction** leaves no underscore in front of a small letter. -/
theorem isChain_contract (s : List Char) :
    (contract s).IsChain (fun c d => ¬ Contracts c d) := by
  fun_induction contract s with
  | case1 => exact .nil
  | case2 c => exact .singleton c
  | case3 c d r hpair ih =>
    refine List.isChain_cons.2 ⟨fun e _ hcontracts => ?_, ih⟩
    exact ne_underscore_of_isUpper (isUpper_toUpper_of_isLower hpair.2) hcontracts.1
  | case4 c d r hpair ih =>
    refine List.isChain_cons.2 ⟨fun e he hcontracts => ?_, ih⟩
    -- The next character is the one that did not contract, or a capital.
    rcases head_contract he with rfl | ⟨-, hupper⟩
    · exact hpair hcontracts
    · exact Bool.eq_false_iff.1 (isLower_of_isUpper hupper) hcontracts.2

/-- A contraction brings no underscore to the front of a text. -/
theorem head_contract_ne {s : List Char} (h : '_' ∉ s.head?) : '_' ∉ (contract s).head? := by
  cases s with
  | nil => exact h
  | cons c r =>
    intro hmem
    rcases head_contract hmem with rfl | ⟨rfl, -⟩ <;> exact h rfl

/-- A contraction brings no underscore to the end of a text. -/
theorem last_contract {s : List Char} (h : '_' ∉ s.getLast?) : '_' ∉ (contract s).getLast? := by
  fun_induction contract s with
  | case1 => exact h
  | case2 c => exact h
  | case3 c d r hpair ih =>
    refine last_cons (fun _ => ne_underscore_of_isUpper (isUpper_toUpper_of_isLower hpair.2)) (ih ?_)
    cases r with
    | nil => exact Option.not_mem_none '_'
    | cons e t => rwa [List.getLast?_cons_cons, List.getLast?_cons_cons] at h
  | case4 c d r hpair ih =>
    rw [List.getLast?_cons_cons] at h
    exact last_cons (fun hnil => absurd hnil (contract_cons_ne_nil d r)) (ih h)

/-- **What the guard is given** is a core, whatever the name. -/
theorem isCore (s : List Char) :
    IsCore (contract (trimUnderscores (underscored (dropBrackets s)))) where
  chars := fun _ hc => isParameterChar_of_mem_contract
    (fun _ hd => isParameterChar_of_mem_underscored
      ((List.dropWhile_suffix _).subset (mem_of_mem_dropUnderscoresEnd hd))) hc
  head := head_contract_ne (head_trimUnderscores _)
  last := last_contract (last_dropUnderscoresEnd _)
  contracted := isChain_contract _

/-! ### Guarded cores -/

/-- **The shape** of a sanitized name: a core that may stand as it is, or one behind an
    underscore that may not. -/
inductive IsSanitized : List Char → Prop where
  | bare {c : Char} {r : List Char} (core : IsCore (c :: r))
      (stands : (c.isDigit || isReserved (c :: r)) = false) : IsSanitized (c :: r)
  | guarded {c : Char} {r : List Char} (core : IsCore (c :: r))
      (falls : (c.isDigit || isReserved (c :: r)) = true) : IsSanitized ('_' :: c :: r)

theorem isSanitized_param : IsSanitized ['p', 'a', 'r', 'a', 'm'] :=
  .bare ⟨by decide, by decide, by decide, by decide⟩ (by decide +kernel)

theorem IsCore.isSanitized {s : List Char} (h : IsCore s) : IsSanitized (guardName s) := by
  cases s with
  | nil => exact isSanitized_param
  | cons c r =>
    rw [guardName]
    split
    · rename_i hfalls
      exact .guarded h hfalls
    · rename_i hstands
      exact .bare h (Bool.eq_false_iff.2 hstands)

theorem isSanitized_parameterChars (s : List Char) : IsSanitized (parameterChars s) :=
  (isCore s).isSanitized

/-- An underscore in front of a name is trimmed. -/
theorem parameterChars_underscore (s : List Char) :
    parameterChars ('_' :: s) = parameterChars s := by
  rfl

/-- **Sanitized names** are left as they are. -/
theorem IsSanitized.parameterChars_eq {s : List Char} (h : IsSanitized s) :
    parameterChars s = s := by
  cases h with
  | @bare c r hcore hstands => rw [hcore.parameterChars_eq, guardName, hstands, if_neg (by decide)]
  | @guarded c r hcore hfalls =>
    rw [parameterChars_underscore, hcore.parameterChars_eq, guardName, hfalls, if_pos rfl]

/-! ### Names -/

/-- **Names of parameters settle**: a sanitized name is not empty, a bare name of ASCII
    letters, digits and underscores, and no reserved word, whatever text it is made
    from. Sanitizing it once more changes nothing, and the texts that it leaves alone
    are those of its own shape. -/
theorem parameterName_settles (s : String) :
    parameterName s ≠ ""
      ∧ isPlain (parameterName s) = true
      ∧ (∀ c ∈ (parameterName s).toList, c.isAlphanum = true ∨ c = '_')
      ∧ parameterName s ∉ reservedWords
      ∧ parameterName (parameterName s) = parameterName s
      ∧ (parameterName s = s ↔ IsSanitized s.toList) := by
  have husable : Usable (parameterName s) := usable_parameterName s
  have hreserved : parameterName s ∉ reservedWords := fun hmem =>
    isReserved_eq_false_iff.1 husable.notReserved _ hmem rfl
  have hchars : ∀ c ∈ (parameterName s).toList, c.isAlphanum = true ∨ c = '_' := by
    intro c hc
    have hchar := isParameterChar_of_mem_parameterName hc
    rwa [isParameterChar, Bool.or_eq_true, beq_iff_eq] at hchar
  have htwice : parameterName (parameterName s) = parameterName s := by
    rw [parameterName, parameterName, String.toList_ofList,
      (isSanitized_parameterChars s.toList).parameterChars_eq]
  have hfixed : parameterName s = s ↔ IsSanitized s.toList := by
    rw [← String.toList_inj, parameterName, String.toList_ofList]
    constructor
    · intro hsame
      exact hsame ▸ isSanitized_parameterChars s.toList
    · exact fun hshape => hshape.parameterChars_eq
  exact ⟨husable.ne_empty, husable.plain, hchars, hreserved, htwice, hfixed⟩

-- Brackets inside brackets, underscores that meet, a leading digit, a reserved word.
example : ["a[[]]_b", "__x__y_", "1st_a", "de_lete[]", "dele_te", "[]"].map parameterName
    = ["a__B", "x_Y", "_1stA", "deLete", "deleTe", "param"] := by
  decide +kernel

end TypedClient.Name
