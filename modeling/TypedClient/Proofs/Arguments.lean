import Mathlib.Data.List.Nodup
import Mathlib.Data.List.Perm.Subperm
import TypedClient.Proofs.Characters
import TypedClient.Proofs.ClientRun

/-! # Arguments of endpoints

    What the arguments of an endpoint are called, and which of them go into its
    path.

    * **Claims**: numbers behind a name tell apart more candidates than there
      are names taken, so the search for a free one succeeds.
    * **Names** of arguments are made of ASCII letters, digits and underscores,
      and no two arguments of an endpoint share one.
    * **Tokens**: every token of the path is the key of an argument for it.
-/

namespace TypedClient

/-! ### Identifiers of parameters -/

namespace Name

/-- The characters that identifiers of parameters are made of. -/
def isParameterChar (c : Char) : Bool :=
  c.isAlphanum || c == '_'

/-- A capitalized letter or digit may stand in the identifier of a parameter. -/
theorem isParameterChar_toUpper {c : Char} (h : c.isAlphanum = true) :
    isParameterChar c.toUpper = true := by
  rcases isUpper_or_isDigit_toUpper h with hu | hd
  · simp [isParameterChar, isAlphanum_of_isUpper hu]
  · simp [isParameterChar, isAlphanum_of_isDigit hd]

theorem isParameterChar_of_mem_underscored {s : List Char} {c : Char} (h : c ∈ underscored s) :
    isParameterChar c = true := by
  obtain ⟨d, -, rfl⟩ := List.mem_map.1 h
  split
  · assumption
  · decide

/-- Dropping underscores at the end leaves characters of the text. -/
theorem mem_of_mem_dropUnderscoresEnd {s : List Char} {c : Char} (h : c ∈ dropUnderscoresEnd s) :
    c ∈ s := by
  induction s with
  | nil => exact h
  | cons d r ih =>
    rw [dropUnderscoresEnd] at h
    split at h
    · split at h
      · simp at h
      · exact List.mem_cons.2 (.inl (List.mem_singleton.1 h))
    · rcases List.mem_cons.1 h with rfl | hr
      · exact List.mem_cons_self
      · exact List.mem_cons_of_mem d (ih hr)

theorem isParameterChar_of_mem_contract {s : List Char}
    (hs : ∀ d ∈ s, isParameterChar d = true) {c : Char} (h : c ∈ contract s) :
    isParameterChar c = true := by
  fun_induction contract s with
  | case1 => simp at h
  | case2 d => exact hs c h
  | case3 d e r hd ih =>
    rcases List.mem_cons.1 h with rfl | hr
    · have he : e.isAlphanum = true := by
        have halpha : (e.isUpper || e.isLower) = true := by rw [hd.2, Bool.or_true]
        exact isAlphanum_of_isAlpha halpha
      exact isParameterChar_toUpper he
    · exact ih (fun f hf => hs f (List.mem_cons_of_mem _ (List.mem_cons_of_mem _ hf))) hr
  | case4 d e r hd ih =>
    rcases List.mem_cons.1 h with rfl | hr
    · exact hs c List.mem_cons_self
    · exact ih (fun f hf => hs f (List.mem_cons_of_mem _ hf)) hr

/-- An identifier of a parameter is made of letters, digits and underscores. -/
theorem isParameterChar_of_mem_parameterName {s : String} {c : Char}
    (h : c ∈ (parameterName s).toList) : isParameterChar c = true := by
  rw [parameterName, String.toList_ofList, parameterChars] at h
  have hall : ∀ d ∈ contract (trimUnderscores (underscored (dropBrackets s.toList))),
      isParameterChar d = true := by
    intro d hd
    refine isParameterChar_of_mem_contract (fun e he => ?_) hd
    exact isParameterChar_of_mem_underscored
      ((List.dropWhile_suffix _).subset (mem_of_mem_dropUnderscoresEnd he))
  unfold guardName at h
  split at h
  · revert c
    decide
  · rename_i d r hr
    rw [hr] at hall
    split at h
    · rcases List.mem_cons.1 h with rfl | h
      · decide
      · exact hall c h
    · exact hall c h

end Name

/-! ### Claims -/

/-- A numbered name is the name with the digits of the number behind it. -/
theorem toList_numbered (name : String) (n : Nat) :
    (numbered name n).toList = name.toList ++ Nat.toDigits 10 n := by
  rw [numbered, String.toList_append, String.toList_ofList, Decimal.natChars]

theorem mem_or_isDigit_of_mem_numbered {name : String} {n : Nat} {c : Char}
    (h : c ∈ (numbered name n).toList) : c ∈ name.toList ∨ c.isDigit = true := by
  rw [toList_numbered, List.mem_append] at h
  exact h.imp_right (Nat.isDigit_of_mem_toDigits (by decide) (by decide))

/-- A number can be read off the name that it stands behind. -/
theorem numbered_injective (name : String) : Function.Injective (numbered name) := by
  intro m n h
  have hchars : (numbered name m).toList = (numbered name n).toList := congrArg String.toList h
  rw [toList_numbered, toList_numbered] at hchars
  have hdigits := congrArg (fun ds => Nat.ofDigitChars 10 ds 0) (List.append_cancel_left hchars)
  simpa using hdigits

/-- Among one candidate more than there are names taken, one is free. -/
theorem exists_free (taken : List String) (name : String) (start : Nat) :
    ∃ n ∈ List.range' start (taken.length + 1), numbered name n ∉ taken := by
  refine Classical.byContradiction fun hnone => ?_
  have hsub : (List.range' start (taken.length + 1)).map (numbered name) ⊆ taken := by
    intro candidate hmem
    obtain ⟨n, hn, rfl⟩ := List.mem_map.1 hmem
    exact Classical.byContradiction fun hfree => hnone ⟨n, hn, hfree⟩
  have hnodup : ((List.range' start (taken.length + 1)).map (numbered name)).Nodup :=
    List.Pairwise.map _ (fun _ _ hne h => hne (numbered_injective name h)) List.nodup_range'
  have hle := (hnodup.subperm hsub).length_le
  simp only [List.length_map, List.length_range'] at hle
  omega

/-- The first free number gives a name that is not taken. -/
theorem numbered_freeNumber (taken : List String) (name : String) (start : Nat) :
    numbered name (freeNumber taken name start) ∉ taken := by
  obtain ⟨n, hn, hfree⟩ := exists_free taken name start
  unfold freeNumber
  cases hfound : (List.range' start (taken.length + 1)).find?
      (fun n => !taken.contains (numbered name n)) with
  | none =>
    have := List.find?_eq_none.1 hfound n hn
    simp [hfree] at this
  | some m => simpa using List.find?_some hfound

theorem claimArgument_not_mem (taken : List String) (name : String) :
    claimArgument taken name ∉ taken := by
  unfold claimArgument
  split
  · exact numbered_freeNumber taken name 2
  · assumption

theorem isParameterChar_of_mem_claimArgument {taken : List String} {name : String}
    (hname : ∀ c ∈ name.toList, Name.isParameterChar c = true) {c : Char}
    (h : c ∈ (claimArgument taken name).toList) : Name.isParameterChar c = true := by
  unfold claimArgument at h
  split at h
  · rcases mem_or_isDigit_of_mem_numbered h with h | hdigit
    · exact hname c h
    · simp [Name.isParameterChar, isAlphanum_of_isDigit hdigit]
  · exact hname c h

/-! ### Well-named arguments -/

/-- **Well-named** arguments: their names are pairwise different and made of
    letters, digits and underscores. -/
structure WellNamed (arguments : List Argument) : Prop where
  nodup : (arguments.map (·.name)).Nodup
  /-- Names hold no foreign characters. -/
  chars : ∀ a ∈ arguments, ∀ c ∈ a.name.toList, Name.isParameterChar c = true

namespace WellNamed

theorem nil : WellNamed [] :=
  ⟨List.nodup_nil, fun _ ha => absurd ha List.not_mem_nil⟩

/-- **The step**: an argument under a claimed name keeps the arguments well
    named. -/
theorem snoc {before : List Argument} (h : WellNamed before) {a : Argument} {wanted : String}
    (ha : a.name = claimArgument (before.map (·.name)) (Name.parameterName wanted)) :
    WellNamed (before ++ [a]) where
  nodup := by
    rw [List.map_append, List.map_singleton, ha]
    refine List.nodup_append.2 ⟨h.nodup, by simp, ?_⟩
    intro taken htaken new hnew
    rw [List.mem_singleton] at hnew
    subst hnew
    exact fun heq => claimArgument_not_mem _ _ (heq ▸ htaken)
  chars := by
    intro b hb c hc
    rcases List.mem_append.1 hb with hb | hb
    · exact h.chars b hb c hc
    · rw [List.mem_singleton.1 hb, ha] at hc
      exact isParameterChar_of_mem_claimArgument
        (fun d hd => Name.isParameterChar_of_mem_parameterName hd) hc

theorem sublist {some all : List Argument} (h : WellNamed all) (hsub : some.Sublist all) :
    WellNamed some :=
  ⟨h.nodup.sublist (hsub.map _), fun a ha => h.chars a (hsub.subset ha)⟩

theorem eq_of_name_eq {arguments : List Argument} (h : WellNamed arguments) {a b : Argument}
    (ha : a ∈ arguments) (hb : b ∈ arguments) (hname : a.name = b.name) : a = b :=
  List.inj_on_of_nodup_map h.nodup ha hb hname

end WellNamed

/-! ### Argument lists -/

variable {place : Place} {definitions : Definitions}

theorem wellNamed_claimArguments {before : List Argument} (h : WellNamed before)
    (parameters : List Parameter) :
    WellNamed (claimArguments place definitions before parameters) := by
  induction parameters generalizing before with
  | nil => exact h
  | cons p rest ih => exact ih (h.snoc rfl)

theorem wellNamed_claimTokens {function : String} {before : List Argument} (h : WellNamed before)
    (tokens : List String) : WellNamed (claimTokens function before tokens).value := by
  induction tokens generalizing before with
  | nil => exact h
  | cons token rest ih =>
    rw [claimTokens]
    split
    · exact ih h
    · exact ih (h.snoc rfl)

/-- Parameters add one argument each, in order, behind those before. -/
theorem claimArguments_eq_append (before : List Argument) (parameters : List Parameter) :
    ∃ names, names.length = parameters.length
      ∧ claimArguments place definitions before parameters
        = before ++ List.zipWith (fun p name => p.argument name place definitions) parameters
            names := by
  induction parameters generalizing before with
  | nil => exact ⟨[], rfl, (List.append_nil _).symm⟩
  | cons p rest ih =>
    obtain ⟨names, hlength, hadded⟩ := ih (before ++ [p.argument
      (claimArgument (before.map (·.name)) (Name.parameterName p.name)) place definitions])
    refine ⟨claimArgument (before.map (·.name)) (Name.parameterName p.name) :: names,
      by rw [List.length_cons, hlength, List.length_cons], ?_⟩
    rw [claimArguments, hadded, List.zipWith_cons_cons, List.append_assoc, List.singleton_append]

theorem place_of_mem_zipWith {parameters : List Parameter} {names : List String} {a : Argument}
    (h : a ∈ List.zipWith (fun p name => p.argument name place definitions) parameters names) :
    a.place = place := by
  rw [← List.map_uncurry_zip_eq_zipWith] at h
  obtain ⟨⟨p, name⟩, -, rfl⟩ := List.mem_map.1 h
  rfl

/-- Path tokens add arguments behind those before, which are made of tokens. -/
theorem claimTokens_eq_append (function : String) (before : List Argument) (tokens : List String) :
    ∃ added, (claimTokens function before tokens).value = before ++ added
      ∧ ∀ a ∈ added, ∃ token ∈ tokens, ∃ name, a = tokenArgument token name := by
  induction tokens generalizing before with
  | nil => exact ⟨[], (List.append_nil _).symm, fun _ ha => absurd ha List.not_mem_nil⟩
  | cons token rest ih =>
    rw [claimTokens]
    split
    · obtain ⟨added, hadded, hall⟩ := ih before
      refine ⟨added, hadded, fun a ha => ?_⟩
      obtain ⟨t, ht, name, rfl⟩ := hall a ha
      exact ⟨t, List.mem_cons_of_mem _ ht, name, rfl⟩
    · obtain ⟨added, hadded, hall⟩ := ih (before ++ [tokenArgument token
        (claimArgument (before.map (·.name)) (Name.parameterName token))])
      refine ⟨_ :: added, by rw [hadded, List.append_assoc, List.singleton_append], ?_⟩
      intro a ha
      rcases List.mem_cons.1 ha with rfl | ha
      · exact ⟨token, List.mem_cons_self, _, rfl⟩
      · obtain ⟨t, ht, name, rfl⟩ := hall a ha
        exact ⟨t, List.mem_cons_of_mem _ ht, name, rfl⟩

/-- Every token is the key of an argument once tokens have been claimed. -/
theorem exists_key_claimTokens (function : String) (before : List Argument)
    {tokens : List String} {token : String} (h : token ∈ tokens) :
    ∃ a ∈ (claimTokens function before tokens).value, a.key = token := by
  induction tokens generalizing before with
  | nil => simp at h
  | cons first rest ih =>
    rw [claimTokens]
    rcases List.mem_cons.1 h with rfl | hrest
    · split
      · rename_i hany
        obtain ⟨a, ha, hkey⟩ := List.any_eq_true.1 hany
        obtain ⟨added, hadded, -⟩ := claimTokens_eq_append function before rest
        exact ⟨a, by rw [hadded]; exact List.mem_append_left _ ha, by simpa using hkey⟩
      · obtain ⟨added, hadded, -⟩ := claimTokens_eq_append function (before ++ [tokenArgument token
          (claimArgument (before.map (·.name)) (Name.parameterName token))]) rest
        refine ⟨tokenArgument token
          (claimArgument (before.map (·.name)) (Name.parameterName token)), ?_, rfl⟩
        show _ ∈ (claimTokens function _ rest).value
        rw [hadded]
        exact List.mem_append_left _ (List.mem_append_right _ List.mem_cons_self)
    · split
      · exact ih before hrest
      · exact ih _ hrest

/-! ### Endpoints -/

namespace OperationSite

variable (site : OperationSite) (definitions : Definitions) (name : String)

/-- The arguments of a site that stand in front of those for the query. -/
def frontArguments : List Argument :=
  (claimTokens name
    (claimArguments .path definitions []
      (site.declared.filter (fun p => p.location == .path)))
    (Name.pathTokens site.path)).value

theorem wellNamed_endpoint : WellNamed (site.endpoint definitions name).arguments :=
  wellNamed_claimArguments (wellNamed_claimTokens (wellNamed_claimArguments .nil _) _) _

theorem place_of_mem_frontArguments {a : Argument} (h : a ∈ site.frontArguments definitions name) :
    a.place = .path := by
  obtain ⟨added, hadded, htokens⟩ := claimTokens_eq_append name
    (claimArguments .path definitions [] (site.declared.filter (fun p => p.location == .path)))
    (Name.pathTokens site.path)
  obtain ⟨names, -, hinPath⟩ := claimArguments_eq_append []
    (site.declared.filter (fun p => p.location == .path))
  rw [frontArguments, hadded, hinPath, List.nil_append] at h
  rcases List.mem_append.1 h with h | h
  · exact place_of_mem_zipWith h
  · obtain ⟨token, -, n, rfl⟩ := htokens a h
    rfl

/-- **For the path**: the arguments of an endpoint for the path are those in
    front. -/
theorem pathArguments_endpoint :
    (site.endpoint definitions name).pathArguments = site.frontArguments definitions name := by
  obtain ⟨names, -, hinQuery⟩ := claimArguments_eq_append
    (site.frontArguments definitions name) (site.declared.filter (fun p => p.location == .query))
  show (claimArguments .query definitions (site.frontArguments definitions name)
    (site.declared.filter (fun p => p.location == .query))).filter _ = _
  rw [hinQuery, List.filter_append]
  have hfront : (site.frontArguments definitions name).filter (fun a => a.place = .path)
      = site.frontArguments definitions name :=
    List.filter_eq_self.2 (fun a ha => by
      simp [site.place_of_mem_frontArguments definitions name ha])
  have hquery : (List.zipWith (fun p name => p.argument name .query definitions)
      (site.declared.filter (fun p => p.location == .query)) names).filter
        (fun a => a.place = .path) = [] := by
    apply List.filter_eq_nil_iff.2
    intro a ha
    simp [place_of_mem_zipWith ha]
  rw [hfront, hquery, List.append_nil]

/-- Every token of the path is the key of an argument for the path. -/
theorem exists_key_of_mem_pathTokens {token : String} (h : token ∈ Name.pathTokens site.path) :
    ∃ a ∈ (site.endpoint definitions name).pathArguments, a.key = token := by
  rw [pathArguments_endpoint]
  exact exists_key_claimTokens name _ h

end OperationSite

end TypedClient
