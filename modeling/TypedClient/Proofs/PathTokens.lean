import TypedClient.Proofs.NameSets
import TypedClient.Proofs.PathParts

/-! # Tokens of a path

    The list of the tokens of a path says what stands between two braces there, and
    in which order.

    * **Scans** go from the start of a path to its end. They take a token where one
      starts, and go on behind it.
    * **Nothing is skipped**: a token holds no braces, so none starts inside of another
      one. So a scan takes whatever stands between two braces.
    * **Order**: in front of a token stand all tokens that are listed before it.
-/

namespace TypedClient.Name

/-- A **token** is a text without braces that is not empty. -/
def IsToken (token : List Char) : Prop :=
  token ≠ [] ∧ Braceless token

/-! ### Scans -/

/-- A **scan** of a path, with the tokens that it takes. -/
inductive Scanned : List Char → List (List Char) → Prop where
  | done : Scanned [] []
  /-- A character at which no token in braces starts is passed over. -/
  | pass {c : Char} {rest : List Char} {found : List (List Char)}
    (hnone : ∀ token, IsToken token → ¬ braced token <+: c :: rest) (h : Scanned rest found) :
    Scanned (c :: rest) found
  /-- A token in braces is taken as a whole. -/
  | take {token rest : List Char} {found : List (List Char)} (htoken : IsToken token)
    (h : Scanned rest found) : Scanned (braced token ++ rest) (token :: found)

variable {token path before : List Char}

/-- No token starts in a text without braces. -/
theorem tokenOccurrences_append_of_braceless (h : Braceless before) (rest : List Char) :
    tokenOccurrences (before ++ rest) = tokenOccurrences rest := by
  induction before with
  | nil => rfl
  | cons c r ih =>
    obtain ⟨hc, hr⟩ := Braceless.cons_iff.1 h
    have hopen : c ≠ '\x7b' := by
      rintro rfl
      exact absurd hc (by decide)
    rw [List.cons_append, tokenOccurrences, if_neg hopen, ih hr]

/-- A token in braces occurs in front of what occurs behind it. -/
theorem tokenOccurrences_braced (h : IsToken token) (rest : List Char) :
    tokenOccurrences (braced token ++ rest) = token :: tokenOccurrences rest := by
  have hbehind : tokenBehind (token ++ '\x7d' :: rest) = some token :=
    tokenBehind_eq_some.2 ⟨h.1, h.2, rest, rfl⟩
  have hassoc : braced token ++ rest = '\x7b' :: (token ++ '\x7d' :: rest) := by
    simp [braced]
  -- Its own two braces are all that is left of it once it is taken.
  rw [hassoc, tokenOccurrences, if_pos rfl, hbehind,
    tokenOccurrences_append_of_braceless h.2, tokenOccurrences, if_neg (by decide)]

/-- A character at which no token starts adds no occurrence. -/
theorem tokenOccurrences_cons_of_none {c : Char} {rest : List Char}
    (h : ∀ token, IsToken token → ¬ braced token <+: c :: rest) :
    tokenOccurrences (c :: rest) = tokenOccurrences rest := by
  rw [tokenOccurrences]
  split
  · rename_i hc
    split
    · rename_i token hfound
      obtain ⟨hne, hbraceless, hbehind⟩ := tokenBehind_eq_some.1 hfound
      subst hc
      exact absurd (PathPart.braced_prefix_iff.2 hbehind) (h token ⟨hne, hbraceless⟩)
    · rfl
  · rfl

/-- A scan takes the occurrences. -/
theorem Scanned.eq_tokenOccurrences {found : List (List Char)} (h : Scanned path found) :
    found = tokenOccurrences path := by
  induction h with
  | done => rfl
  | pass hnone _ ih => rw [tokenOccurrences_cons_of_none hnone, ih]
  | take htoken _ ih => rw [tokenOccurrences_braced htoken, ih]

/-- **Nothing is skipped**: there is a scan of every path, and it takes the
    occurrences. -/
theorem scanned_iff {found : List (List Char)} :
    Scanned path found ↔ found = tokenOccurrences path := by
  refine ⟨Scanned.eq_tokenOccurrences, ?_⟩
  rintro rfl
  -- The induction is on the length, as a token is taken in one go.
  induction hn : path.length using Nat.strongRecOn generalizing path with
  | ind n ih =>
    by_cases h : ∃ token, IsToken token ∧ braced token <+: path
    · obtain ⟨token, htoken, rest, rfl⟩ := h
      have hlength : rest.length < n := by
        rw [← hn, List.length_append, braced, List.length_append, List.length_singleton]
        omega
      rw [tokenOccurrences_braced htoken]
      exact .take htoken (ih rest.length hlength rfl)
    · cases path with
      | nil => exact .done
      | cons c rest =>
        have hnone : ∀ token, IsToken token → ¬ braced token <+: c :: rest :=
          fun token htoken hprefix => h ⟨token, htoken, hprefix⟩
        have hlength : rest.length < n := by
          rw [← hn]
          exact Nat.lt_succ_self _
        rw [tokenOccurrences_cons_of_none hnone]
        exact .pass hnone (ih rest.length hlength rfl)

/-! ### Order -/

/-- An opening brace behind a text neither ends a token in it nor starts another one. -/
theorem tokenBehind_append (s rest : List Char) :
    tokenBehind (s ++ '\x7b' :: rest) = tokenBehind s := by
  apply Option.ext
  intro token
  rw [tokenBehind_eq_some, tokenBehind_eq_some]
  constructor
  · rintro ⟨hne, hbraceless, behind, hbehind⟩
    refine ⟨hne, hbraceless, ?_⟩
    rcases List.append_eq_append_iff.1 hbehind with ⟨more, rfl, hmore⟩ | ⟨more, rfl, hmore⟩
    · -- The token would reach up to the brace, or hold it.
      cases more with
      | nil => exact absurd (List.cons.inj hmore).1 (by decide)
      | cons c more =>
        obtain ⟨rfl, -⟩ := List.cons.inj hmore
        exact absurd (by simp) (hbraceless.not_mem (c := '\x7b') rfl)
    · cases more with
      | nil => exact absurd (List.cons.inj hmore).1 (by decide)
      | cons c more =>
        obtain ⟨rfl, -⟩ := List.cons.inj hmore
        exact ⟨more, rfl⟩
  · rintro ⟨hne, hbraceless, behind, rfl⟩
    exact ⟨hne, hbraceless, behind ++ '\x7b' :: rest, by simp⟩

/-- The occurrences in front of an opening brace are those of the text in front of it. -/
theorem tokenOccurrences_append (before rest : List Char) :
    tokenOccurrences (before ++ '\x7b' :: rest)
      = tokenOccurrences before ++ tokenOccurrences ('\x7b' :: rest) := by
  induction before with
  | nil => rfl
  | cons c r ih =>
    rw [List.cons_append, tokenOccurrences, tokenOccurrences.eq_2 c r, tokenBehind_append, ih]
    split
    · split <;> rfl
    · rfl

/-- **Cutting at a token**: the occurrences of a path are those in front of a token in
    braces, the token, and those behind it. -/
theorem tokenOccurrences_append_braced (h : IsToken token) (before behind : List Char) :
    tokenOccurrences (before ++ braced token ++ behind)
      = tokenOccurrences before ++ token :: tokenOccurrences behind := by
  rw [← tokenOccurrences_braced h behind, List.append_assoc]
  exact tokenOccurrences_append before (token ++ ['\x7d'] ++ behind)

theorem mem_pathTokenChars :
    token ∈ pathTokenChars path ↔ IsToken token ∧ braced token <:+: path := by
  rw [pathTokenChars, mem_distinct, mem_tokenOccurrences, IsToken, and_assoc]

theorem pairwise_pathTokenChars (path : List Char) :
    (pathTokenChars path).Pairwise (fun first later => ∀ before behind,
      path = before ++ braced later ++ behind → braced first <:+: before) := by
  refine (pairwise_distinct (tokenOccurrences path)).imp_of_mem ?_
  intro first later _ hlater hfront before behind hpath
  have htoken : IsToken later := (mem_pathTokenChars.1 hlater).1
  have hcut := tokenOccurrences_append_braced htoken before behind
  rw [← hpath] at hcut
  exact (mem_tokenOccurrences.1 (hfront _ _ hcut)).2.2

/-! ### Tokens as texts -/

/-- Tokens of a path are listed without repeats. -/
theorem nodup_pathTokens (path : String) : (pathTokens path).Nodup :=
  List.Pairwise.map String.ofList (fun _ _ hne h => hne (String.ofList_injective h))
    (nodup_distinct _)

theorem mem_pathTokens {path token : String} :
    token ∈ pathTokens path ↔ IsToken token.toList ∧ braced token.toList <:+: path.toList := by
  rw [← mem_pathTokenChars, pathTokens, List.mem_map]
  constructor
  · rintro ⟨chars, hchars, rfl⟩
    rw [String.toList_ofList]
    exact hchars
  · intro h
    exact ⟨token.toList, h, String.ofList_toList⟩

/-- In front of a token of a path stand all that are listed before it. -/
theorem pairwise_pathTokens (path : String) :
    (pathTokens path).Pairwise (fun first later => ∀ before behind,
      path.toList = before ++ braced later.toList ++ behind →
        braced first.toList <:+: before) := by
  rw [pathTokens, List.pairwise_map]
  refine (pairwise_pathTokenChars path.toList).imp ?_
  intro first later hfront
  rw [String.toList_ofList, String.toList_ofList]
  exact hfront

/-- **Tokens are exact**: the tokens of a path are the texts without braces, not empty,
    that stand between two braces in it. None is listed twice, and in front of every
    occurrence of one stand all that are listed before it. There is one scan of the path,
    and they are what it takes, the first of each. -/
theorem pathTokens_exact (path : String) :
    (pathTokens path).Nodup
      ∧ (∀ token, token ∈ pathTokens path
          ↔ IsToken token.toList ∧ braced token.toList <:+: path.toList)
      ∧ (pathTokens path).Pairwise (fun first later => ∀ before behind,
          path.toList = before ++ braced later.toList ++ behind →
            braced first.toList <:+: before)
      ∧ ∃ found, (∀ other, Scanned path.toList other ↔ other = found)
          ∧ pathTokens path = (distinct found).map String.ofList :=
  ⟨nodup_pathTokens path, fun _ => mem_pathTokens, pairwise_pathTokens path,
    tokenOccurrences path.toList, fun _ => scanned_iff, rfl⟩

-- Braces twice, with nothing between them, and without a partner.
example : pathTokens "/\x7b\x7bid\x7d\x7d/\x7b\x7d/\x7bname/\x7bid\x7d" = ["id"] := by
  decide +kernel

end TypedClient.Name
