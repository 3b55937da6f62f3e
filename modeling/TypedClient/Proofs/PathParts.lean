import TypedClient.Name.PathTokens
import TypedClient.Text.Replace

/-! # Parts of a path

    A path is cut into slots, which are texts without braces between two
    braces, and the characters in between.

    * **Cutting** goes from the end to the start: an opening brace makes a slot
      if the next brace behind it is a closing one that no slot has used.
    * **Slots** are exactly the texts without braces that stand between braces
      in the path; those that are not empty are the tokens.
    * **Replacing** a pattern is pinned by what it does in front of a text that
      starts with the pattern and of one that does not.
-/

namespace TypedClient

/-! ### Texts without braces -/

/-- A text that holds no braces. -/
def Braceless (s : List Char) : Prop :=
  ∀ c ∈ s, Name.isBrace c = false

namespace Braceless

variable {c : Char} {s t : List Char}

theorem nil : Braceless [] :=
  fun _ hc => absurd hc List.not_mem_nil

theorem cons_iff : Braceless (c :: s) ↔ Name.isBrace c = false ∧ Braceless s := by
  unfold Braceless
  exact List.forall_mem_cons

/-- A brace is no character of a text without braces. -/
theorem not_mem (hs : Braceless s) (hc : Name.isBrace c = true) : c ∉ s :=
  fun hmem => absurd (hs c hmem) (by simp [hc])

/-- A text is cut at its first brace in one way only. -/
theorem split {d : Char} {x y : List Char} (hs : Braceless s) (ht : Braceless t)
    (hc : Name.isBrace c = true) (hd : Name.isBrace d = true)
    (h : s ++ c :: x = t ++ d :: y) : s = t ∧ c = d ∧ x = y := by
  induction s generalizing t with
  | nil =>
    cases t with
    | nil => exact ⟨rfl, (List.cons.inj h).1, (List.cons.inj h).2⟩
    | cons e u =>
      have hce : c = e := (List.cons.inj h).1
      exact absurd (cons_iff.1 ht).1 (by simp [← hce, hc])
  | cons e u ih =>
    cases t with
    | nil =>
      have hed : e = d := (List.cons.inj h).1
      exact absurd (cons_iff.1 hs).1 (by simp [hed, hd])
    | cons f v =>
      obtain ⟨hef, htail⟩ := List.cons.inj h
      obtain ⟨huv, hrest⟩ := ih (cons_iff.1 hs).2 (cons_iff.1 ht).2 htail
      exact ⟨by rw [hef, huv], hrest⟩

end Braceless

/-- A text in braces. -/
def braced (s : List Char) : List Char :=
  '\x7b' :: s ++ ['\x7d']

/-! ### Replacing -/

namespace Text

variable {pattern replacement s t : List Char} {c : Char}

/-- Characters of an occurrence that was replaced are passed over. -/
theorem replaceFrom_append (s t : List Char) :
    replaceFrom pattern replacement s.length (s ++ t) = replaceAll pattern replacement t := by
  induction s with
  | nil => rfl
  | cons c r ih => exact ih

/-- In front of a text that does not start with the pattern one character stays. -/
theorem replaceAll_cons (h : ¬ pattern <+: c :: s) :
    replaceAll pattern replacement (c :: s) = c :: replaceAll pattern replacement s := by
  rw [replaceAll, replaceFrom, if_neg (by rwa [List.isPrefixOf_iff_prefix])]
  rfl

/-- In front of a text that starts with the pattern the pattern is replaced. -/
theorem replaceAll_append (h : pattern ≠ []) (s : List Char) :
    replaceAll pattern replacement (pattern ++ s)
      = replacement ++ replaceAll pattern replacement s := by
  cases pattern with
  | nil => exact absurd rfl h
  | cons c r =>
    have hstart : (c :: r).isPrefixOf (c :: (r ++ s)) = true :=
      List.isPrefixOf_iff_prefix.2 (List.prefix_append (c :: r) s)
    rw [List.cons_append, replaceAll, replaceFrom, if_pos hstart]
    exact congrArg (replacement ++ ·) (replaceFrom_append r s)

/-- A text without the first character of the pattern stays. -/
theorem replaceAll_append_of_not_mem (h : c ∉ s) (t : List Char) :
    replaceAll (c :: pattern) replacement (s ++ t)
      = s ++ replaceAll (c :: pattern) replacement t := by
  induction s with
  | nil => rfl
  | cons d r ih =>
    have hstart : ¬ c :: pattern <+: d :: (r ++ t) := by
      rintro ⟨u, hu⟩
      exact h (by rw [(List.cons.inj hu).1]; exact List.mem_cons_self)
    rw [List.cons_append, replaceAll_cons hstart,
      ih (fun hmem => h (List.mem_cons_of_mem d hmem)), List.cons_append]

theorem replaceAll_of_absent (h : ¬ pattern <:+: s) : replaceAll pattern replacement s = s := by
  induction s with
  | nil => rfl
  | cons c r ih =>
    have hparts := fun h' => h (List.infix_cons_iff.2 h')
    rw [replaceAll_cons (fun hp => hparts (.inl hp)), ih (fun hi => hparts (.inr hi))]

/-- Every character of a text that was replaced in is one of the text or of the
    replacement. -/
theorem mem_replaceFrom {skip : Nat} (h : c ∈ replaceFrom pattern replacement skip s) :
    c ∈ s ∨ c ∈ replacement := by
  induction s generalizing skip with
  | nil =>
    cases skip <;> simp [replaceFrom] at h
  | cons d r ih =>
    have hrest : ∀ n, c ∈ replaceFrom pattern replacement n r → c ∈ d :: r ∨ c ∈ replacement :=
      fun n hn => (ih hn).imp_left (List.mem_cons_of_mem d)
    cases skip with
    | succ n => exact hrest n h
    | zero =>
      rw [replaceFrom] at h
      split at h
      · rcases List.mem_append.1 h with h | h
        · exact .inr h
        · exact hrest _ h
      · rcases List.mem_cons.1 h with rfl | h
        · exact .inl List.mem_cons_self
        · exact hrest 0 h

/-- **Counting**: characters of a kind that the replacement has no more of than
    the pattern do not get more. If it has fewer of them and the text holds the
    pattern, they get fewer. -/
theorem countP_replaceAll {p : Char → Bool} (hne : pattern ≠ [])
    (h : replacement.countP p ≤ pattern.countP p) (s : List Char) :
    (replaceAll pattern replacement s).countP p ≤ s.countP p
      ∧ (replacement.countP p < pattern.countP p → pattern <:+: s →
          (replaceAll pattern replacement s).countP p < s.countP p) := by
  -- The induction is on the length, as a pattern is passed over in one go.
  induction hn : s.length using Nat.strongRecOn generalizing s with
  | ind n ih =>
    by_cases hstart : pattern <+: s
    · obtain ⟨t, rfl⟩ := hstart
      have hlength : t.length < n := by
        rw [← hn, List.length_append]
        have := List.length_pos_iff.2 hne
        omega
      have hle := (ih t.length hlength t rfl).1
      rw [replaceAll_append hne, List.countP_append, List.countP_append]
      exact ⟨by omega, fun hfewer _ => by omega⟩
    · cases s with
      | nil =>
        refine ⟨Nat.le_refl _, fun _ hinfix => ?_⟩
        exact absurd (List.infix_nil.1 hinfix) hne
      | cons c r =>
        obtain ⟨hle, hlt⟩ := ih r.length (by rw [← hn]; exact Nat.lt_succ_self _) r rfl
        rw [replaceAll_cons hstart, List.countP_cons, List.countP_cons]
        refine ⟨by omega, fun hfewer hinfix => ?_⟩
        rcases List.infix_cons_iff.1 hinfix with hprefix | hinfix
        · exact absurd hprefix hstart
        · have := hlt hfewer hinfix
          omega

end Text

/-! ### Parts -/

/-- A part of a path. -/
inductive PathPart where
  /-- A character outside of slots. -/
  | plain (c : Char)
  /-- A text without braces between two braces. -/
  | slot (text : List Char)
  deriving DecidableEq, Repr

namespace PathPart

/-- The text in front of a closing brace and the parts behind it, if no other
    brace comes first. -/
def closing? : List PathPart → Option (List Char × List PathPart)
  | [] => none
  | .slot _ :: _ => none
  | .plain c :: rest =>
    if c = '\x7d' then some ([], rest)
    else if c = '\x7b' then none
    else (closing? rest).map (fun found => (c :: found.1, found.2))

/-- Puts a character in front of parts. -/
def prepend (c : Char) (parts : List PathPart) : List PathPart :=
  match (if c = '\x7b' then closing? parts else none) with
  | some (text, rest) => .slot text :: rest
  | none => .plain c :: parts

/-- The parts of a path. -/
def parts : List Char → List PathPart
  | [] => []
  | c :: r => prepend c (parts r)

/-- The text of a part. -/
def chars : PathPart → List Char
  | .plain c => [c]
  | .slot text => braced text

/-- **Settled** parts: no slot holds a brace, and no brace outside of slots
    opens one. -/
inductive Settled : List PathPart → Prop where
  | nil : Settled []
  /-- A character in front of settled parts. -/
  | plain {c : Char} {rest : List PathPart} (hc : c = '\x7b' → closing? rest = none)
      (hrest : Settled rest) : Settled (.plain c :: rest)
  /-- A slot in front of settled parts. -/
  | slot {text : List Char} {rest : List PathPart} (htext : Braceless text)
      (hrest : Settled rest) : Settled (.slot text :: rest)

/-- What was found in front of a closing brace holds no braces, and stands there
    as characters outside of slots. -/
theorem of_closing? {parts rest : List PathPart} {text : List Char}
    (h : closing? parts = some (text, rest)) :
    Braceless text ∧ parts = text.map PathPart.plain ++ .plain '\x7d' :: rest := by
  fun_induction closing? parts generalizing text with
  | case1 => simp at h
  | case2 => simp at h
  | case3 rest' =>
    obtain ⟨rfl, rfl⟩ := Prod.mk.inj (Option.some.inj h)
    exact ⟨.nil, rfl⟩
  | case4 => simp at h
  | case5 c rest' hclose hopen ih =>
    obtain ⟨found, hfound, heq⟩ := Option.map_eq_some_iff.1 h
    obtain ⟨rfl, rfl⟩ := Prod.mk.inj heq
    obtain ⟨hbraceless, hparts⟩ := ih hfound
    refine ⟨Braceless.cons_iff.2 ⟨by simp [Name.isBrace, hclose, hopen], hbraceless⟩, ?_⟩
    rw [hparts, List.map_cons, List.cons_append]

theorem Settled.of_append {text : List Char} {rest : List PathPart}
    (h : Settled (text.map PathPart.plain ++ rest)) : Settled rest := by
  induction text with
  | nil => exact h
  | cons c r ih =>
    cases h with
    | plain _ hrest => exact ih hrest

theorem settled_parts (path : List Char) : Settled (parts path) := by
  induction path with
  | nil => exact .nil
  | cons c r ih =>
    rw [parts, prepend]
    split
    · rename_i text rest h
      split at h
      · obtain ⟨hbraceless, hparts⟩ := of_closing? h
        rw [hparts] at ih
        cases ih.of_append with
        | plain _ hrest => exact .slot hbraceless hrest
      · simp at h
    · rename_i h
      refine .plain (fun hc => ?_) ih
      rwa [if_pos hc] at h

theorem flatMap_chars_parts (path : List Char) : (parts path).flatMap chars = path := by
  induction path with
  | nil => rfl
  | cons c r ih =>
    rw [parts, prepend]
    split
    · rename_i text rest h
      split at h
      · rename_i hc
        obtain ⟨-, hparts⟩ := of_closing? h
        have hplain : (text.map PathPart.plain).flatMap chars = text := by
          rw [List.flatMap_map]
          exact List.flatMap_singleton' text
        rw [hparts, List.flatMap_append, hplain] at ih
        rw [← ih, hc, List.flatMap_cons, List.flatMap_cons]
        simp [chars, braced]
      · simp at h
    · rw [List.flatMap_cons, ih]
      rfl

/-! ### Slots and tokens -/

/-- A text without braces in front of a closing brace is found. -/
theorem closing?_parts {text : List Char} (h : Braceless text) (behind : List Char) :
    closing? (parts (text ++ '\x7d' :: behind)) = some (text, parts behind) := by
  induction text with
  | nil => rfl
  | cons c r ih =>
    obtain ⟨hc, hr⟩ := Braceless.cons_iff.1 h
    have hne : c ≠ '\x7b' ∧ c ≠ '\x7d' := by simpa [Name.isBrace] using hc
    have hparts : parts (c :: r ++ '\x7d' :: behind)
        = .plain c :: parts (r ++ '\x7d' :: behind) := by
      rw [List.cons_append, parts, prepend, if_neg hne.1]
    rw [hparts, closing?, if_neg hne.2, if_neg hne.1, ih hr]
    rfl

/-- What is found in front of a closing brace stands there in the path. -/
theorem of_closing?_parts {path text : List Char} {rest : List PathPart}
    (h : closing? (parts path) = some (text, rest)) :
    Braceless text ∧ ∃ behind, path = text ++ '\x7d' :: behind ∧ rest = parts behind := by
  refine ⟨(of_closing? h).1, ?_⟩
  induction path generalizing text rest with
  | nil => simp [parts, closing?] at h
  | cons c r ih =>
    rw [parts, prepend] at h
    split at h
    · simp [closing?] at h
    · rw [closing?] at h
      split at h
      · rename_i hc
        obtain ⟨rfl, rfl⟩ := Prod.mk.inj (Option.some.inj h)
        exact ⟨r, by rw [hc]; rfl, rfl⟩
      · split at h
        · simp at h
        · obtain ⟨found, hfound, heq⟩ := Option.map_eq_some_iff.1 h
          obtain ⟨rfl, rfl⟩ := Prod.mk.inj heq
          obtain ⟨behind, hr, hrest⟩ := ih hfound
          exact ⟨behind, by rw [hr]; rfl, hrest⟩

/-- A text in braces starts a path if the text in front of the first closing
    brace is that text. -/
theorem braced_prefix_iff {text s : List Char} :
    braced text <+: '\x7b' :: s ↔ ∃ behind, s = text ++ '\x7d' :: behind := by
  constructor
  · rintro ⟨behind, hbehind⟩
    refine ⟨behind, ?_⟩
    simpa [braced] using hbehind.symm
  · rintro ⟨behind, rfl⟩
    exact ⟨behind, by simp [braced]⟩

/-- **Slots**: the slots of a path are the texts without braces that stand
    between two braces in it. -/
theorem slot_mem_parts {text path : List Char} :
    .slot text ∈ parts path ↔ Braceless text ∧ braced text <:+: path := by
  induction path with
  | nil => simp [parts, braced]
  | cons c r ih =>
    rw [parts, prepend, List.infix_cons_iff]
    split
    · rename_i found rest h
      split at h
      · rename_i hc
        subst hc
        obtain ⟨hfound, behind, hr, hrest⟩ := of_closing?_parts h
        -- The slots of what follows are those behind the closing brace.
        have hsame : PathPart.slot text ∈ rest ↔ .slot text ∈ parts r := by
          rw [(of_closing? h).2]
          simp
        rw [List.mem_cons, hsame, ih]
        constructor
        · rintro (heq | ⟨htext, hinfix⟩)
          · obtain rfl := PathPart.slot.inj heq
            exact ⟨hfound, .inl (braced_prefix_iff.2 ⟨behind, hr⟩)⟩
          · exact ⟨htext, .inr hinfix⟩
        · rintro ⟨htext, hprefix | hinfix⟩
          · obtain ⟨behind', hr'⟩ := braced_prefix_iff.1 hprefix
            have := (Braceless.split htext hfound (by decide) (by decide) (hr'.symm.trans hr)).1
            exact .inl (by rw [this])
          · exact .inr ⟨htext, hinfix⟩
      · simp at h
    · rename_i h
      rw [List.mem_cons, ih]
      constructor
      · rintro (heq | ⟨htext, hinfix⟩)
        · cases heq
        · exact ⟨htext, .inr hinfix⟩
      · rintro ⟨htext, hprefix | hinfix⟩
        · -- An opening brace in front of the text would have made a slot.
          obtain ⟨u, hu⟩ := hprefix
          have hc : c = '\x7b' := (List.cons.inj hu).1.symm
          subst hc
          obtain ⟨behind, hr⟩ := braced_prefix_iff.1 ⟨u, hu⟩
          rw [if_pos rfl, hr, closing?_parts htext] at h
          simp at h
        · exact .inr ⟨htext, hinfix⟩

end PathPart

namespace Name

/-- A token is read from behind an opening brace if it stands there in front of
    a closing one, holds no braces, and is not empty. -/
theorem tokenBehind_eq_some {s token : List Char} :
    tokenBehind s = some token
      ↔ token ≠ [] ∧ Braceless token ∧ ∃ behind, s = token ++ '\x7d' :: behind := by
  constructor
  · intro h
    unfold tokenBehind at h
    split at h
    · rename_i c rest behind htake hdrop
      obtain rfl := Option.some.inj h
      refine ⟨by simp, ?_, behind, ?_⟩
      · intro d hd
        have hall := List.all_eq_true.1 (List.all_takeWhile (l := s) (p := fun c => !isBrace c))
        have := hall d (htake ▸ hd)
        simpa using this
      · rw [← htake, ← hdrop, List.takeWhile_append_dropWhile]
    · simp at h
  · rintro ⟨hne, hbraceless, behind, rfl⟩
    have hall : ∀ c ∈ token, (!isBrace c) = true := fun c hc => by rw [hbraceless c hc]; rfl
    have htake : (token ++ '\x7d' :: behind).takeWhile (fun c => !isBrace c) = token := by
      rw [List.takeWhile_append_of_pos hall]
      exact List.append_nil token
    have hdrop : (token ++ '\x7d' :: behind).dropWhile (fun c => !isBrace c)
        = '\x7d' :: behind := by
      rw [List.dropWhile_append_of_pos hall]
      rfl
    unfold tokenBehind
    rw [htake, hdrop]
    cases token with
    | nil => exact absurd rfl hne
    | cons c rest => rfl

/-- **Tokens**: the tokens of a path are the texts without braces, not empty,
    that stand between two braces in it. -/
theorem mem_tokenOccurrences {path token : List Char} :
    token ∈ tokenOccurrences path
      ↔ token ≠ [] ∧ Braceless token ∧ braced token <:+: path := by
  induction path with
  | nil => simp [tokenOccurrences, braced]
  | cons c r ih =>
    have hcons : token ∈ tokenOccurrences (c :: r)
        ↔ (c = '\x7b' ∧ tokenBehind r = some token) ∨ token ∈ tokenOccurrences r := by
      rw [tokenOccurrences]
      split
      · rename_i hc
        split
        · rename_i found hfound
          rw [hfound, List.mem_cons]
          simp [hc, eq_comm]
        · rename_i hnone
          simp [hnone]
      · rename_i hc
        simp [hc]
    rw [hcons, ih, List.infix_cons_iff, tokenBehind_eq_some]
    constructor
    · rintro (⟨rfl, hne, hbraceless, hbehind⟩ | ⟨hne, hbraceless, hinfix⟩)
      · exact ⟨hne, hbraceless, .inl (PathPart.braced_prefix_iff.2 hbehind)⟩
      · exact ⟨hne, hbraceless, .inr hinfix⟩
    · rintro ⟨hne, hbraceless, hprefix | hinfix⟩
      · obtain ⟨u, hu⟩ := hprefix
        obtain rfl : '\x7b' = c := (List.cons.inj hu).1
        exact .inl ⟨rfl, hne, hbraceless, PathPart.braced_prefix_iff.1 ⟨u, hu⟩⟩
      · exact .inr ⟨hne, hbraceless, hinfix⟩

end Name

end TypedClient
