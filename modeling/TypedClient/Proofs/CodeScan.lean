import TypedClient.Proofs.Characters
import TypedClient.Proofs.NameSets
import TypedClient.Text.Literal
import TypedClient.Usage.Scan

/-! # What a scan of code finds

    The names that the scan of a text finds are the capitalized words that stand
    there in one of two ways, once literals are blanked out.

    * **Standing**: a word stands delimited if no word character is in front of
      it and a delimiter, or nothing, behind it. It stands behind a colon if
      nothing but blanks is in between.
    * **Blanking** goes piece by piece: a text is neutral if every quote in it
      has its partner there, so that what follows is blanked out on its own.
    * **Surroundings**: a word that stands delimited in a neutral piece does so
      in the whole text, if what is around the piece lets it.
-/

namespace TypedClient.Scan

/-! ### Standing names -/

/-- A capital, and letters and digits behind it. -/
def IsCapitalized (name : List Char) : Prop :=
  ∃ c r, name = c :: r ∧ c.isUpper = true ∧ ∀ d ∈ r, d.isAlphanum = true

/-- No word goes on behind a text. -/
def EndsWord (before : List Char) : Prop :=
  ∀ c ∈ before.getLast?, Text.isWord c = false

/-- A text starts with a delimiter, or not at all. -/
def StartsDelimited (after : List Char) : Prop :=
  ∀ c ∈ after.head?, isDelimiter c = true

/-- A word stands delimited in code. -/
def Delimited (name code : List Char) : Prop :=
  ∃ before after, code = before ++ name ++ after ∧ EndsWord before ∧ StartsDelimited after

/-- A word stands behind a colon in code, with no part of it left out. -/
def BehindColon (name code : List Char) : Prop :=
  ∃ before blanks after, code = before ++ ':' :: blanks ++ name ++ after
    ∧ (∀ c ∈ blanks, Text.isBlank c = true) ∧ ∀ c ∈ after.head?, c.isAlphanum = false

/-- A capitalized word stands in code in one of the two ways. -/
def Stands (name code : List Char) : Prop :=
  IsCapitalized name ∧ (Delimited name code ∨ BehindColon name code)

theorem isAlphanum_of_isDelimiter {c : Char} (h : isDelimiter c = true) : c.isAlphanum = false := by
  cases halnum : c.isAlphanum with
  | false => rfl
  | true =>
    have hnone : isDelimiter c = false :=
      of_ascii (fun d => d.isAlphanum = true → isDelimiter d = false) (by decide +kernel)
        (toNat_lt_of_isAlphanum halnum) halnum
    rw [hnone] at h
    cases h

/-- What is in front of a text, by its first character. -/
theorem endsWord_cons {c : Char} {r : List Char} :
    EndsWord (c :: r) ↔ (r = [] → Text.isWord c = false) ∧ EndsWord r := by
  cases r with
  | nil => simp [EndsWord]
  | cons d t => simp [EndsWord]

theorem word_append {name after : List Char} (hname : ∀ c ∈ name, c.isAlphanum = true)
    (hafter : ∀ c ∈ after.head?, c.isAlphanum = false) : word (name ++ after) = (name, after) := by
  have hnone : after.takeWhile Char.isAlphanum = [] ∧ after.dropWhile Char.isAlphanum = after := by
    cases after with
    | nil => exact ⟨rfl, rfl⟩
    | cons d t =>
      have hd : d.isAlphanum = false := hafter d rfl
      exact ⟨by simp [hd], by simp [hd]⟩
  rw [word, List.takeWhile_append_of_pos hname, List.dropWhile_append_of_pos hname, hnone.1,
    hnone.2, List.append_nil]

/-- What a word leaves starts with no letter or digit, and the word is made of
    those. -/
theorem of_word {s name after : List Char} (h : word s = (name, after)) :
    s = name ++ after ∧ (∀ c ∈ name, c.isAlphanum = true)
      ∧ ∀ c ∈ after.head?, c.isAlphanum = false := by
  obtain ⟨rfl, rfl⟩ := Prod.mk.inj h
  refine ⟨(List.takeWhile_append_dropWhile).symm, ?_, ?_⟩
  · exact List.all_eq_true.1 List.all_takeWhile
  · intro c hc
    have := List.head?_dropWhile_not Char.isAlphanum s
    rw [Option.mem_def] at hc
    simpa [hc] using this

/-- The delimited names of code: one that starts with its first character, and
    those further on. -/
theorem mem_delimitedNames_cons {inWord : Bool} {name : String} {c : Char} {r : List Char} :
    name ∈ delimitedNames inWord (c :: r)
      ↔ (inWord = false ∧ c.isUpper = true ∧ ∃ n after, name.toList = c :: n ∧ r = n ++ after
          ∧ (∀ d ∈ n, d.isAlphanum = true) ∧ StartsDelimited after)
        ∨ name ∈ delimitedNames (Text.isWord c) r := by
  rw [delimitedNames, List.mem_append]
  refine or_congr_left ?_
  constructor
  · intro h
    split at h
    · rename_i hstart
      simp only [Bool.and_eq_true, Bool.not_eq_true'] at hstart
      refine ⟨hstart.1, hstart.2, ?_⟩
      split at h
      · rename_i n hword
        obtain ⟨hr, hn, -⟩ := of_word hword
        rw [List.mem_singleton.1 h, String.toList_ofList]
        exact ⟨n, [], rfl, hr, hn, by simp [StartsDelimited]⟩
      · rename_i n d t hword
        obtain ⟨hr, hn, -⟩ := of_word hword
        split at h
        · rename_i hd
          rw [List.mem_singleton.1 h, String.toList_ofList]
          exact ⟨n, d :: t, rfl, hr, hn, by simpa [StartsDelimited] using hd⟩
        · simp at h
    · simp at h
  · rintro ⟨hword, hupper, n, after, hname, rfl, hn, hafter⟩
    have hsplit := word_append hn (fun d hd => isAlphanum_of_isDelimiter (hafter d hd))
    have heq : name = String.ofList (c :: n) := by rw [← hname, String.ofList_toList]
    rw [hword, hupper, hsplit]
    cases after with
    | nil => simpa using heq
    | cons d t =>
      have hd : isDelimiter d = true := hafter d rfl
      simpa [hd] using heq

/-- The delimited names of code are the capitalized words that stand delimited
    there, the first one not right behind a word. -/
theorem mem_delimitedNames {inWord : Bool} {name : String} {code : List Char} :
    name ∈ delimitedNames inWord code
      ↔ IsCapitalized name.toList ∧ ∃ before after, code = before ++ name.toList ++ after
          ∧ (before = [] → inWord = false) ∧ EndsWord before ∧ StartsDelimited after := by
  induction code generalizing inWord with
  | nil =>
    simp only [delimitedNames, List.not_mem_nil, false_iff]
    rintro ⟨⟨c, r, hname, -⟩, before, after, hcode, -⟩
    simp [hname] at hcode
  | cons c r ih =>
    rw [mem_delimitedNames_cons, ih]
    constructor
    · rintro (⟨hword, hupper, n, after, hname, rfl, hn, hafter⟩
        | ⟨hcap, before, after, rfl, hstart, hbefore, hafter⟩)
      · exact ⟨⟨c, n, hname, hupper, hn⟩, [], after, by rw [hname]; rfl, fun _ => hword,
          by simp [EndsWord], hafter⟩
      · exact ⟨hcap, c :: before, after, rfl, fun h => absurd h (List.cons_ne_nil c before),
          endsWord_cons.2 ⟨hstart, hbefore⟩, hafter⟩
    · rintro ⟨hcap, before, after, hcode, hstart, hbefore, hafter⟩
      cases before with
      | nil =>
        obtain ⟨d, n, hname, hupper, hn⟩ := hcap
        rw [hname] at hcode
        obtain ⟨rfl, hr⟩ := List.cons.inj hcode
        exact .inl ⟨hstart rfl, hupper, n, after, hname, hr, hn, hafter⟩
      | cons d before =>
        obtain ⟨rfl, hr⟩ := List.cons.inj hcode
        obtain ⟨hlast, hbefore⟩ := endsWord_cons.1 hbefore
        exact .inr ⟨hcap, before, after, hr, hlast, hbefore, hafter⟩

/-- The names behind colons in code: one behind its first character, and those
    further on. -/
theorem mem_namesBehindColons_cons {name : String} {c : Char} {r : List Char} :
    name ∈ namesBehindColons (c :: r)
      ↔ (IsCapitalized name.toList ∧ c = ':' ∧ ∃ blanks after, r = blanks ++ name.toList ++ after
          ∧ (∀ d ∈ blanks, Text.isBlank d = true) ∧ ∀ d ∈ after.head?, d.isAlphanum = false)
        ∨ name ∈ namesBehindColons r := by
  rw [namesBehindColons, List.mem_append]
  refine or_congr_left ?_
  constructor
  · intro h
    split at h
    · rename_i hc
      split at h
      · rename_i d rest hdrop
        split at h
        · rename_i hd
          obtain ⟨hrest, hn, hafter⟩ := of_word (s := rest) rfl
          have hr : r = r.takeWhile Text.isBlank
              ++ (d :: (rest.takeWhile Char.isAlphanum ++ rest.dropWhile Char.isAlphanum)) := by
            rw [← hrest, ← hdrop, List.takeWhile_append_dropWhile]
          rw [List.mem_singleton.1 h, String.toList_ofList]
          refine ⟨⟨d, _, rfl, hd, hn⟩, hc, r.takeWhile Text.isBlank, _, ?_,
            List.all_eq_true.1 List.all_takeWhile, hafter⟩
          rw [List.append_assoc]
          exact hr
        · simp at h
      · simp at h
    · simp at h
  · rintro ⟨⟨d, n, hname, hd, hn⟩, rfl, blanks, after, rfl, hblanks, hafter⟩
    have hblank : Text.isBlank d = false :=
      (isBlank_of_isFollowing (isFollowing_of_isAlphanum (isAlphanum_of_isUpper hd))).1
    have hdrop : (blanks ++ name.toList ++ after).dropWhile Text.isBlank = d :: (n ++ after) := by
      rw [List.append_assoc, List.dropWhile_append_of_pos hblanks, hname, List.cons_append,
        List.dropWhile_cons, hblank]
      rfl
    rw [if_pos rfl, hdrop]
    simp only [hd, if_true, word_append hn hafter, List.mem_singleton]
    rw [← hname, String.ofList_toList]

/-- The names behind colons in code are the capitalized words that stand there. -/
theorem mem_namesBehindColons {name : String} {code : List Char} :
    name ∈ namesBehindColons code ↔ IsCapitalized name.toList ∧ BehindColon name.toList code := by
  induction code with
  | nil =>
    simp only [namesBehindColons, List.not_mem_nil, false_iff]
    rintro ⟨-, before, blanks, after, hcode, -⟩
    simp at hcode
  | cons c r ih =>
    rw [mem_namesBehindColons_cons, ih]
    constructor
    · rintro (⟨hcap, rfl, blanks, after, hr, hblanks, hafter⟩
        | ⟨hcap, before, blanks, after, rfl, hblanks, hafter⟩)
      · exact ⟨hcap, [], blanks, after, by rw [hr]; rfl, hblanks, hafter⟩
      · exact ⟨hcap, c :: before, blanks, after, rfl, hblanks, hafter⟩
    · rintro ⟨hcap, before, blanks, after, hcode, hblanks, hafter⟩
      cases before with
      | nil =>
        obtain ⟨rfl, hr⟩ := List.cons.inj hcode
        exact .inl ⟨hcap, rfl, blanks, after, hr, hblanks, hafter⟩
      | cons d before =>
        obtain ⟨rfl, hr⟩ := List.cons.inj hcode
        exact .inr ⟨hcap, before, blanks, after, hr, hblanks, hafter⟩

/-- **The scan** finds the declared names that stand in the code without its
    literals. -/
theorem mem_mentions {text name : String} {definitions : Definitions} :
    name ∈ mentions text definitions
      ↔ definitions.declares name = true ∧ Stands name.toList (blankLiterals text.toList) := by
  rw [mentions, NameSet.mem_ofNames, List.mem_filter, List.mem_append, mem_delimitedNames,
    mem_namesBehindColons, ← and_or_left, and_comm, Stands, Delimited]
  simp only [implies_true, true_and]

/-! ### Literals -/

/-- A literal goes on behind a text as if the text were not there. -/
def Skips (quote : Char) (a : List Char) : Prop :=
  ∀ rest, behindLiteral quote (a ++ rest) = behindLiteral quote rest

namespace Skips

variable {quote : Char} {a b : List Char}

theorem nil : Skips quote [] :=
  fun _ => rfl

theorem append (ha : Skips quote a) (hb : Skips quote b) : Skips quote (a ++ b) := by
  intro rest
  rw [List.append_assoc, ha, hb]

theorem flatMap {α : Type} {f : α → List Char} {l : List α} (h : ∀ x ∈ l, Skips quote (f x)) :
    Skips quote (l.flatMap f) := by
  induction l with
  | nil => exact nil
  | cons x r ih =>
    rw [List.flatMap_cons]
    exact (h x List.mem_cons_self).append (ih (fun y hy => h y (List.mem_cons_of_mem x hy)))

/-- A character that is neither the quote nor a backslash is passed over. -/
theorem plain {c : Char} (hq : c ≠ quote) (hb : c ≠ '\\') : Skips quote [c] := by
  intro rest
  show behindLiteral quote (c :: rest) = behindLiteral quote rest
  cases rest with
  | nil => simp [behindLiteral, hq]
  | cons d r => rw [behindLiteral, if_neg hq, if_neg hb]

/-- A character behind a backslash is passed over, unless it is a line feed. -/
theorem escape {c : Char} (hq : quote ≠ '\\') (hc : c ≠ '\n') : Skips quote ['\\', c] := by
  intro rest
  show behindLiteral quote ('\\' :: c :: rest) = behindLiteral quote rest
  rw [behindLiteral, if_neg (Ne.symm hq), if_pos rfl, if_neg hc]

/-- Characters that are neither the quote nor a backslash are passed over. -/
theorem of_plain (h : ∀ c ∈ a, c ≠ quote ∧ c ≠ '\\') : Skips quote a := by
  have hall := flatMap (f := fun c => [c]) (l := a) (fun c hc => plain (h c hc).1 (h c hc).2)
  simpa using hall

theorem behindLiteral_append (h : Skips quote a) (rest : List Char) :
    behindLiteral quote (a ++ quote :: rest) = some rest := by
  rw [h]
  cases rest with
  | nil => simp [behindLiteral]
  | cons d r => rw [behindLiteral, if_pos rfl]

end Skips

/-- A character as it stands in a literal is passed over. -/
theorem skips_literalChar (c : Char) : Skips '\'' (Text.literalChar c) := by
  unfold Text.literalChar
  split
  · exact .escape (by decide) (by decide)
  · exact .escape (by decide) (by decide)
  · exact .escape (by decide) (by decide)
  · exact .escape (by decide) (by decide)
  · have hdigits : Skips '\'' "2028".toList := .of_plain (by decide)
    exact (Skips.escape (by decide) (by decide)).append hdigits
  · have hdigits : Skips '\'' "2029".toList := .of_plain (by decide)
    exact (Skips.escape (by decide) (by decide)).append hdigits
  · rename_i hb hq _ _ _ _
    exact .plain hq hb

/-! ### Blanking -/

/-- A text without quotes. -/
def Quoteless (s : List Char) : Prop :=
  ∀ c ∈ s, c ≠ '\'' ∧ c ≠ '"'

instance (s : List Char) : Decidable (Quoteless s) :=
  decidableForallMemText (fun c => c ≠ '\'' ∧ c ≠ '"') s

theorem Quoteless.append {s t : List Char} (hs : Quoteless s) (ht : Quoteless t) :
    Quoteless (s ++ t) := by
  intro c hc
  rcases List.mem_append.1 hc with hc | hc
  · exact hs c hc
  · exact ht c hc

/-- **Neutral** texts: what follows is blanked out on its own. -/
def Neutral (a : List Char) : Prop :=
  ∀ rest, blankLiterals (a ++ rest) = blankLiterals a ++ blankLiterals rest

variable {a b : List Char} {c : Char}

/-- Nothing is to be blanked out in the empty text. -/
theorem blankLiterals_nil : blankLiterals [] = [] := by
  rw [blankLiterals.eq_def]

theorem blankLiterals_cons (hc : c ≠ '\'' ∧ c ≠ '"') (r : List Char) :
    blankLiterals (c :: r) = c :: blankLiterals r := by
  rw [blankLiterals.eq_def]
  exact if_neg (fun h => h.elim hc.1 hc.2)

/-- A literal that ends is blanked out. -/
theorem blankLiterals_of_some {quote : Char} (hq : quote = '\'' ∨ quote = '"') {r rest : List Char}
    (h : behindLiteral quote r = some rest) :
    blankLiterals (quote :: r) = '\'' :: '\'' :: blankLiterals rest := by
  rw [blankLiterals.eq_def]
  show (if quote = '\'' ∨ quote = '"' then _ else _) = _
  rw [if_pos hq]
  split
  · rename_i rest' hrest
    rw [h] at hrest
    rw [← Option.some.inj hrest]
  · rename_i hnone
    rw [h] at hnone
    cases hnone

/-- A quote stays if its literal does not end. -/
theorem blankLiterals_of_none {r : List Char} (h : behindLiteral c r = none) :
    blankLiterals (c :: r) = c :: blankLiterals r := by
  rw [blankLiterals.eq_def]
  show (if c = '\'' ∨ c = '"' then _ else _) = _
  split
  · split
    · rename_i rest hrest
      rw [h] at hrest
      cases hrest
    · rfl
  · rfl

theorem blankLiterals_literal {quote : Char} (hq : quote = '\'' ∨ quote = '"')
    (ha : Skips quote a) (rest : List Char) :
    blankLiterals (quote :: a ++ quote :: rest) = '\'' :: '\'' :: blankLiterals rest := by
  rw [List.cons_append]
  exact blankLiterals_of_some hq (ha.behindLiteral_append rest)

theorem blankLiterals_of_quoteless (h : Quoteless a) : blankLiterals a = a := by
  induction a with
  | nil => exact blankLiterals_nil
  | cons c r ih =>
    obtain ⟨hc, hr⟩ := List.forall_mem_cons.1 h
    rw [blankLiterals_cons hc, ih hr]

namespace Neutral

theorem nil : Neutral [] := by
  intro rest
  rw [blankLiterals_nil]
  rfl

theorem append (ha : Neutral a) (hb : Neutral b) : Neutral (a ++ b) := by
  intro rest
  rw [List.append_assoc, ha, hb, ha b, List.append_assoc]

theorem of_quoteless (h : Quoteless a) : Neutral a := by
  intro rest
  rw [blankLiterals_of_quoteless h]
  induction a with
  | nil => rfl
  | cons c r ih =>
    obtain ⟨hc, hr⟩ := List.forall_mem_cons.1 h
    rw [List.cons_append, blankLiterals_cons hc, ih hr, List.cons_append]

theorem literal {quote : Char} (hq : quote = '\'' ∨ quote = '"') (ha : Skips quote a) :
    Neutral (quote :: a ++ [quote]) := by
  intro rest
  rw [List.append_assoc, List.singleton_append, blankLiterals_literal hq ha,
    blankLiterals_literal hq ha, blankLiterals_nil]
  rfl

end Neutral

/-! ### Surroundings -/

/-- A word stands delimited in a text without its literals. -/
def Shows (name s : List Char) : Prop :=
  Delimited name (blankLiterals s)

/-- A neutral text that lets a word start behind it. -/
structure Opens (before : List Char) : Prop where
  neutral : Neutral before
  /-- No word goes on behind it. -/
  ends : EndsWord (blankLiterals before)

/-- A text that lets a word end in front of it. -/
def Closes (after : List Char) : Prop :=
  StartsDelimited (blankLiterals after)

theorem Opens.nil : Opens [] :=
  ⟨.nil, by simp [EndsWord, blankLiterals_nil]⟩

/-- A neutral text lets a word start behind a character that is no part of one. -/
theorem Opens.snoc (ha : Neutral a) (hc : c ≠ '\'' ∧ c ≠ '"') (hword : Text.isWord c = false) :
    Opens (a ++ [c]) where
  neutral := ha.append (.of_quoteless (by simpa [Quoteless] using hc))
  ends := by
    rw [ha, blankLiterals_cons hc, blankLiterals_nil]
    simpa [EndsWord] using hword

theorem Closes.nil : Closes [] := by
  simp [Closes, StartsDelimited, blankLiterals_nil]

theorem ne_quote_of_isDelimiter (h : isDelimiter c = true) : c ≠ '\'' ∧ c ≠ '"' := by
  constructor
  · rintro rfl
    exact absurd h (by decide)
  · rintro rfl
    exact absurd h (by decide)

theorem Closes.cons (hc : isDelimiter c = true) (r : List Char) : Closes (c :: r) := by
  rw [Closes, blankLiterals_cons (ne_quote_of_isDelimiter hc)]
  simpa [StartsDelimited] using hc

theorem shows_self {name : List Char} (h : IsCapitalized name) : Shows name name := by
  obtain ⟨c, r, rfl, hc, hr⟩ := h
  have hplain : Quoteless (c :: r) := by
    have halnum : ∀ d ∈ c :: r, d.isAlphanum = true :=
      List.forall_mem_cons.2 ⟨isAlphanum_of_isUpper hc, hr⟩
    exact fun d hd => (isBlank_of_isFollowing (isFollowing_of_isAlphanum (halnum d hd))).2
  refine ⟨[], [], ?_, by simp [EndsWord], by simp [StartsDelimited]⟩
  rw [blankLiterals_of_quoteless hplain, List.append_nil, List.nil_append]

/-- **Surroundings**: a word that shows in a neutral text shows in whatever text
    it is put into, as long as that lets it start and end there. -/
theorem Shows.surround {name s before after : List Char} (h : Shows name s)
    (hbefore : Opens before) (hs : Neutral s) (hafter : Closes after) :
    Shows name (before ++ s ++ after) := by
  obtain ⟨u, v, hcode, hu, hv⟩ := h
  refine ⟨blankLiterals before ++ u, v ++ blankLiterals after, ?_, ?_, ?_⟩
  · rw [List.append_assoc, hbefore.neutral, hs, hcode]
    simp only [List.append_assoc]
  · -- Either something in the text is in front of the word, or what is before it.
    cases u with
    | nil => rw [List.append_nil]; exact hbefore.ends
    | cons c r => simpa [EndsWord] using hu
  · cases v with
    | nil => exact hafter
    | cons c r => simpa [StartsDelimited] using hv

end TypedClient.Scan
