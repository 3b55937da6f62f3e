import TypedClient.Proofs.SettledNames

/-! # Words of names

    What a pass does to a text, told by the words of the text, and what follows for
    the texts that lead to a given function name.

    * **Words** are the runs of letters and digits, cut once more where a capital
      stands behind a small letter or a digit. A pass capitalizes each of them and
      puts them together.
    * **Glue**: a second pass takes a word of one letter for the first letter of the
      word behind it, and no other word for a part of another one.
    * **Spelling**: hence the texts that give a function name of small letters alone
      are those with its letters, in which all words but the last have one letter.
-/

namespace TypedClient.Name

/-! ### Words -/

/-- Whether a word goes on with the first character of a text. -/
def Boundary.goesOn (state : Boundary) : List Char → Bool
  | [] => false
  | c :: _ => c.isAlphanum && !state.opens c

/-- The words of a text. -/
def words : List Char → List (List Char)
  | [] => []
  | c :: r =>
    if c.isAlphanum then
      if (Boundary.after c).goesOn r then (words r).modifyHead (fun word => c :: word)
      else [c] :: words r
    else words r

/-- A word with its first letter capitalized and all others made small. -/
def capitalizeWord : List Char → List Char
  | [] => []
  | c :: r => c.toUpper :: r.map Char.toLower

/-- A text that starts with a letter or digit has a word. -/
theorem words_ne_nil {c : Char} (h : c.isAlphanum = true) (r : List Char) : words (c :: r) ≠ [] := by
  induction r generalizing c with
  | nil => simp [words, h, Boundary.goesOn]
  | cons d t ih =>
    rw [words, if_pos h]
    split
    · rename_i hgoesOn
      have hd : d.isAlphanum = true := (Bool.and_eq_true_iff.1 hgoesOn).1
      obtain ⟨word, rest, hwords⟩ := List.exists_cons_of_ne_nil (ih hd)
      rw [hwords, List.modifyHead_cons]
      exact List.cons_ne_nil _ _
    · exact List.cons_ne_nil _ _

/-- A text that a word goes on with has one. -/
theorem exists_words_of_goesOn {state : Boundary} {s : List Char} (h : state.goesOn s = true) :
    ∃ word rest, words s = word :: rest := by
  cases s with
  | nil => cases h
  | cons c r => exact List.exists_cons_of_ne_nil (words_ne_nil (Bool.and_eq_true_iff.1 h).1 r)

/-- The words of a text hold its letters and digits, in order. -/
theorem flatten_words (s : List Char) : (words s).flatten = s.filter Char.isAlphanum := by
  induction s with
  | nil => rfl
  | cons c r ih =>
    rw [words]
    split
    · rename_i hc
      rw [List.filter_cons_of_pos hc, ← ih]
      split
      · rename_i hgoesOn
        obtain ⟨word, rest, hwords⟩ := exists_words_of_goesOn hgoesOn
        rw [hwords]
        rfl
      · rfl
    · rename_i hc
      rw [List.filter_cons_of_neg hc, ih]

theorem ne_nil_of_mem_words {s word : List Char} (h : word ∈ words s) : word ≠ [] := by
  induction s with
  | nil => cases h
  | cons c r ih =>
    rw [words] at h
    split at h
    · split at h
      · rename_i hgoesOn
        obtain ⟨first, rest, hwords⟩ := exists_words_of_goesOn hgoesOn
        rw [hwords, List.modifyHead_cons] at h
        rcases List.mem_cons.1 h with rfl | hrest
        · exact List.cons_ne_nil _ _
        · exact ih (hwords ▸ List.mem_cons_of_mem first hrest)
      · rcases List.mem_cons.1 h with rfl | hrest
        · exact List.cons_ne_nil _ _
        · exact ih hrest
    · exact ih h

/-! ### A pass over words -/

/-- What a pass writes for a list of words, from a place on where the first of them
    may have begun before. -/
def continued (inside : Bool) : List (List Char) → List Char
  | [] => []
  | word :: rest =>
    (if inside then word.map Char.toLower else capitalizeWord word) ++ rest.flatMap capitalizeWord

theorem continued_false (ws : List (List Char)) :
    continued false ws = ws.flatMap capitalizeWord := by
  cases ws <;> rfl

theorem capitalizeWords_eq_continued (state : Boundary) (s : List Char) :
    capitalizeWords state s = continued (state.goesOn s) (words s) := by
  induction s generalizing state with
  | nil => rfl
  | cons c r ih =>
    cases hc : c.isAlphanum with
    | false =>
      have hstop : Boundary.between.goesOn r = false := by
        cases r <;> simp [Boundary.goesOn, Boundary.opens]
      have hgoesOn : state.goesOn (c :: r) = false := by simp [Boundary.goesOn, hc]
      have hwords : words (c :: r) = words r := by rw [words, if_neg (by simp [hc])]
      rw [capitalizeWords_skip hc, ih, hstop, hgoesOn, hwords]
    | true =>
      have hgoesOn : state.goesOn (c :: r) = !state.opens c := by simp [Boundary.goesOn, hc]
      rw [capitalizeWords_cons hc, ih, hgoesOn, words, if_pos hc]
      -- The character belongs to the word behind it, or is one of its own.
      cases hnext : (Boundary.after c).goesOn r with
      | true =>
        obtain ⟨word, rest, hwords⟩ := exists_words_of_goesOn hnext
        rw [if_pos rfl, hwords, List.modifyHead_cons]
        cases hopens : state.opens c <;>
          simp [continued, Boundary.written, hopens, capitalizeWord]
      | false =>
        rw [if_neg (by simp), continued_false]
        cases hopens : state.opens c <;>
          simp [continued, Boundary.written, hopens, capitalizeWord]

/-- **A pass** capitalizes the words of a text and puts them together. -/
theorem pascalPass_eq (s : List Char) : pascalPass s = (words s).flatMap capitalizeWord := by
  have hstart : Boundary.between.goesOn s = false := by
    cases s <;> simp [Boundary.goesOn, Boundary.opens]
  rw [pascalPass, capitalizeWords_eq_continued, hstart, continued_false]

/-! ### A second pass -/

/-- A pass keeps letters and digits, up to their case. -/
theorem map_toLower_capitalizeWords (state : Boundary) (s : List Char) :
    (capitalizeWords state s).map Char.toLower = (s.filter Char.isAlphanum).map Char.toLower := by
  induction s generalizing state with
  | nil => rfl
  | cons c r ih =>
    cases hc : c.isAlphanum with
    | false => rw [capitalizeWords_skip hc, ih, List.filter_cons_of_neg (by simp [hc])]
    | true =>
      have hwritten : (state.written c).toLower = c.toLower := by
        unfold Boundary.written
        split
        · exact toLower_toUpper c
        · exact toLower_toLower c
      rw [capitalizeWords_cons hc, List.filter_cons_of_pos hc, List.map_cons, List.map_cons, ih,
        hwritten]

/-- Inside of a word, a pass leaves small letters and digits alone. -/
theorem capitalizeWords_small {state : Boundary} (hstate : state ≠ .between) {t : List Char}
    (ht : ∀ c ∈ t, c.isAlphanum = true) (rest : List Char) :
    capitalizeWords state (t.map Char.toLower ++ rest)
      = t.map Char.toLower ++ capitalizeWords (if t = [] then state else .afterSmall) rest := by
  induction t generalizing state with
  | nil => rfl
  | cons c r ih =>
    obtain ⟨hc, hr⟩ := List.forall_mem_cons.1 ht
    have hsmall : c.toLower.isUpper = false := isUpper_toLower c
    have hwritten : state.written c.toLower = c.toLower := by
      rw [Boundary.written, if_neg (by simp [Boundary.opens, hstate, hsmall])]
      exact toLower_toLower c
    have hafter : Boundary.after c.toLower = .afterSmall := Boundary.after_eq_afterSmall_iff.2 hsmall
    rw [List.map_cons, List.cons_append, capitalizeWords_cons (isAlphanum_toLower hc), hwritten,
      hafter, ih (by decide) hr, if_neg (List.cons_ne_nil c r), ite_self]
    rfl

/-- What a pass writes for a capitalized word of letters with others behind it. -/
theorem capitalizeWords_capitalizeWord (state : Boundary) {c : Char} {t : List Char}
    (hword : ∀ d ∈ c :: t, d.isAlpha = true) (rest : List Char) :
    capitalizeWords state (capitalizeWord (c :: t) ++ rest)
      = state.written c.toUpper :: (t.map Char.toLower
        ++ capitalizeWords (if t = [] then .afterCapital else .afterSmall) rest) := by
  obtain ⟨hc, ht⟩ := List.forall_mem_cons.1 hword
  have hupper : c.toUpper.isUpper = true := by rw [isUpper_toUpper, hc]
  have hafter : Boundary.after c.toUpper = .afterCapital := by simp [Boundary.after, hupper]
  rw [capitalizeWord, List.cons_append, capitalizeWords_cons (isAlphanum_of_isUpper hupper), hafter,
    capitalizeWords_small (by decide) (fun d hd => isAlphanum_of_isAlpha (ht d hd))]

section

variable {ws : List (List Char)}

/-- Behind a small letter every capital opens a word. -/
theorem noCapital_afterSmall_iff (hne : ∀ word ∈ ws, word ≠ [])
    (halpha : ∀ word ∈ ws, ∀ c ∈ word, c.isAlpha = true) :
    (∀ c ∈ capitalizeWords .afterSmall (ws.flatMap capitalizeWord), c.isUpper = false)
      ↔ ws = [] := by
  constructor
  · intro hnone
    cases ws with
    | nil => rfl
    | cons word rest =>
      obtain ⟨c, t, rfl⟩ := List.exists_cons_of_ne_nil (hne word List.mem_cons_self)
      have hword := halpha (c :: t) List.mem_cons_self
      have hupper : c.toUpper.isUpper = true := by
        rw [isUpper_toUpper, hword c List.mem_cons_self]
      have hwritten : Boundary.afterSmall.written c.toUpper = c.toUpper := by
        rw [Boundary.written, if_pos (by simp [Boundary.opens, hupper])]
        exact toUpper_of_isUpper hupper
      rw [List.flatMap_cons, capitalizeWords_capitalizeWord _ hword, hwritten] at hnone
      have hfirst := hnone c.toUpper List.mem_cons_self
      rw [hupper] at hfirst
      cases hfirst
  · rintro rfl c hc
    cases hc

/-- Behind a capital the words go on as one until one of them has a second letter. -/
theorem noCapital_afterCapital_iff (hne : ∀ word ∈ ws, word ≠ [])
    (halpha : ∀ word ∈ ws, ∀ c ∈ word, c.isAlpha = true) :
    (∀ c ∈ capitalizeWords .afterCapital (ws.flatMap capitalizeWord), c.isUpper = false)
      ↔ ∀ word ∈ ws.dropLast, word.length = 1 := by
  induction ws with
  | nil => simp [capitalizeWords]
  | cons word rest ih =>
    obtain ⟨c, t, rfl⟩ := List.exists_cons_of_ne_nil (hne word List.mem_cons_self)
    have hword := halpha (c :: t) List.mem_cons_self
    have hnerest : ∀ word ∈ rest, word ≠ [] := fun w hw => hne w (List.mem_cons_of_mem _ hw)
    have halpharest : ∀ word ∈ rest, ∀ c ∈ word, c.isAlpha = true := fun w hw =>
      halpha w (List.mem_cons_of_mem _ hw)
    have hfirst : (Boundary.afterCapital.written c.toUpper).isUpper = false :=
      isUpper_toLower _
    have hbehind : ∀ d ∈ t.map Char.toLower, d.isUpper = false := by
      intro d hd
      obtain ⟨e, -, rfl⟩ := List.mem_map.1 hd
      exact isUpper_toLower e
    rw [List.flatMap_cons, capitalizeWords_capitalizeWord _ hword, List.forall_mem_cons,
      List.forall_mem_append, and_iff_right hfirst, and_iff_right hbehind]
    cases t with
    | nil =>
      rw [if_pos rfl, ih hnerest halpharest]
      cases rest <;> simp
    | cons d t =>
      rw [if_neg (List.cons_ne_nil d t), noCapital_afterSmall_iff hnerest halpharest]
      cases rest <;> simp

end

/-! ### Spelling -/

/-- **Spelling**: the letters and digits of a text are those of a word, whatever their
    case, and all words of the text but the last have one letter. -/
structure Spells (s word : List Char) : Prop where
  letters : (s.filter Char.isAlphanum).map Char.toLower = word
  single : ∀ part ∈ (words s).dropLast, part.length = 1

instance (s word : List Char) : Decidable (Spells s word) :=
  decidable_of_iff
    ((s.filter Char.isAlphanum).map Char.toLower = word
      ∧ ∀ part ∈ (words s).dropLast, part.length = 1)
    ⟨fun h => ⟨h.1, h.2⟩, fun h => ⟨h.letters, h.single⟩⟩

/-- What two passes write has the letters and digits of the text, up to their case. -/
theorem map_toLower_pascalPass_pascalPass (s : List Char) :
    (pascalPass (pascalPass s)).map Char.toLower = (s.filter Char.isAlphanum).map Char.toLower := by
  have hall : (pascalPass s).filter Char.isAlphanum = pascalPass s :=
    List.filter_eq_self.2 fun c hc => isAlphanum_of_mem_capitalizeWords hc
  rw [pascalPass, map_toLower_capitalizeWords, hall, pascalPass, map_toLower_capitalizeWords]

/-- Behind its first letter, what two passes write of words of letters has no capital
    exactly if all of them but the last have one letter. -/
theorem noCapital_tail_iff {s : List Char} (hs : words s ≠ [])
    (halpha : ∀ word ∈ words s, ∀ c ∈ word, c.isAlpha = true) :
    (∀ c ∈ (pascalPass (pascalPass s)).tail, c.isUpper = false)
      ↔ ∀ word ∈ (words s).dropLast, word.length = 1 := by
  have hne : ∀ word ∈ words s, word ≠ [] := fun word hword => ne_nil_of_mem_words hword
  rw [← noCapital_afterCapital_iff hne halpha, pascalPass_eq s]
  obtain ⟨word, rest, hwords⟩ := List.exists_cons_of_ne_nil hs
  obtain ⟨c, t, rfl⟩ := List.exists_cons_of_ne_nil (hne word (hwords ▸ List.mem_cons_self))
  have hword := halpha (c :: t) (hwords ▸ List.mem_cons_self)
  have hfirst : (Boundary.afterCapital.written c.toUpper).isUpper = false :=
    isUpper_toLower _
  -- From the second character on, a pass goes on as it does behind a capital.
  rw [hwords, List.flatMap_cons, pascalPass, capitalizeWords_capitalizeWord _ hword,
    capitalizeWords_capitalizeWord _ hword, List.tail_cons, List.forall_mem_cons,
    and_iff_right hfirst]

/-- A text without capitals is its own small form. -/
theorem map_toLower_of_noCapital {s : List Char} (h : ∀ c ∈ s, c.isUpper = false) :
    s.map Char.toLower = s := by
  refine (List.map_congr_left fun c hc => ?_).trans (List.map_id s)
  exact toLower_of_isUpper_eq_false (h c hc)

/-- A text with the letters of a word of small ones has words of letters alone. -/
theorem isAlpha_of_mem_words {s word : List Char} (hsmall : ∀ c ∈ word, c.isLower = true)
    (hletters : (s.filter Char.isAlphanum).map Char.toLower = word) :
    ∀ part ∈ words s, ∀ c ∈ part, c.isAlpha = true := by
  intro part hpart c hc
  have hmem : c ∈ s.filter Char.isAlphanum := by
    rw [← flatten_words]
    exact List.mem_flatten_of_mem hpart hc
  have hlower := hsmall c.toLower (hletters ▸ List.mem_map_of_mem hmem)
  rwa [isLower_toLower] at hlower

/-- **Inversion**: a function name of small letters is given by the texts that spell
    it, and by no others. -/
theorem functionName_eq_iff_spells {s word : String} (hne : word ≠ "")
    (hsmall : ∀ c ∈ word.toList, c.isLower = true) (hunnamed : word ≠ "unnamed") :
    functionName s = word ↔ Spells s.toList word.toList := by
  have hletters := map_toLower_pascalPass_pascalPass s.toList
  have hshape := typeShape s.toList
  have htail : (s.toList.filter Char.isAlphanum).map Char.toLower = word.toList →
      ((∀ c ∈ (pascalPass (pascalPass s.toList)).tail, c.isUpper = false)
        ↔ ∀ part ∈ (words s.toList).dropLast, part.length = 1) := by
    intro hsame
    refine noCapital_tail_iff (fun hnone => hne ?_) (isAlpha_of_mem_words hsmall hsame)
    rw [← flatten_words, hnone] at hsame
    exact String.toList_eq_nil_iff.1 hsame.symm
  rw [← String.toList_inj, functionName, String.toList_ofList]
  generalize pascalPass (pascalPass s.toList) = left at hletters hshape htail
  generalize typeChars s.toList = name at hshape
  cases hshape with
  | unnamed =>
    -- Nothing is left of the text, and no word is spelled by nothing.
    constructor
    · intro hname
      exact absurd (String.toList_inj.1 hname.symm) hunnamed
    · intro hspells
      rw [hspells.letters] at hletters
      exact absurd (String.toList_eq_nil_iff.1 hletters.symm) hne
  | @digit c r hdigit =>
    -- Neither the underscore nor the digit is a small letter.
    constructor
    · intro hname
      have hunderscore := hsmall '_' (hname ▸ List.mem_cons_self)
      cases hunderscore
    · intro hspells
      rw [hspells.letters] at hletters
      have hlower := hsmall c.toLower (hletters ▸ List.mem_cons_self)
      rw [isLower_toLower, isAlpha_of_isDigit hdigit] at hlower
      cases hlower
  | @capital c r hupper =>
    constructor
    · intro hname
      have hr : ∀ d ∈ r, d.isUpper = false := by
        intro d hd
        have hlower := hsmall d (hname ▸ List.mem_cons_of_mem _ hd)
        exact isUpper_of_isLower hlower
      have hsame : (s.toList.filter Char.isAlphanum).map Char.toLower = word.toList := by
        rw [← hletters, List.map_cons, map_toLower_of_noCapital hr]
        exact hname
      exact ⟨hsame, (htail hsame).1 hr⟩
    · intro hspells
      have hr : ∀ d ∈ r, d.isUpper = false := (htail hspells.letters).2 hspells.single
      rw [hspells.letters, List.map_cons, map_toLower_of_noCapital hr] at hletters
      exact hletters

-- Words of one letter are glued to the one behind them, and to no other.
example : Spells "d-e_Lete!".toList "delete".toList ∧ ¬ Spells "de-lete".toList "delete".toList := by
  decide +kernel

end TypedClient.Name
