import TypedClient.Decimal.Text
import TypedClient.Name.TypeName
import TypedClient.Text.Blank

/-! # Characters of names and numbers

    The classes of characters that names and numbers of the generated code are
    made of. Letters and digits are ASCII, so what is said of them is checked
    value by value.
-/

namespace TypedClient

/-! ### Texts -/

-- The list decides, and not all characters that there are.
instance decidableForallMemText (p : Char → Prop) [DecidablePred p] (s : List Char) :
    Decidable (∀ c ∈ s, p c) :=
  List.decidableBAll p s

/-- A text is cut where the characters of a class end. -/
theorem span_append {p : Char → Bool} {a rest : List Char} (ha : ∀ c ∈ a, p c = true)
    (hrest : ∀ c ∈ rest.head?, p c = false) :
    (a ++ rest).takeWhile p = a ∧ (a ++ rest).dropWhile p = rest := by
  rw [List.takeWhile_append_of_pos ha, List.dropWhile_append_of_pos ha]
  cases rest with
  | nil => simp
  | cons c r => simp [hrest c rfl]

/-! ### ASCII -/

/-- What holds of every ASCII value holds of every ASCII character. -/
theorem of_ascii (p : Char → Prop) (h : ∀ n < 128, p (Char.ofNat n)) {c : Char}
    (hc : c.toNat < 128) : p c := by
  rw [← Char.ofNat_toNat c]
  exact h c.toNat hc

theorem toNat_lt_of_isAlphanum {c : Char} (h : c.isAlphanum = true) : c.toNat < 128 := by
  have hcases : (c.isUpper || c.isLower || c.isDigit) = true := h
  rw [Bool.or_eq_true, Bool.or_eq_true] at hcases
  have hle : c.val ≤ 'z'.val := by
    rcases hcases with (hupper | hlower) | hdigit
    · have hbound : c.val ≤ 'Z'.val := (of_decide_eq_true hupper).2
      exact UInt32.le_trans hbound (by decide)
    · exact of_decide_eq_true (Bool.and_eq_true_iff.1 hlower).2
    · have hbound : c.val ≤ '9'.val := of_decide_eq_true (Bool.and_eq_true_iff.1 hdigit).2
      exact UInt32.le_trans hbound (by decide)
  exact Nat.lt_of_le_of_lt (UInt32.le_iff_toNat_le.1 hle) (by decide)

theorem isAlpha_of_isUpper {c : Char} (h : c.isUpper = true) : c.isAlpha = true := by
  show (c.isUpper || c.isLower) = true
  rw [h, Bool.true_or]

theorem isAlpha_of_isLower {c : Char} (h : c.isLower = true) : c.isAlpha = true := by
  show (c.isUpper || c.isLower) = true
  rw [h, Bool.or_true]

theorem isAlphanum_of_isAlpha {c : Char} (h : c.isAlpha = true) : c.isAlphanum = true := by
  simp [Char.isAlphanum, h]

theorem isAlphanum_of_isUpper {c : Char} (h : c.isUpper = true) : c.isAlphanum = true :=
  isAlphanum_of_isAlpha (isAlpha_of_isUpper h)

/-- A digit is no letter, but counts among letters and digits. -/
theorem isAlphanum_of_isDigit {c : Char} (h : c.isDigit = true) : c.isAlphanum = true := by
  simp [Char.isAlphanum, h]

theorem isAlpha_of_isDigit {c : Char} (h : c.isDigit = true) : c.isAlpha = false :=
  of_ascii (fun d => d.isDigit = true → d.isAlpha = false) (by decide +kernel)
    (toNat_lt_of_isAlphanum (isAlphanum_of_isDigit h)) h

/-! ### Small letters and capitals

    The library has facts like these, too, but no part of it that could be had alone. -/

/-- What the two forms of a letter are to each other, checked of all letters at once. -/
theorem case_of_isAlpha {c : Char} (h : c.isAlpha = true) :
    c.isLower = !c.isUpper ∧ c.toUpper.isUpper = true ∧ c.toLower.isLower = true
      ∧ c.toLower.toUpper = c.toUpper ∧ c.toUpper.toLower = c.toLower :=
  of_ascii (fun d => d.isAlpha = true → d.isLower = !d.isUpper ∧ d.toUpper.isUpper = true
      ∧ d.toLower.isLower = true ∧ d.toLower.toUpper = d.toUpper ∧ d.toUpper.toLower = d.toLower)
    (by decide +kernel) (toNat_lt_of_isAlphanum (isAlphanum_of_isAlpha h)) h

theorem isLower_of_isUpper {c : Char} (h : c.isUpper = true) : c.isLower = false := by
  rw [(case_of_isAlpha (isAlpha_of_isUpper h)).1, h, Bool.not_true]

theorem isUpper_of_isLower {c : Char} (h : c.isLower = true) : c.isUpper = false := by
  have hother := (case_of_isAlpha (isAlpha_of_isLower h)).1
  rwa [h, eq_comm, Bool.not_eq_true'] at hother

theorem isUpper_eq_false {c : Char} (h : c.isAlpha = false) : c.isUpper = false :=
  (Bool.or_eq_false_iff.1 h).1

theorem isLower_eq_false {c : Char} (h : c.isAlpha = false) : c.isLower = false :=
  (Bool.or_eq_false_iff.1 h).2

/-- Capitalizing leaves alone what is no small letter. -/
theorem toUpper_of_isLower_eq_false {c : Char} (h : c.isLower = false) : c.toUpper = c := by
  refine dif_neg fun hbounds => ?_
  have hlower : c.isLower = true :=
    Bool.and_eq_true_iff.2 ⟨decide_eq_true hbounds.1, decide_eq_true hbounds.2⟩
  rw [h] at hlower
  cases hlower

/-- Making small leaves alone what is no capital. -/
theorem toLower_of_isUpper_eq_false {c : Char} (h : c.isUpper = false) : c.toLower = c :=
  dif_neg (of_decide_eq_false h)

theorem toUpper_of_isAlpha_eq_false {c : Char} (h : c.isAlpha = false) : c.toUpper = c :=
  toUpper_of_isLower_eq_false (isLower_eq_false h)

theorem toLower_of_isAlpha_eq_false {c : Char} (h : c.isAlpha = false) : c.toLower = c :=
  toLower_of_isUpper_eq_false (isUpper_eq_false h)

/-- The capitals are what capitalizing makes of letters. -/
theorem isUpper_toUpper (c : Char) : c.toUpper.isUpper = c.isAlpha := by
  cases h : c.isAlpha with
  | true => exact (case_of_isAlpha h).2.1
  | false => rw [toUpper_of_isAlpha_eq_false h, isUpper_eq_false h]

/-- The small letters are what making small makes of letters. -/
theorem isLower_toLower (c : Char) : c.toLower.isLower = c.isAlpha := by
  cases h : c.isAlpha with
  | true => exact (case_of_isAlpha h).2.2.1
  | false => rw [toLower_of_isAlpha_eq_false h, isLower_eq_false h]

theorem isUpper_toLower (c : Char) : c.toLower.isUpper = false := by
  cases h : c.isAlpha with
  | true => exact isUpper_of_isLower ((isLower_toLower c).trans h)
  | false => rw [toLower_of_isAlpha_eq_false h, isUpper_eq_false h]

theorem isAlpha_toLower (c : Char) : c.toLower.isAlpha = c.isAlpha := by
  show (c.toLower.isUpper || c.toLower.isLower) = c.isAlpha
  rw [isUpper_toLower, isLower_toLower, Bool.false_or]

/-- Of two changes of case the second one counts. -/
theorem toUpper_toLower (c : Char) : c.toLower.toUpper = c.toUpper := by
  cases h : c.isAlpha with
  | true => exact (case_of_isAlpha h).2.2.2.1
  | false => rw [toLower_of_isAlpha_eq_false h]

theorem toLower_toUpper (c : Char) : c.toUpper.toLower = c.toLower := by
  cases h : c.isAlpha with
  | true => exact (case_of_isAlpha h).2.2.2.2
  | false => rw [toUpper_of_isAlpha_eq_false h]

theorem toLower_toLower (c : Char) : c.toLower.toLower = c.toLower :=
  toLower_of_isUpper_eq_false (isUpper_toLower c)

theorem toUpper_of_isUpper {c : Char} (h : c.isUpper = true) : c.toUpper = c :=
  toUpper_of_isLower_eq_false (isLower_of_isUpper h)

theorem toLower_of_isLower {c : Char} (h : c.isLower = true) : c.toLower = c :=
  toLower_of_isUpper_eq_false (isUpper_of_isLower h)

/-- Capitalizing a letter or digit gives a capital or a digit. -/
theorem isUpper_or_isDigit_toUpper {c : Char} (h : c.isAlphanum = true) :
    c.toUpper.isUpper = true ∨ c.toUpper.isDigit = true := by
  rcases Bool.or_eq_true_iff.1 h with hletter | hdigit
  · exact .inl ((isUpper_toUpper c).trans hletter)
  · rw [toUpper_of_isAlpha_eq_false (isAlpha_of_isDigit hdigit)]
    exact .inr hdigit

/-- Making a letter or digit small gives a letter or digit. -/
theorem isAlphanum_toLower {c : Char} (h : c.isAlphanum = true) : c.toLower.isAlphanum = true := by
  rcases Bool.or_eq_true_iff.1 h with hletter | hdigit
  · exact isAlphanum_of_isAlpha ((isAlpha_toLower c).trans hletter)
  · rw [toLower_of_isAlpha_eq_false (isAlpha_of_isDigit hdigit)]
    exact h

/-! ### Characters of names -/

/-- A letter or digit may stand inside a bare name. -/
theorem isFollowing_of_isAlphanum {c : Char} (h : c.isAlphanum = true) :
    Name.isFollowing c = true := by
  simp [Name.isFollowing, h]

theorem toNat_lt_of_isFollowing {c : Char} (h : Name.isFollowing c = true) : c.toNat < 128 := by
  simp only [Name.isFollowing, Bool.or_eq_true, beq_iff_eq] at h
  rcases h with (h | rfl) | rfl
  · exact toNat_lt_of_isAlphanum h
  · decide
  · decide

/-- What may start a bare name may stand inside one. -/
theorem isFollowing_of_isInitial {c : Char} (h : Name.isInitial c = true) :
    Name.isFollowing c = true := by
  simp only [Name.isInitial, Bool.or_eq_true] at h
  rcases h with (h | h) | h
  · simp [Name.isFollowing, Char.isAlphanum, h]
  · simp [Name.isFollowing, h]
  · simp [Name.isFollowing, h]

/-- A bare name is made of what may stand inside one. -/
theorem isFollowing_of_isPlainChars {text : List Char} (h : Name.isPlainChars text = true) :
    ∀ c ∈ text, Name.isFollowing c = true := by
  cases text with
  | nil => simp
  | cons c r =>
    obtain ⟨hc, hr⟩ := Name.isPlainChars_cons.1 h
    exact List.forall_mem_cons.2 ⟨isFollowing_of_isInitial hc, hr⟩

theorem isBlank_of_isFollowing {c : Char} (h : Name.isFollowing c = true) :
    Text.isBlank c = false ∧ c ≠ '\'' ∧ c ≠ '"' :=
  of_ascii
    (fun d => Name.isFollowing d = true → Text.isBlank d = false ∧ d ≠ '\'' ∧ d ≠ '"')
    (by decide +kernel) (toNat_lt_of_isFollowing h) h

namespace Name

/-! ### Type names -/

/-- A pass over a name leaves letters and digits only. -/
theorem isAlphanum_of_mem_capitalizeWords {state : Boundary} {s : List Char} {c : Char}
    (h : c ∈ capitalizeWords state s) : c.isAlphanum = true := by
  induction s generalizing state with
  | nil => simp [capitalizeWords] at h
  | cons d r ih =>
    rw [capitalizeWords] at h
    split at h
    · rename_i hd
      rcases List.mem_cons.1 h with rfl | hr
      · split
        · rcases isUpper_or_isDigit_toUpper hd with hu | hu
          · exact isAlphanum_of_isUpper hu
          · exact isAlphanum_of_isDigit hu
        · exact isAlphanum_toLower hd
      · exact ih hr
    · exact ih h

/-- What a pass leaves starts with a capital or a digit. -/
theorem head_pascalPass {s r : List Char} {c : Char} (h : pascalPass s = c :: r) :
    c.isUpper = true ∨ c.isDigit = true := by
  unfold pascalPass at h
  induction s with
  | nil => simp [capitalizeWords] at h
  | cons d t ih =>
    rw [capitalizeWords] at h
    split at h
    · rename_i hd
      -- Between words a letter or digit always opens one.
      have hc : d.toUpper = c := by simpa using (List.cons.inj h).1
      exact hc ▸ isUpper_or_isDigit_toUpper hd
    · exact ih h

/-- A type name starts with a capital or an underscore and goes on with letters
    and digits. -/
theorem exists_typeChars_eq (s : List Char) :
    ∃ c r, typeChars s = c :: r ∧ (c.isUpper = true ∨ c = '_')
      ∧ ∀ d ∈ r, d.isAlphanum = true := by
  unfold typeChars
  split
  · exact ⟨'U', "nnamed".toList, rfl, .inl rfl, by decide⟩
  · rename_i c r hp
    have hall : ∀ d ∈ c :: r, d.isAlphanum = true := fun d hd =>
      isAlphanum_of_mem_capitalizeWords (hp ▸ hd)
    split
    · exact ⟨'_', c :: r, rfl, .inr rfl, hall⟩
    · rename_i hd
      rcases head_pascalPass hp with hu | hdigit
      · exact ⟨c, r, rfl, .inl hu, fun d hm => hall d (List.mem_cons_of_mem c hm)⟩
      · exact absurd hdigit hd

end Name

/-! ### Numbers -/

namespace Decimal

/-- The characters of numbers. -/
def isNumeral (c : Char) : Bool :=
  c.isDigit || c == '-' || c == '+' || c == '.' || c == 'e' || c == 'E'

/-- Whether a text is a number as far as its characters go: a digit or a minus
    sign in front, characters of numbers behind. -/
def IsNumeral (s : List Char) : Prop :=
  ∃ c r, s = c :: r ∧ (c.isDigit = true ∨ c = '-') ∧ ∀ d ∈ r, isNumeral d = true

end Decimal

end TypedClient
