import TypedClient.Text.Digit
import TypedClient.Text.Literal

/-! # Reading string literals

    What the language makes of a text behind a single quote:

    * **Escapes**: a backslash and a letter, or `\u` and four digits of base
      sixteen.
    * **One line**: none of the four line terminators stands in a literal.
    * **Bodies**: what may stand between two quotes, and the one text that it stands
      for, are said character by character. The reader reads exactly that.
    * **Round trip**: what `Text.literal` writes is read back as it was.
-/

namespace TypedClient.Literal

/-! ### The reader -/

/-- The characters that end a line of code. -/
def isLineEnd (c : Char) : Bool :=
  c == '\n' || c == '\r' || c == '\u2028' || c == '\u2029'

/-- What a backslash and one more character stand for. Numbers, and the ends of
    lines, are no such character. -/
def escape? (c : Char) : Option Char :=
  match c with
  | 'b' => some '\x08'
  | 't' => some '\t'
  | 'n' => some '\n'
  | 'v' => some '\x0b'
  | 'f' => some '\x0c'
  | 'r' => some '\r'
  | c => if c.isDigit || c == 'x' || c == 'u' || isLineEnd c then none else some c

/-- The character of four digits behind `\u`. -/
def unit? (digits : List Char) : Option Char :=
  (Digit.number? 16 digits).bind (fun n => if n.isValidChar then some (Char.ofNat n) else none)

/-- Puts a text in front of what was read. -/
def precede (a : List Char) (found : Option (List Char × List Char)) :
    Option (List Char × List Char) :=
  found.map (fun x => (a ++ x.1, x.2))

/-- Two texts in front, one after the other, are one text in front. -/
theorem precede_precede (a b : List Char) (found : Option (List Char × List Char)) :
    precede a (precede b found) = precede (a ++ b) found := by
  cases found <;> simp [precede]

/-- What was read behind a text, from what was read with it. -/
theorem exists_of_precede {a : List Char} {found : Option (List Char × List Char)}
    {value rest : List Char} (h : precede a found = some (value, rest)) :
    ∃ v, found = some (v, rest) ∧ value = a ++ v := by
  obtain ⟨⟨v, t⟩, hfound, heq⟩ := Option.map_eq_some_iff.1 h
  simp only [Prod.mk.injEq] at heq
  exact ⟨v, heq.2 ▸ hfound, heq.1.symm⟩

/-- Reads a literal from behind its opening quote: its value, and what stands
    behind its closing quote. -/
def read : List Char → Option (List Char × List Char)
  | [] => none
  | '\'' :: r => some ([], r)
  | '\\' :: 'u' :: w :: x :: y :: z :: r =>
    (unit? [w, x, y, z]).bind (fun u => precede [u] (read r))
  | '\\' :: e :: r => (escape? e).bind (fun u => precede [u] (read r))
  | c :: r => if c == '\\' || isLineEnd c then none else precede [c] (read r)

/-- Behind a literal there is less text than in front of it. -/
theorem length_read_lt {s value rest : List Char} (h : read s = some (value, rest)) :
    rest.length < s.length := by
  fun_induction read s generalizing value rest with
  | case1 => simp at h
  | case2 r => simp at h; simp [h]
  | case3 w x y z r ih =>
    obtain ⟨u, -, hu⟩ := Option.bind_eq_some_iff.1 h
    obtain ⟨v, hr, -⟩ := exists_of_precede hu
    have := ih hr
    simp only [List.length_cons]
    omega
  | case4 e r _ ih =>
    obtain ⟨u, -, hu⟩ := Option.bind_eq_some_iff.1 h
    obtain ⟨v, hr, -⟩ := exists_of_precede hu
    have := ih hr
    simp only [List.length_cons]
    omega
  | case5 => simp at h
  | case6 c r _ _ _ hc ih =>
    obtain ⟨v, hr, -⟩ := exists_of_precede h
    have := ih hr
    simp only [List.length_cons]
    omega

/-! ### Single characters -/

/-- A character that stands for itself is read as itself. -/
theorem read_plain {c : Char} (hq : c ≠ '\'') (hb : c ≠ '\\') (hl : isLineEnd c = false)
    (rest : List Char) : read (c :: rest) = precede [c] (read rest) := by
  rw [read.eq_def]
  split
  · rename_i h; simp at h
  · rename_i h; exact absurd (List.cons.inj h).1 hq
  · rename_i h; exact absurd (List.cons.inj h).1 hb
  · rename_i h; exact absurd (List.cons.inj h).1 hb
  · rename_i h
    obtain ⟨rfl, rfl⟩ := List.cons.inj h
    simp [hb, hl]

theorem read_escape {e c : Char} (h : escape? e = some c) (rest : List Char) :
    read ('\\' :: e :: rest) = precede [c] (read rest) := by
  have hletter : e ≠ 'u' := by
    rintro rfl
    cases h
  rw [read.eq_def]
  split
  · rename_i heq; simp at heq
  · rename_i heq; simp at heq
  · rename_i heq; exact absurd (List.cons.inj (List.cons.inj heq).2).1 hletter
  · rename_i heq
    obtain ⟨rfl, rfl⟩ := List.cons.inj (List.cons.inj heq).2
    rw [h, Option.bind_some]
  · rename_i hnone heq
    obtain ⟨rfl, rfl⟩ := List.cons.inj heq
    exact (hnone e rest rfl rfl).elim

/-! ### Bodies of literals -/

/-- A **body** of a literal spells a text: a character other than a quote, a backslash
    and the end of a line spells itself, and an escape what it stands for. -/
inductive Spells : List Char → List Char → Prop where
  | nil : Spells [] []
  | plain {c : Char} {body value : List Char} (hquote : c ≠ '\'') (hslash : c ≠ '\\')
    (hline : isLineEnd c = false) (h : Spells body value) : Spells (c :: body) (c :: value)
  /-- A backslash and one more character. -/
  | escape {e c : Char} {body value : List Char} (hescape : escape? e = some c)
    (h : Spells body value) : Spells ('\\' :: e :: body) (c :: value)
  /-- A backslash, a `u` and four digits. -/
  | unit {w x y z c : Char} {body value : List Char} (hunit : unit? [w, x, y, z] = some c)
    (h : Spells body value) : Spells ('\\' :: 'u' :: w :: x :: y :: z :: body) (c :: value)

theorem isLineEnd_of_escape? {e c : Char} (h : escape? e = some c) : isLineEnd e = false := by
  unfold escape? at h
  split at h
  case h_7 =>
    split at h
    · cases h
    · rename_i hother
      simp only [Bool.or_eq_true, not_or, Bool.not_eq_true] at hother
      exact hother.2
  all_goals decide

theorem isLineEnd_of_unit? {digits : List Char} {c d : Char} (h : unit? digits = some c)
    (hd : d ∈ digits) : isLineEnd d = false := by
  obtain ⟨n, hn, -⟩ := Option.bind_eq_some_iff.1 h
  obtain ⟨v, hv⟩ := Digit.exists_value?_of_number? hn d hd
  rw [Bool.eq_false_iff]
  intro hline
  have hends : ∀ c ∈ ['\n', '\r', '\u2028', '\u2029'], Digit.value? 16 c = none := by decide
  have hmem : d ∈ ['\n', '\r', '\u2028', '\u2029'] := by
    simpa [isLineEnd, or_assoc] using hline
  rw [hends d hmem] at hv
  cases hv

namespace Spells

variable {body value : List Char}

/-- A body stands on one line. -/
theorem isLineEnd_eq_false (h : Spells body value) : ∀ c ∈ body, isLineEnd c = false := by
  have hslash : isLineEnd '\\' = false := by decide
  have hletter : isLineEnd 'u' = false := by decide
  induction h with
  | nil => exact fun _ hc => absurd hc List.not_mem_nil
  | plain _ _ hline _ ih => exact List.forall_mem_cons.2 ⟨hline, ih⟩
  | escape hescape _ ih =>
    exact List.forall_mem_cons.2
      ⟨hslash, List.forall_mem_cons.2 ⟨isLineEnd_of_escape? hescape, ih⟩⟩
  | @unit w x y z c body value hunit _ ih =>
    have hdigits : ∀ d ∈ [w, x, y, z] ++ body, isLineEnd d = false := by
      intro d hd
      rcases List.mem_append.1 hd with hd | hd
      · exact isLineEnd_of_unit? hunit hd
      · exact ih d hd
    exact List.forall_mem_cons.2 ⟨hslash, List.forall_mem_cons.2 ⟨hletter, hdigits⟩⟩

theorem append {more text : List Char} (h : Spells body value) (hmore : Spells more text) :
    Spells (body ++ more) (value ++ text) := by
  induction h with
  | nil => exact hmore
  | plain hquote hslash hline _ ih => exact .plain hquote hslash hline ih
  | escape hescape _ ih => exact .escape hescape ih
  | unit hunit _ ih => exact .unit hunit ih

/-- The reader gives the text that a body spells, and stops at the quote behind it. -/
theorem read_eq (h : Spells body value) (rest : List Char) :
    read (body ++ '\'' :: rest) = some (value, rest) := by
  induction h with
  | nil => rfl
  | @plain c body value hquote hslash hline _ ih =>
    rw [List.cons_append, read_plain hquote hslash hline, ih]
    rfl
  | @escape e c body value hescape _ ih =>
    rw [List.cons_append, List.cons_append, read_escape hescape, ih]
    rfl
  | @unit w x y z c body value hunit _ ih =>
    show (unit? [w, x, y, z]).bind (fun u => precede [u] (read (body ++ '\'' :: rest))) = _
    rw [hunit, Option.bind_some, ih]
    rfl

/-- A body spells one text only. -/
theorem unique {other : List Char} (h : Spells body value) (hother : Spells body other) :
    value = other := by
  have hread := (h.read_eq []).symm.trans (hother.read_eq [])
  exact (Prod.mk.inj (Option.some.inj hread)).1

end Spells

theorem exists_of_read {s value rest : List Char} (h : read s = some (value, rest)) :
    ∃ body, s = body ++ '\'' :: rest ∧ Spells body value := by
  fun_induction read s generalizing value rest with
  | case1 => cases h
  | case2 r =>
    obtain ⟨rfl, rfl⟩ := Prod.mk.inj (Option.some.inj h)
    exact ⟨[], rfl, .nil⟩
  | case3 w x y z r ih =>
    obtain ⟨u, hunit, hu⟩ := Option.bind_eq_some_iff.1 h
    obtain ⟨v, hr, rfl⟩ := exists_of_precede hu
    obtain ⟨body, rfl, hbody⟩ := ih hr
    exact ⟨_, rfl, .unit hunit hbody⟩
  | case4 e r _ ih =>
    obtain ⟨u, hescape, hu⟩ := Option.bind_eq_some_iff.1 h
    obtain ⟨v, hr, rfl⟩ := exists_of_precede hu
    obtain ⟨body, rfl, hbody⟩ := ih hr
    exact ⟨_, rfl, .escape hescape hbody⟩
  | case5 => cases h
  | case6 c r hquote _ _ hc ih =>
    obtain ⟨v, hr, rfl⟩ := exists_of_precede h
    obtain ⟨body, rfl, hbody⟩ := ih hr
    simp only [Bool.or_eq_true, beq_iff_eq, not_or, Bool.not_eq_true] at hc
    exact ⟨_, rfl, .plain hquote hc.1 hc.2 hbody⟩

/-- The text that a body spells; `none` if it is no body. -/
def text? (body : List Char) : Option (List Char) :=
  (read (body ++ ['\''])).bind (fun found => if found.2 = [] then some found.1 else none)

theorem text?_eq_some_iff {body value : List Char} :
    text? body = some value ↔ Spells body value := by
  constructor
  · intro h
    obtain ⟨⟨spelled, rest⟩, hread, hrest⟩ := Option.bind_eq_some_iff.1 h
    obtain ⟨own, hsame, hspells⟩ := exists_of_read hread
    split at hrest
    · rename_i hempty
      obtain rfl : rest = [] := hempty
      obtain rfl : spelled = value := Option.some.inj hrest
      obtain ⟨rfl, -⟩ := List.append_inj' hsame rfl
      exact hspells
    · cases hrest
  · intro hspells
    rw [text?, hspells.read_eq []]
    rfl

/-! ### Round trip -/

/-- A character as the writer puts it spells that character. -/
theorem spells_literalChar (c : Char) : Spells (Text.literalChar c) [c] := by
  unfold Text.literalChar
  split
  case h_1 | h_2 | h_3 | h_4 => exact .escape rfl .nil
  case h_5 | h_6 => exact .unit rfl .nil
  case h_7 hslash hquote hn hr hls hps =>
    refine .plain hquote hslash ?_ .nil
    simp only [isLineEnd, Bool.or_eq_false_iff, beq_eq_false_iff_ne]
    exact ⟨⟨⟨hn, hr⟩, hls⟩, hps⟩

/-- A text as the writer puts it between quotes spells that text. -/
theorem spells_literal (s : List Char) : Spells (s.flatMap Text.literalChar) s := by
  induction s with
  | nil => exact .nil
  | cons c s ih => exact (spells_literalChar c).append ih

theorem read_literal (s rest : List Char) :
    read (s.flatMap Text.literalChar ++ '\'' :: rest) = some (s, rest) :=
  (spells_literal s).read_eq rest

end TypedClient.Literal
