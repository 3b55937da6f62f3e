import Mathlib.Tactic.ByContra
import TypedClient.Proofs.Characters

/-! # Names that stay as they are

    A type name that is made a type name once more stays the same, and a function
    name leads back to the type name that it was made of.

    * **Settled** texts are those that a pass leaves alone: letters and digits, with
      no small letter where a word opens and no capital inside of one.
    * **Two passes**: the first one glues a word of one letter to the capital behind
      it, but it never starts with a small letter. From such a text the second pass
      leaves a settled one.
    * **First letters**: behind the first letter of a settled text there is no
      capital, so that no word opens there when that letter is made small.
-/

namespace TypedClient.Name

/-! ### Words -/

/-- Whether a word opens with a letter or digit. -/
def Boundary.opens (state : Boundary) (c : Char) : Bool :=
  state == .between || (state == .afterSmall && c.isUpper)

/-- What a pass writes for a letter or digit. -/
def Boundary.written (state : Boundary) (c : Char) : Char :=
  if state.opens c then c.toUpper else c.toLower

theorem capitalizeWords_cons {c : Char} (h : c.isAlphanum = true) (state : Boundary)
    (r : List Char) :
    capitalizeWords state (c :: r) = state.written c :: capitalizeWords (.after c) r := by
  rw [capitalizeWords, if_pos h]
  rfl

theorem capitalizeWords_skip {c : Char} (h : c.isAlphanum = false) (state : Boundary)
    (r : List Char) : capitalizeWords state (c :: r) = capitalizeWords .between r := by
  rw [capitalizeWords, if_neg (by simp [h])]

/-- A letter or digit behind which a capital would open a word is none itself. -/
theorem Boundary.after_eq_afterSmall_iff {c : Char} :
    Boundary.after c = .afterSmall ↔ c.isUpper = false := by
  cases hc : c.isUpper <;> simp [Boundary.after, hc]

theorem Boundary.after_ne_between (c : Char) : Boundary.after c ≠ .between := by
  cases hc : c.isUpper <;> simp [Boundary.after, hc]

/-! ### Settled texts -/

/-- **Settled** behind a state: letters and digits only, no small letter where a word
    opens, and no capital inside of a word. -/
def IsSettled : Boundary → List Char → Prop
  | _, [] => True
  | state, c :: r =>
    c.isAlphanum = true
      ∧ (if state.opens c then c.isLower = false else c.isUpper = false)
      ∧ IsSettled (.after c) r

/-- A pass leaves a settled text alone. -/
theorem capitalizeWords_of_isSettled {state : Boundary} {s : List Char} (h : IsSettled state s) :
    capitalizeWords state s = s := by
  induction s generalizing state with
  | nil => rfl
  | cons c r ih =>
    obtain ⟨halnum, hcase, hrest⟩ := h
    have hwritten : state.written c = c := by
      unfold Boundary.written
      split
      · rename_i hopens
        rw [if_pos hopens] at hcase
        exact toUpper_of_isLower_eq_false hcase
      · rename_i hinside
        rw [if_neg hinside] at hcase
        exact toLower_of_isUpper_eq_false hcase
    rw [capitalizeWords_cons halnum, hwritten, ih hrest]

/-! ### The second pass -/

/-- **The relation** between where a pass stands in its text and where in what it has
    written, from the first word on: where a capital would open a word of what is
    written, it does of the text, too. -/
inductive Boundary.Keeps : Boundary → Boundary → Prop where
  /-- Behind a capital no word opens, whatever was written for it. -/
  | afterCapital {written : Boundary} (h : written ≠ .between) : Keeps .afterCapital written
  | afterSmall : Keeps .afterSmall .afterSmall

theorem Boundary.Keeps.refl {state : Boundary} (h : state ≠ .between) : Keeps state state := by
  cases state with
  | between => exact absurd rfl h
  | afterSmall => exact .afterSmall
  | afterCapital => exact .afterCapital h

/-- **The step**: what is written is settled, and the relation is kept. -/
theorem Boundary.Keeps.step {state written : Boundary} (h : Keeps state written) (c : Char) :
    (if written.opens (state.written c) then (state.written c).isLower = false
        else (state.written c).isUpper = false)
      ∧ Keeps (.after c) (.after (state.written c)) := by
  cases h with
  | afterCapital hwritten =>
    have hsmall : (c.toLower).isUpper = false := isUpper_toLower c
    have hvalue : Boundary.afterCapital.written c = c.toLower := rfl
    rw [hvalue]
    constructor
    · simp [Boundary.opens, hwritten, hsmall]
    · rw [Boundary.after_eq_afterSmall_iff.2 hsmall]
      cases hc : Boundary.after c with
      | between => exact absurd hc (Boundary.after_ne_between c)
      | afterSmall => exact .afterSmall
      | afterCapital => exact .afterCapital (by decide)
  | afterSmall =>
    cases hc : c.isUpper with
    | true =>
      have hlower : c.isLower = false := isLower_of_isUpper hc
      have hvalue : Boundary.afterSmall.written c = c := by
        rw [Boundary.written, if_pos (by simp [Boundary.opens, hc])]
        exact toUpper_of_isLower_eq_false hlower
      have hafter : Boundary.after c = .afterCapital := by simp [Boundary.after, hc]
      rw [hvalue, hafter]
      exact ⟨by simp [Boundary.opens, hc, hlower], .afterCapital (by decide)⟩
    | false =>
      have hvalue : Boundary.afterSmall.written c = c := by
        rw [Boundary.written, if_neg (by simp [Boundary.opens, hc])]
        exact toLower_of_isUpper_eq_false hc
      have hafter : Boundary.after c = .afterSmall := Boundary.after_eq_afterSmall_iff.2 hc
      rw [hvalue, hafter]
      exact ⟨by simp [Boundary.opens, hc], .afterSmall⟩

theorem isAlphanum_written {state : Boundary} {c : Char} (h : c.isAlphanum = true) :
    (state.written c).isAlphanum = true := by
  have hmem : state.written c ∈ capitalizeWords state [c] := by
    rw [capitalizeWords_cons h]
    exact List.mem_cons_self
  exact isAlphanum_of_mem_capitalizeWords hmem

/-- **The run**: what a pass writes for letters and digits, from inside of a word on,
    is settled. -/
theorem Boundary.Keeps.isSettled {state written : Boundary} (h : Keeps state written)
    {s : List Char} (hs : ∀ c ∈ s, c.isAlphanum = true) :
    IsSettled written (capitalizeWords state s) := by
  induction s generalizing state written with
  | nil => exact trivial
  | cons c r ih =>
    obtain ⟨halnum, hrest⟩ := List.forall_mem_cons.1 hs
    obtain ⟨hcase, hkeeps⟩ := h.step c
    rw [capitalizeWords_cons halnum]
    exact ⟨isAlphanum_written halnum, hcase, ih hkeeps hrest⟩

/-- A pass over letters and digits that do not start with a small letter leaves a
    settled text. -/
theorem isSettled_pascalPass {s : List Char} (hs : ∀ c ∈ s, c.isAlphanum = true)
    (hhead : ∀ c ∈ s.head?, c.isLower = false) : IsSettled .between (pascalPass s) := by
  cases s with
  | nil => exact trivial
  | cons c r =>
    obtain ⟨halnum, hrest⟩ := List.forall_mem_cons.1 hs
    have hlower : c.isLower = false := hhead c rfl
    have hvalue : Boundary.between.written c = c :=
      toUpper_of_isLower_eq_false hlower
    have hkeeps : Boundary.Keeps (.after c) (.after c) := .refl (Boundary.after_ne_between c)
    rw [pascalPass, capitalizeWords_cons halnum, hvalue]
    exact ⟨halnum, by simp [Boundary.opens, hlower], hkeeps.isSettled hrest⟩

/-- **Two passes** leave a settled text. -/
theorem isSettled_pascalPass_pascalPass (s : List Char) :
    IsSettled .between (pascalPass (pascalPass s)) := by
  refine isSettled_pascalPass (fun c hc => isAlphanum_of_mem_capitalizeWords hc) ?_
  intro c hc
  obtain ⟨r, hpass⟩ := List.head?_eq_some_iff.1 hc
  rcases head_pascalPass hpass with hupper | hdigit
  · exact isLower_of_isUpper hupper
  · have halpha : (c.isUpper || c.isLower) = false := isAlpha_of_isDigit hdigit
    exact (Bool.or_eq_false_iff.1 halpha).2

/-- A third pass changes nothing. -/
theorem pascalPass_of_two (s : List Char) :
    pascalPass (pascalPass (pascalPass s)) = pascalPass (pascalPass s) :=
  capitalizeWords_of_isSettled (isSettled_pascalPass_pascalPass s)

/-! ### Type names and function names -/

/-- **The shape** of a type name: what two passes leave, behind an underscore if that
    starts with a digit, or the name for nothing. -/
inductive TypeShape : List Char → List Char → Prop where
  | unnamed : TypeShape [] "Unnamed".toList
  | capital {c : Char} (r : List Char) (h : c.isUpper = true) : TypeShape (c :: r) (c :: r)
  | digit {c : Char} (r : List Char) (h : c.isDigit = true) : TypeShape (c :: r) ('_' :: c :: r)

theorem typeShape (s : List Char) : TypeShape (pascalPass (pascalPass s)) (typeChars s) := by
  unfold typeChars
  split
  · rename_i hpass
    rw [hpass]
    exact .unnamed
  · rename_i c r hpass
    rw [hpass]
    split
    · rename_i hdigit
      exact .digit r hdigit
    · rename_i hdigit
      rcases head_pascalPass hpass with hupper | h
      · exact .capital r hupper
      · exact absurd h hdigit

/-- The type name depends on what two passes leave alone, and a text that one pass
    makes that leaves the same. -/
theorem typeChars_of_pascalPass {s t : List Char}
    (h : pascalPass t = pascalPass (pascalPass s)) : typeChars t = typeChars s := by
  rw [typeChars, typeChars, h, pascalPass_of_two]

/-- Behind a capital, what is settled is so behind a small letter, too. -/
theorem IsSettled.afterSmall {s : List Char} (h : IsSettled .afterCapital s) :
    IsSettled .afterSmall s := by
  cases s with
  | nil => exact trivial
  | cons c r =>
    obtain ⟨halnum, hcase, hrest⟩ := h
    have hupper : c.isUpper = false := by simpa [Boundary.opens] using hcase
    exact ⟨halnum, by simp [Boundary.opens, hupper], hrest⟩

/-- **The type name of a type name** is that name. -/
theorem typeChars_typeChars (s : List Char) : typeChars (typeChars s) = typeChars s := by
  have hshape := typeShape s
  have hpass := pascalPass_of_two s
  generalize hv : pascalPass (pascalPass s) = v at hshape hpass
  generalize hname : typeChars s = name at hshape
  rw [← hname]
  cases hshape with
  | unnamed => rw [hname]; rfl
  | capital r hupper =>
    refine typeChars_of_pascalPass ?_
    rw [hname, hv, hpass]
  | @digit c r hdigit =>
    have hskip : pascalPass ('_' :: c :: r) = pascalPass (c :: r) :=
      capitalizeWords_skip (by decide) _ _
    refine typeChars_of_pascalPass ?_
    rw [hname, hv, hskip, hpass]

/-- **The type name of a function name** is the one that it was made of. -/
theorem typeChars_decapitalize (s : List Char) :
    typeChars (decapitalize (typeChars s)) = typeChars s := by
  have hshape := typeShape s
  have hsettled := isSettled_pascalPass_pascalPass s
  generalize hv : pascalPass (pascalPass s) = v at hshape hsettled
  generalize hname : typeChars s = name at hshape
  rw [← hname]
  cases hshape with
  | unnamed => rw [hname]; rfl
  | @capital c r hupper =>
    -- No capital follows, so the letter made small opens no word behind it.
    have hrest : capitalizeWords .afterSmall r = r := by
      have hafter : Boundary.after c = .afterCapital := by simp [Boundary.after, hupper]
      have hsecond : IsSettled (.after c) r := hsettled.2.2
      rw [hafter] at hsecond
      exact capitalizeWords_of_isSettled hsecond.afterSmall
    have hafter : Boundary.after c.toLower = .afterSmall :=
      Boundary.after_eq_afterSmall_iff.2 (isUpper_toLower c)
    have hfirst : Boundary.between.written c.toLower = c :=
      (toUpper_toLower c).trans (toUpper_of_isUpper hupper)
    refine typeChars_of_pascalPass ?_
    rw [hname, hv, decapitalize, pascalPass,
      capitalizeWords_cons (isAlphanum_toLower (isAlphanum_of_isUpper hupper)), hfirst, hafter,
      hrest]
  | digit r hdigit =>
    -- An underscore is as small as it gets.
    have hsame : decapitalize (typeChars s) = typeChars s := by rw [hname]; rfl
    rw [hsame, typeChars_typeChars]

/-! ### Names -/

/-- **Identifiers**: bare names, not empty, that do not start with a digit. -/
structure IsIdentifier (name : String) : Prop where
  plain : isPlain name = true
  ne_empty : name ≠ ""
  noDigit : ∀ c ∈ name.toList.head?, c.isDigit = false

/-- A letter or an underscore in front of letters and digits make an identifier. -/
theorem isIdentifier_ofList {c : Char} {r : List Char} (hc : c.isAlpha = true ∨ c = '_')
    (hr : ∀ d ∈ r, d.isAlphanum = true) : IsIdentifier (String.ofList (c :: r)) where
  plain := by
    rw [isPlain, String.toList_ofList, isPlainChars_cons]
    refine ⟨?_, fun d hd => isFollowing_of_isAlphanum (hr d hd)⟩
    rcases hc with halpha | rfl
    · simp [isInitial, halpha]
    · decide
  ne_empty := by simp
  noDigit := by
    intro d hd
    rw [String.toList_ofList] at hd
    obtain rfl : c = d := by simpa using hd
    rcases hc with halpha | rfl
    · by_contra hdigit
      rw [Bool.not_eq_false] at hdigit
      rw [isAlpha_of_isDigit hdigit] at halpha
      cases halpha
    · decide

theorem isIdentifier_typeName (s : String) : IsIdentifier (typeName s) := by
  obtain ⟨c, r, hchars, hc, hr⟩ := exists_typeChars_eq s.toList
  rw [typeName, hchars]
  exact isIdentifier_ofList (hc.imp_left isAlpha_of_isUpper) hr

theorem isIdentifier_functionName (s : String) : IsIdentifier (functionName s) := by
  obtain ⟨c, r, hchars, hc, hr⟩ := exists_typeChars_eq s.toList
  rw [functionName, hchars, decapitalize]
  refine isIdentifier_ofList ?_ hr
  rcases hc with hupper | rfl
  · left
    rw [isAlpha_toLower]
    exact isAlpha_of_isUpper hupper
  · right
    decide

/-- **Names settle**: a type name is its own type name, a function name has the type
    name that it was made of and is its own function name, and both are
    identifiers, whatever text they are made from. -/
theorem names_settle (s : String) :
    typeName (typeName s) = typeName s
      ∧ typeName (functionName s) = typeName s
      ∧ functionName (functionName s) = functionName s
      ∧ IsIdentifier (typeName s)
      ∧ IsIdentifier (functionName s) := by
  have htype : typeName (typeName s) = typeName s := by
    rw [typeName, typeName, String.toList_ofList, typeChars_typeChars]
  have hback : typeName (functionName s) = typeName s := by
    rw [typeName, functionName, String.toList_ofList, typeChars_decapitalize, typeName]
  have hfunction : functionName (functionName s) = functionName s := by
    rw [functionName, functionName, String.toList_ofList, typeChars_decapitalize]
  exact ⟨htype, hback, hfunction, isIdentifier_typeName s, isIdentifier_functionName s⟩

-- Words of one letter, a leading digit, and nothing to make a name of.
example : ["a_b", "x_1_y", "3dModel", "!!!"].map typeName = ["Ab", "X1Y", "_3dModel", "Unnamed"] := by
  decide +kernel

end TypedClient.Name
