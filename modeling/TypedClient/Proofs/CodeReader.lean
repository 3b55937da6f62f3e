import TypedClient.Name.Identifier
import TypedClient.Proofs.Characters
import TypedClient.Proofs.CodeLexemes
import TypedClient.Proofs.LiteralReading

/-! # Reading code

    What the language makes of the text of an expression, lexeme by lexeme.

    * **Lexemes**: words and operators go as far as they can; blanks between lexemes mean
      nothing.
    * **Levels**: single operands bind tightest, then methods, sums and lengths,
      comparisons, conjunctions and conditionals. An operator is read at its level, and
      once: two of one level in a row are not read on.
    * **Only the forms** that the generated code is made of are read. Any other text has
      no reading, so that none is read otherwise than the language does.
-/

namespace TypedClient.CodeReader

/-! ### Lexemes of a text -/

/-- The characters that are lexemes by themselves. -/
def isMark (c : Char) : Bool :=
  "()[]\x7b\x7d.,;".toList.contains c

/-- The characters of operators. -/
def isOperator (c : Char) : Bool :=
  "?:&|!=<>+-*/%^~".toList.contains c

/-- The first lexeme of a text that starts with no blank, and what stands behind it. -/
def next : List Char → Option (Lexeme × List Char)
  | [] => none
  | c :: r =>
    if c = '\'' then
      (Literal.read r).map (fun found =>
        (.literal (r.take (r.length - (found.2.length + 1))), found.2))
    else if Name.isFollowing c then
      some (.word (c :: r.takeWhile Name.isFollowing), r.dropWhile Name.isFollowing)
    else if isMark c then some (.mark c, r)
    else if isOperator c then
      some (.operator (c :: r.takeWhile isOperator), r.dropWhile isOperator)
    else none

/-- Behind a lexeme there is less text than in front of it. -/
theorem length_next_lt {s rest : List Char} {lexeme : Lexeme}
    (h : next s = some (lexeme, rest)) : rest.length < s.length := by
  cases s with
  | nil => cases h
  | cons c r =>
    have hdrop : ∀ p : Char → Bool, (r.dropWhile p).length < (c :: r).length := fun p =>
      Nat.lt_succ_of_le (List.dropWhile_sublist p).length_le
    rw [next] at h
    split at h
    · obtain ⟨⟨value, t⟩, hread, heq⟩ := Option.map_eq_some_iff.1 h
      obtain ⟨-, rfl⟩ := Prod.mk.inj heq
      exact Nat.lt_succ_of_lt (Literal.length_read_lt hread)
    · split at h
      · obtain ⟨-, rfl⟩ := Prod.mk.inj (Option.some.inj h)
        exact hdrop _
      · split at h
        · obtain ⟨-, rfl⟩ := Prod.mk.inj (Option.some.inj h)
          exact Nat.lt_succ_self _
        · split at h
          · obtain ⟨-, rfl⟩ := Prod.mk.inj (Option.some.inj h)
            exact hdrop _
          · cases h

/-- The lexemes of a text on one line, without the blanks. -/
def lexemes (text : List Char) : Option (List Lexeme) :=
  match text with
  | [] => some []
  | c :: r =>
    if c = ' ' then lexemes r
    else
      match _h : next (c :: r) with
      | none => none
      | some (lexeme, rest) => (lexemes rest).map (lexeme :: ·)
termination_by text.length
decreasing_by
  · simp
  · exact length_next_lt (by assumption)

/-! ### Reading lexemes -/

/-- Whether a lexeme can be read. -/
def isLegible : Lexeme → Bool
  | .word text => !text.isEmpty && text.all Name.isFollowing
  | .literal body => (Literal.text? body).isSome
  | .mark c => isMark c
  | .operator symbol => !symbol.isEmpty && symbol.all isOperator
  | .blank => true

/-- Whether a text starts with nothing that could go on with a word or an operator. -/
def Ends (rest : List Char) : Prop :=
  ∀ c ∈ rest.head?, Name.isFollowing c = false ∧ isOperator c = false

/-- A mark is nothing else. -/
theorem of_isMark {c : Char} (h : isMark c = true) :
    c ≠ '\'' ∧ Name.isFollowing c = false ∧ isOperator c = false := by
  have hall : ∀ d ∈ "()[]\x7b\x7d.,;".toList,
      d ≠ '\'' ∧ Name.isFollowing d = false ∧ isOperator d = false := by decide +kernel
  exact hall c (List.contains_iff_mem.1 h)

/-- A character of an operator is nothing else. -/
theorem of_isOperator {c : Char} (h : isOperator c = true) :
    c ≠ '\'' ∧ Name.isFollowing c = false ∧ isMark c = false := by
  have hall : ∀ d ∈ "?:&|!=<>+-*/%^~".toList,
      d ≠ '\'' ∧ Name.isFollowing d = false ∧ isMark d = false := by decide +kernel
  exact hall c (List.contains_iff_mem.1 h)

/-- Nothing goes on into a loose lexeme. -/
theorem ends_chars_append {lexeme : Lexeme} (hlegible : isLegible lexeme = true)
    (hloose : lexeme.isLoose = true) (rest : List Char) : Ends (lexeme.chars ++ rest) := by
  cases lexeme with
  | word _ => cases hloose
  | operator _ => cases hloose
  | literal body =>
    intro c hc
    obtain rfl := Option.some.inj hc
    decide
  | mark c =>
    intro d hd
    obtain rfl := Option.some.inj hd
    exact (of_isMark hlegible).2
  | blank =>
    intro c hc
    obtain rfl := Option.some.inj hc
    decide

/-- **One lexeme**: a lexeme is read from its text, if it is told apart from what
    stands behind. -/
theorem next_chars_append {lexeme : Lexeme} {rest : List Char}
    (hlegible : isLegible lexeme = true) (hblank : lexeme ≠ .blank)
    (hrest : lexeme.isLoose = true ∨ Ends rest) :
    next (lexeme.chars ++ rest) = some (lexeme, rest) := by
  cases lexeme with
  | blank => exact absurd rfl hblank
  | literal body =>
    obtain ⟨value, hvalue⟩ := Option.isSome_iff_exists.1 hlegible
    have hread := (Literal.text?_eq_some_iff.1 hvalue).read_eq rest
    have htext : (Lexeme.literal body).chars ++ rest = '\'' :: (body ++ '\'' :: rest) := by simp
    rw [htext, next, if_pos rfl, hread]
    simp
  | mark c =>
    have hmark : isMark c = true := hlegible
    obtain ⟨hquote, hfollowing, -⟩ := of_isMark hmark
    show next (c :: rest) = _
    rw [next, if_neg hquote, hfollowing, if_neg Bool.false_ne_true, if_pos hmark]
  | word text =>
    have hends : Ends rest := hrest.resolve_left Bool.false_ne_true
    cases text with
    | nil => cases hlegible
    | cons c r =>
      -- The word ends where its text ends, as nothing behind goes on with it.
      have hall : (c :: r).all Name.isFollowing = true := hlegible
      rw [List.all_eq_true, List.forall_mem_cons] at hall
      obtain ⟨-, hquote, -⟩ := isBlank_of_isFollowing hall.1
      obtain ⟨htake, hdrop⟩ := span_append hall.2 (fun d hd => (hends d hd).1)
      show next (c :: (r ++ rest)) = _
      rw [next, if_neg hquote, if_pos hall.1, htake, hdrop]
  | operator symbol =>
    have hends : Ends rest := hrest.resolve_left Bool.false_ne_true
    cases symbol with
    | nil => cases hlegible
    | cons c r =>
      have hall : (c :: r).all isOperator = true := hlegible
      rw [List.all_eq_true, List.forall_mem_cons] at hall
      obtain ⟨hquote, hfollowing, hmark⟩ := of_isOperator hall.1
      obtain ⟨htake, hdrop⟩ := span_append hall.2 (fun d hd => (hends d hd).2)
      show next (c :: (r ++ rest)) = _
      rw [next, if_neg hquote, hfollowing, if_neg Bool.false_ne_true, hmark,
        if_neg Bool.false_ne_true, if_pos hall.1, htake, hdrop]

theorem lexemes_blank (s : List Char) : lexemes (' ' :: s) = lexemes s :=
  (lexemes.eq_def _).trans (if_pos rfl)

/-- A blank starts no lexeme. -/
theorem next_blank (s : List Char) : next (' ' :: s) = none := by
  rfl

theorem lexemes_of_next {s rest : List Char} {lexeme : Lexeme}
    (h : next s = some (lexeme, rest)) : lexemes s = (lexemes rest).map (lexeme :: ·) := by
  cases s with
  | nil => cases h
  | cons c r =>
    have hblank : c ≠ ' ' := by
      rintro rfl
      rw [next_blank] at h
      cases h
    refine (lexemes.eq_def _).trans ((if_neg hblank).trans ?_)
    split
    · rename_i hnone
      rw [h] at hnone
      cases hnone
    · rename_i found t hsome
      rw [h] at hsome
      obtain ⟨rfl, rfl⟩ := Prod.mk.inj (Option.some.inj hsome)
      rfl

/-- **All lexemes**: lexemes that are told apart are read from their text, without the
    blanks. -/
theorem lexemes_flatMap_chars {all : List Lexeme} (hlegible : all.all isLegible = true)
    (hchain : List.IsChain Lexeme.Apart all) :
    lexemes (all.flatMap Lexeme.chars) = some (all.filter (· ≠ .blank)) := by
  induction all with
  | nil => exact lexemes.eq_def []
  | cons lexeme more ih =>
    rw [List.all_cons, Bool.and_eq_true] at hlegible
    rw [List.isChain_cons] at hchain
    have hmore := ih hlegible.2 hchain.2
    rw [List.flatMap_cons]
    by_cases hblank : lexeme = .blank
    · subst hblank
      exact (lexemes_blank _).trans hmore
    · have hrest : lexeme.isLoose = true ∨ Ends (more.flatMap Lexeme.chars) := by
        cases more with
        | nil => exact .inr (fun c hc => by cases hc)
        | cons second others =>
          rw [List.all_cons, Bool.and_eq_true] at hlegible
          rw [List.flatMap_cons]
          exact (hchain.1 second rfl).imp_right
            (fun hloose => ends_chars_append hlegible.2.1 hloose _)
      rw [lexemes_of_next (next_chars_append hlegible.1 hblank hrest), hmore,
        List.filter_cons_of_pos (by simpa using hblank)]
      rfl

/-! ### Expressions -/

/-- Takes given lexemes off the front. -/
def accept : List Lexeme → List Lexeme → Option (List Lexeme)
  | [], lexemes => some lexemes
  | _ :: _, [] => none
  | wanted :: more, lexeme :: lexemes => if lexeme = wanted then accept more lexemes else none

/-- Whether a word names a value. -/
def isName (text : List Char) : Bool :=
  Name.isPlainChars text && !Name.isReserved text

theorem isLegible_word {text : List Char} (h : isName text = true) :
    isLegible (.word text) = true := by
  have hplain := (Bool.and_eq_true_iff.1 h).1
  cases text with
  | nil => cases hplain
  | cons c r =>
    rw [isLegible, List.all_eq_true.2 (isFollowing_of_isPlainChars hplain)]
    rfl

/-- Takes a name off the front. -/
def name? : List Lexeme → Option (List Char × List Lexeme)
  | .word text :: lexemes => if isName text then some (text, lexemes) else none
  | _ => none

section

-- What reads the expressions between brackets and behind marks.
variable (inner : List Lexeme → Option (Expression × List Lexeme))

/-- The items of a list, at most as many as given, up to the closing bracket. -/
def items : Nat → List Lexeme → Option (List Expression × List Lexeme)
  | 0, _ => none
  | n + 1, lexemes => do
    let (item, lexemes) ← inner lexemes
    match accept [.mark ','] lexemes with
    | some lexemes =>
      let (rest, lexemes) ← items n lexemes
      return (item :: rest, lexemes)
    | none =>
      let lexemes ← accept [.mark ']'] lexemes
      return ([item], lexemes)

/-- A list, from behind its opening bracket. -/
def listOperand (n : Nat) (lexemes : List Lexeme) : Option (Expression × List Lexeme) :=
  match accept [.mark ']'] lexemes with
  | some lexemes => some (.list [], lexemes)
  | none => (items inner n lexemes).map (fun found => (.list found.1, found.2))

/-- What starts with a word. -/
def wordOperand (text : List Char) (lexemes : List Lexeme) : Option (Expression × List Lexeme) :=
  if text = "null".toList then some (.null, lexemes)
  else if isName text then
    match accept [.mark '('] lexemes with
    | some lexemes => do
      let (argument, lexemes) ← inner lexemes
      let lexemes ← accept [.mark ')'] lexemes
      return (.call text argument, lexemes)
    | none => some (.name text, lexemes)
  else none

/-- A function that is called where it stands, from behind its first bracket: it
    declares a name and returns a value. -/
def functionOperand (lexemes : List Lexeme) : Option (Expression × List Lexeme) := do
  let lexemes ← accept
    [.mark '(', .mark ')', .operator "=>".toList, .mark '\x7b', .word "const".toList] lexemes
  let (bound, lexemes) ← name? lexemes
  let lexemes ← accept [.operator "=".toList] lexemes
  let (value, lexemes) ← inner lexemes
  let lexemes ← accept [.mark ';', .word "return".toList] lexemes
  let (body, lexemes) ← inner lexemes
  let lexemes ← accept [.mark ';', .mark '\x7d', .mark ')', .mark '(', .mark ')'] lexemes
  return (.binding bound value body, lexemes)

/-- A single operand. -/
def operand (n : Nat) : List Lexeme → Option (Expression × List Lexeme)
  | .literal body :: lexemes => some (.literal body, lexemes)
  | .word text :: lexemes => wordOperand inner text lexemes
  | .mark '[' :: lexemes => listOperand inner n lexemes
  | .mark '(' :: lexemes => functionOperand inner lexemes
  | _ => none

/-- The function that a list is mapped with, from behind the name of the method. -/
def mapping (on : Expression) (lexemes : List Lexeme) : Option (Expression × List Lexeme) := do
  let lexemes ← accept [.mark '(', .mark '('] lexemes
  let (bound, lexemes) ← name? lexemes
  let lexemes ← accept [.mark ')', .operator "=>".toList] lexemes
  let (body, lexemes) ← inner lexemes
  let lexemes ← accept [.mark ')'] lexemes
  return (.mapItems on bound body, lexemes)

/-- The literal that the items of a list are joined with, from behind the name of the
    method. -/
def joining (on : Expression) : List Lexeme → Option (Expression × List Lexeme)
  | .mark '(' :: .literal separator :: .mark ')' :: lexemes =>
    some (.joinItems on separator, lexemes)
  | _ => none

/-- A method called on a list, from behind the dot. -/
def method (on : Expression) : List Lexeme → Option (Expression × List Lexeme)
  | .word text :: lexemes =>
    if text = "map".toList then mapping inner on lexemes
    else if text = "filter".toList then
      (accept [.mark '(', .word "Boolean".toList, .mark ')'] lexemes).map
        (fun lexemes => (.onlyTrue on, lexemes))
    else if text = "join".toList then joining on lexemes
    else none
  | _ => none

/-- Methods, each called on what the one before gives, at most as many as given. What
    is no method is left. -/
def methods : Nat → Expression → List Lexeme → Expression × List Lexeme
  | 0, on, lexemes => (on, lexemes)
  | n + 1, on, lexemes =>
    match (accept [.mark '.'] lexemes).bind (method inner on) with
    | some (result, lexemes) => methods n result lexemes
    | none => (on, lexemes)

/-- An operator with a right operand, if it comes next. -/
def infixed (symbol : String) (lower : List Lexeme → Option (Expression × List Lexeme))
    (make : Expression → Expression) (left : Expression) (lexemes : List Lexeme) :
    Option (Expression × List Lexeme) :=
  match accept [.operator symbol.toList] lexemes with
  | some lexemes => (lower lexemes).map (fun found => (make found.1, found.2))
  | none => some (left, lexemes)

/-- What comes behind a left operand at a level above zero, if anything. -/
def behind (n : Nat) (lower : List Lexeme → Option (Expression × List Lexeme)) (left : Expression) :
    Nat → List Lexeme → Option (Expression × List Lexeme)
  | 1, lexemes => some (methods inner n left lexemes)
  | 2, lexemes =>
    match accept [.mark '.', .word "length".toList, .operator ">".toList, .word "0".toList]
      lexemes with
    | some lexemes => some (.hasItems left, lexemes)
    | none => infixed "+" lower (.append left) left lexemes
  | 3, lexemes =>
    match accept [.operator "!=".toList, .word "null".toList] lexemes with
    | some lexemes => some (.isGiven left, lexemes)
    | none => infixed "!==" lower (.differs left) left lexemes
  | 4, lexemes => infixed "&&" lower (.both left) left lexemes
  | 5, lexemes =>
    match accept [.operator "?".toList] lexemes with
    | some lexemes => do
      let (whenTrue, lexemes) ← inner lexemes
      let lexemes ← accept [.operator ":".toList] lexemes
      let (whenFalse, lexemes) ← inner lexemes
      return (.conditional left whenTrue whenFalse, lexemes)
    | none => some (left, lexemes)
  | _, lexemes => some (left, lexemes)

/-- An expression without operators of higher levels outside of brackets. -/
def readAt (n : Nat) : Nat → List Lexeme → Option (Expression × List Lexeme)
  | 0, lexemes => operand inner n lexemes
  | level + 1, lexemes => do
    let (left, lexemes) ← readAt n level lexemes
    behind inner n (readAt n level) left (level + 1) lexemes

end

/-- An expression, whose brackets are not nested deeper than given. -/
def read : Nat → List Lexeme → Option (Expression × List Lexeme)
  | 0, _ => none
  | n + 1, lexemes => readAt (read n) n 5 lexemes

/-- The expression of an interpolation, from its dollar sign to its closing brace. -/
def readInterpolation : List Char → Option Expression
  | '$' :: '\x7b' :: code => do
    let found ← lexemes code
    let (e, rest) ← read found.length found
    if rest = [.mark '\x7d'] then some e else none
  | _ => none

/-! ### Given lexemes -/

theorem accept_nil (rest : List Lexeme) : accept [] rest = some rest := by
  cases rest <;> rfl

theorem accept_cons (lexeme : Lexeme) (more rest : List Lexeme) :
    accept (lexeme :: more) (lexeme :: rest) = accept more rest :=
  if_pos rfl

/-- Lexemes that stand in front are taken off. -/
theorem accept_append (wanted rest : List Lexeme) : accept wanted (wanted ++ rest) = some rest := by
  induction wanted with
  | nil => exact accept_nil rest
  | cons lexeme more ih => exact (accept_cons lexeme more _).trans ih

theorem accept_of_ne {wanted lexeme : Lexeme} (h : lexeme ≠ wanted) (more rest : List Lexeme) :
    accept (wanted :: more) (lexeme :: rest) = none :=
  if_neg h

end TypedClient.CodeReader
