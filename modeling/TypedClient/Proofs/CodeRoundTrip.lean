import TypedClient.Proofs.CodeReader

/-! # Code that is read as it was meant

    An expression whose operands bind tight enough where they stand is read back from
    its text.

    * **Lexemes** that are told apart are read one by one, the blanks between them gone.
    * **Levels**: an operand of a lower level is read at every level above, up to what
      stands behind it.
    * **Chains** of methods are read from the left, method by method.
-/

namespace TypedClient

open CodeReader (isName isLegible isLegible_word)

/-! ### Legible expressions -/

namespace Expression

/-- The level that an expression is read at: the lower, the tighter it binds. -/
def level : Expression → Nat
  | .conditional _ _ _ => 5
  | .both _ _ => 4
  | .isGiven _ | .differs _ _ => 3
  | .hasItems _ | .append _ _ => 2
  | .mapItems _ _ _ | .onlyTrue _ | .joinItems _ _ => 1
  | _ => 0

mutual

/-- Expressions whose text is read back: names are names, literals spell something, and
    operands bind tighter than what they stand beside. -/
def Legible : Expression → Prop
  | .null => True
  | .literal body => (Literal.text? body).isSome = true
  | .name text => isName text = true
  | .call function argument => isName function = true ∧ argument.Legible
  | .conditional test whenTrue whenFalse =>
    (test.level < 5 ∧ test.Legible) ∧ whenTrue.Legible ∧ whenFalse.Legible
  | .both left right => (left.level < 4 ∧ left.Legible) ∧ right.level < 4 ∧ right.Legible
  | .isGiven operand => operand.level < 3 ∧ operand.Legible
  | .differs left right => (left.level < 3 ∧ left.Legible) ∧ right.level < 3 ∧ right.Legible
  | .hasItems operand => operand.level < 2 ∧ operand.Legible
  | .append left right => (left.level < 2 ∧ left.Legible) ∧ right.level < 2 ∧ right.Legible
  | .list items => EachLegible items
  | .mapItems operand bound body =>
    (operand.level < 2 ∧ operand.Legible) ∧ isName bound = true ∧ body.Legible
  | .onlyTrue operand => operand.level < 2 ∧ operand.Legible
  | .joinItems operand separator =>
    (operand.level < 2 ∧ operand.Legible) ∧ (Literal.text? separator).isSome = true
  | .binding bound value body => isName bound = true ∧ value.Legible ∧ body.Legible

/-- Whether the items of a list are legible. -/
def EachLegible : List Expression → Prop
  | [] => True
  | item :: rest => item.Legible ∧ EachLegible rest

end

mutual

/-- The lexemes of a legible expression can be read. -/
theorem all_isLegible_lexemes : (e : Expression) → e.Legible →
    e.lexemes.all isLegible = true
  | .null, _ => by decide +kernel
  | .literal body, h => by simpa [lexemes, isLegible, Legible] using h
  | .name text, h => by simpa [lexemes] using isLegible_word h
  | .call function argument, h => by
    simp only [lexemes, List.all_append, List.all_cons, isLegible_word h.1,
      all_isLegible_lexemes argument h.2]
    decide +kernel
  | .conditional test whenTrue whenFalse, h => by
    simp only [lexemes, spaced, List.all_append, List.all_cons, all_isLegible_lexemes test h.1.2,
      all_isLegible_lexemes whenTrue h.2.1, all_isLegible_lexemes whenFalse h.2.2]
    decide +kernel
  | .both left right, h => by
    simp only [lexemes, spaced, List.all_append, List.all_cons, all_isLegible_lexemes left h.1.2,
      all_isLegible_lexemes right h.2.2]
    decide +kernel
  | .isGiven operand, h => by
    simp only [lexemes, spaced, List.all_append, List.all_cons,
      all_isLegible_lexemes operand h.2]
    decide +kernel
  | .differs left right, h => by
    simp only [lexemes, spaced, List.all_append, List.all_cons, all_isLegible_lexemes left h.1.2,
      all_isLegible_lexemes right h.2.2]
    decide +kernel
  | .hasItems operand, h => by
    simp only [lexemes, spaced, List.all_append, List.all_cons,
      all_isLegible_lexemes operand h.2]
    decide +kernel
  | .append left right, h => by
    simp only [lexemes, spaced, List.all_append, List.all_cons, all_isLegible_lexemes left h.1.2,
      all_isLegible_lexemes right h.2.2]
    decide +kernel
  | .list items, h => by
    simp only [lexemes, List.all_append, List.all_cons, all_isLegible_listLexemes items h]
    decide +kernel
  | .mapItems operand bound body, h => by
    simp only [lexemes, spaced, List.all_append, List.all_cons, isLegible_word h.2.1,
      all_isLegible_lexemes operand h.1.2, all_isLegible_lexemes body h.2.2]
    decide +kernel
  | .onlyTrue operand, h => by
    simp only [lexemes, List.all_append, all_isLegible_lexemes operand h.2]
    decide +kernel
  | .joinItems operand separator, h => by
    have hseparator : isLegible (.literal separator) = true := h.2
    simp only [lexemes, List.all_append, List.all_cons, hseparator,
      all_isLegible_lexemes operand h.1.2]
    decide +kernel
  | .binding bound value body, h => by
    simp only [lexemes, spaced, List.all_append, List.all_cons, isLegible_word h.1,
      all_isLegible_lexemes value h.2.1, all_isLegible_lexemes body h.2.2]
    decide +kernel

theorem all_isLegible_listLexemes : (items : List Expression) → EachLegible items →
    (listLexemes items).all isLegible = true
  | [], _ => rfl
  | [item], h => all_isLegible_lexemes item h.1
  | item :: next :: rest, h => by
    simp only [listLexemes, List.all_append, List.all_cons, all_isLegible_lexemes item h.1,
      all_isLegible_listLexemes (next :: rest) h.2]
    decide +kernel

end

/-! ### Tokens -/

/-- The lexemes of an expression, without the blanks. -/
def tokens (e : Expression) : List Lexeme :=
  e.lexemes.filter (· ≠ .blank)

/-- The lexemes of the items of a list, without the blanks. -/
def listTokens (items : List Expression) : List Lexeme :=
  (listLexemes items).filter (· ≠ .blank)

section

open Lexeme (word mark operator)

variable (e test left right : Expression) (text : List Char)

theorem tokens_null : null.tokens = [word "null".toList] := by
  decide +kernel

theorem tokens_literal : (literal text).tokens = [.literal text] := by
  simp [tokens, lexemes]

theorem tokens_name : (name text).tokens = [word text] := by
  simp [tokens, lexemes]

theorem tokens_call : (call text e).tokens = word text :: mark '(' :: (e.tokens ++ [mark ')']) := by
  simp [tokens, lexemes]

theorem tokens_conditional : (conditional test left right).tokens
    = test.tokens ++ operator "?".toList
      :: (left.tokens ++ operator ":".toList :: right.tokens) := by
  simp [tokens, lexemes]

theorem tokens_both : (both left right).tokens
    = left.tokens ++ operator "&&".toList :: right.tokens := by
  simp [tokens, lexemes]

theorem tokens_isGiven : (isGiven e).tokens
    = e.tokens ++ [operator "!=".toList, word "null".toList] := by
  simp [tokens, lexemes]

theorem tokens_differs : (differs left right).tokens
    = left.tokens ++ operator "!==".toList :: right.tokens := by
  simp [tokens, lexemes]

theorem tokens_hasItems : (hasItems e).tokens
    = e.tokens ++ [mark '.', word "length".toList, operator ">".toList, word "0".toList] := by
  simp [tokens, lexemes]

theorem tokens_append : (append left right).tokens
    = left.tokens ++ operator "+".toList :: right.tokens := by
  simp [tokens, lexemes]

theorem tokens_list (items : List Expression) : (list items).tokens
    = mark '[' :: (listTokens items ++ [mark ']']) := by
  simp [tokens, lexemes, listTokens]

theorem listTokens_cons (item next : Expression) (rest : List Expression) :
    listTokens (item :: next :: rest)
      = item.tokens ++ mark ',' :: listTokens (next :: rest) := by
  simp [tokens, listTokens, listLexemes]

theorem tokens_mapItems : (mapItems left text right).tokens
    = left.tokens ++ mark '.' :: ([word "map".toList, mark '(', mark '(', word text, mark ')',
      operator "=>".toList] ++ right.tokens ++ [mark ')']) := by
  simp [tokens, lexemes]

theorem tokens_onlyTrue : (onlyTrue e).tokens
    = e.tokens
      ++ mark '.' :: [word "filter".toList, mark '(', word "Boolean".toList, mark ')'] := by
  simp [tokens, lexemes]

theorem tokens_joinItems : (joinItems e text).tokens
    = e.tokens ++ mark '.' :: [word "join".toList, mark '(', .literal text, mark ')'] := by
  simp [tokens, lexemes]

theorem tokens_binding : (binding text left right).tokens
    = [mark '(', mark '(', mark ')', operator "=>".toList, mark '\x7b', word "const".toList,
        word text, operator "=".toList]
      ++ (left.tokens ++ [mark ';', word "return".toList] ++ (right.tokens
        ++ [mark ';', mark '\x7d', mark ')', mark '(', mark ')'])) := by
  simp [tokens, lexemes]

end

theorem tokens_length_pos (e : Expression) : 0 < e.tokens.length := by
  rw [List.length_pos_iff]
  cases e <;>
    simp [tokens_null, tokens_literal, tokens_name, tokens_call, tokens_conditional, tokens_both,
      tokens_isGiven, tokens_differs, tokens_hasItems, tokens_append, tokens_list,
      tokens_mapItems, tokens_onlyTrue, tokens_joinItems, tokens_binding]

end Expression

namespace CodeReader

open Lexeme (word mark operator)

/-! ### What may stand behind -/

/-- The lowest level at which a lexeme goes on with an expression in front of it. -/
def rank : Lexeme → Nat
  | .mark '(' => 0
  | .mark '.' => 1
  | .operator ['+'] => 2
  | .operator ['!', '='] => 3
  | .operator ['!', '=', '='] => 3
  | .operator ['&', '&'] => 4
  | .operator ['?'] => 5
  | _ => 6

/-- Whether an expression of a level may end in front of some lexemes. -/
def Stops (level : Nat) (rest : List Lexeme) : Prop :=
  ∀ lexeme ∈ rest.head?, level < rank lexeme

theorem stops_cons {level : Nat} {lexeme : Lexeme} (h : level < rank lexeme)
    (rest : List Lexeme) : Stops level (lexeme :: rest) := by
  intro other hother
  rwa [← Option.some.inj hother]

theorem Stops.mono {low high : Nat} {rest : List Lexeme} (h : Stops high rest)
    (hle : low ≤ high) : Stops low rest :=
  fun lexeme hlexeme => Nat.lt_of_le_of_lt hle (h lexeme hlexeme)

/-- Where an expression may end, it does not go on. -/
theorem Stops.accept_eq_none {level : Nat} {wanted : Lexeme} {more rest : List Lexeme}
    (h : Stops level rest) (hrank : rank wanted ≤ level) : accept (wanted :: more) rest = none := by
  cases rest with
  | nil => rfl
  | cons lexeme others =>
    refine accept_of_ne ?_ more others
    rintro rfl
    exact Nat.lt_irrefl _ (Nat.lt_of_lt_of_le (h lexeme rfl) hrank)

/-! ### Levels -/

section

variable {inner lower : List Lexeme → Option (Expression × List Lexeme)} {n : Nat}
  {left : Expression} {rest : List Lexeme}

theorem methods_of_none
    (h : (accept [mark '.'] rest).bind (method inner left) = none) :
    methods inner n left rest = (left, rest) := by
  cases n with
  | zero => rfl
  | succ n => rw [methods, h]

theorem infixed_of_stops {level : Nat} {symbol : String} {make : Expression → Expression}
    (hrest : Stops level rest) (hrank : rank (operator symbol.toList) ≤ level) :
    infixed symbol lower make left rest = some (left, rest) := by
  rw [infixed, hrest.accept_eq_none hrank]

/-- Where an expression may end, nothing is read behind it. -/
theorem behind_of_stops {level : Nat} (hrest : Stops level rest) :
    behind inner n lower left level rest = some (left, rest) := by
  match level, hrest with
  | 0, _ => rfl
  | 1, hrest =>
    rw [behind, methods_of_none]
    rw [hrest.accept_eq_none (by decide)]
    rfl
  | 2, hrest =>
    rw [behind, hrest.accept_eq_none (by decide)]
    exact infixed_of_stops hrest (by decide)
  | 3, hrest =>
    rw [behind, hrest.accept_eq_none (by decide)]
    exact infixed_of_stops hrest (by decide)
  | 4, hrest => exact infixed_of_stops hrest (by decide)
  | 5, hrest =>
    rw [behind, hrest.accept_eq_none (by decide)]
  | _ + 6, _ => rfl

end

/-- Whether an expression is read at a level, up to where it may end. -/
def ReadsAt (level : Nat) (e : Expression) : Prop :=
  ∀ n rest, e.tokens.length ≤ n + 1 → Stops level rest →
    readAt (read n) n level (e.tokens ++ rest) = some (e, rest)

/-- An expression that is read at one level is read at all higher ones. -/
theorem ReadsAt.mono {low high : Nat} {e : Expression} (h : ReadsAt low e) (hle : low ≤ high) :
    ReadsAt high e := by
  induction hle with
  | refl => exact h
  | @step level hle ih =>
    intro n rest hn hrest
    -- What may stand behind at the higher level may do so at the lower one.
    have hleft := ih n rest hn (hrest.mono (Nat.le_succ level))
    rw [readAt, hleft]
    exact behind_of_stops hrest

/-- Expressions are read wherever they may end. -/
theorem ReadsAt.read_eq {e : Expression} (h : ReadsAt 5 e) (n : Nat) (rest : List Lexeme)
    (hn : e.tokens.length ≤ n) (hrest : Stops 5 rest) :
    read n (e.tokens ++ rest) = some (e, rest) := by
  cases n with
  | zero => exact absurd (Nat.lt_of_lt_of_le e.tokens_length_pos hn) (Nat.lt_irrefl 0)
  | succ n => exact h n rest hn hrest

/-! ### Chains of methods -/

/-- A **chain** starts with a single operand and goes on with methods. Behind it, all
    methods that come next are read. -/
def ReadsChain (e : Expression) : Prop :=
  ∃ links, links < e.tokens.length ∧ ∀ n rest, e.tokens.length ≤ n + 1 → Stops 0 rest →
    readAt (read n) n 1 (e.tokens ++ rest) = some (methods (read n) (n - links) e rest)

theorem ReadsAt.chain {e : Expression} (h : ReadsAt 0 e) : ReadsChain e := by
  refine ⟨0, e.tokens_length_pos, ?_⟩
  intro n rest hn hrest
  rw [readAt, h n rest hn hrest]
  rfl

/-- What is behind a chain may be no method. -/
theorem ReadsChain.readAt_eq {e : Expression} (h : ReadsChain e) (n : Nat) (rest : List Lexeme)
    (hn : e.tokens.length ≤ n + 1) (hrest : Stops 0 rest)
    (hnone : (accept [mark '.'] rest).bind (method (read n) e) = none) :
    readAt (read n) n 1 (e.tokens ++ rest) = some (e, rest) := by
  obtain ⟨links, -, hread⟩ := h
  rw [hread n rest hn hrest, methods_of_none hnone]

theorem ReadsChain.readsAt {e : Expression} (h : ReadsChain e) : ReadsAt 1 e := by
  intro n rest hn hrest
  refine h.readAt_eq n rest hn (hrest.mono (Nat.zero_le 1)) ?_
  rw [hrest.accept_eq_none (by decide)]
  rfl

/-- One more method makes a chain longer. -/
theorem ReadsChain.link {on e : Expression} {lexemes : List Lexeme} (h : ReadsChain on)
    (htokens : e.tokens = on.tokens ++ mark '.' :: lexemes)
    (hmethod : ∀ n rest, lexemes.length ≤ n →
      method (read n) on (lexemes ++ rest) = some (e, rest)) : ReadsChain e := by
  obtain ⟨links, hlinks, hread⟩ := h
  have hlength : e.tokens.length = on.tokens.length + (lexemes.length + 1) := by
    rw [htokens, List.length_append, List.length_cons]
  refine ⟨links + 1, by omega, ?_⟩
  intro n rest hn hrest
  -- There are fewer methods than lexemes, so one more may be read.
  obtain ⟨m, hm⟩ : ∃ m, n - links = m + 1 := ⟨n - links - 1, by omega⟩
  have hnext : n - (links + 1) = m := by omega
  have hfound : (accept [mark '.'] (mark '.' :: (lexemes ++ rest))).bind (method (read n) on)
      = some (e, rest) :=
    hmethod n rest (by omega)
  rw [htokens, List.append_assoc, List.cons_append,
    hread n _ (by omega) (stops_cons (by decide) _), hm, methods, hfound, hnext]

/-! ### Single operands -/

theorem readsAt_null : ReadsAt 0 .null := by
  intro n rest _ _
  rw [Expression.tokens_null]
  rfl

theorem readsAt_literal (body : List Char) : ReadsAt 0 (.literal body) := by
  intro n rest _ _
  rw [Expression.tokens_literal]
  rfl

theorem ne_null_of_isName {text : List Char} (h : isName text = true) :
    text ≠ "null".toList := by
  rintro rfl
  exact absurd h (by decide +kernel)

theorem readsAt_name {text : List Char} (h : isName text = true) : ReadsAt 0 (.name text) := by
  intro n rest _ hrest
  rw [Expression.tokens_name]
  have hbracket : accept [mark '('] rest = none := hrest.accept_eq_none (by decide)
  show wordOperand (read n) text rest = _
  rw [wordOperand, if_neg (ne_null_of_isName h), if_pos h, hbracket]

theorem readsAt_call {function : List Char} {argument : Expression}
    (hfunction : isName function = true) (hargument : ReadsAt 5 argument) :
    ReadsAt 0 (.call function argument) := by
  intro n rest hn _
  rw [Expression.tokens_call] at hn ⊢
  have hread := hargument.read_eq n (mark ')' :: rest)
    (by simp at hn; omega) (stops_cons (by decide) _)
  show wordOperand (read n) function (mark '(' :: (argument.tokens ++ [mark ')'] ++ rest)) = _
  rw [wordOperand, if_neg (ne_null_of_isName hfunction), if_pos hfunction, List.append_assoc]
  simp [accept, hread]

/-- No expression starts with a closing bracket. -/
theorem read_closing (n : Nat) (rest : List Lexeme) : read n (mark ']' :: rest) = none := by
  cases n with
  | zero => rfl
  | succ n => rfl

theorem accept_closing_of_items {n m : Nat} {rest : List Lexeme}
    {found : List Expression × List Lexeme} (h : items (read n) m rest = some found) :
    accept [mark ']'] rest = none := by
  cases rest with
  | nil => rfl
  | cons lexeme more =>
    refine accept_of_ne ?_ [] more
    rintro rfl
    cases m with
    | zero => cases h
    | succ m =>
      rw [items, read_closing] at h
      cases h

/-- Items that are read one by one are read as a list, up to the closing bracket. -/
theorem items_listTokens {item : Expression} {more : List Expression}
    (h : ∀ e ∈ item :: more, ReadsAt 5 e) {n : Nat} (rest : List Lexeme)
    (hn : (Expression.listTokens (item :: more)).length ≤ n) :
    ∀ m, (item :: more).length ≤ m →
      items (read n) m (Expression.listTokens (item :: more) ++ mark ']' :: rest)
        = some (item :: more, rest) := by
  induction more generalizing item with
  | nil =>
    intro m hm
    obtain ⟨m, rfl⟩ : ∃ k, m = k + 1 := ⟨m - 1, by simp at hm; omega⟩
    have hread := (h item List.mem_cons_self).read_eq n (mark ']' :: rest) hn
      (stops_cons (by decide) _)
    have hlist : Expression.listTokens [item] = item.tokens := rfl
    rw [hlist, items, hread]
    rfl
  | cons next more ih =>
    intro m hm
    obtain ⟨m, rfl⟩ : ∃ k, m = k + 1 := ⟨m - 1, by simp at hm; omega⟩
    rw [Expression.listTokens_cons, List.length_append, List.length_cons] at hn
    have hmore := ih (fun e he => h e (List.mem_cons_of_mem item he)) (by omega) m
      (Nat.le_of_succ_le_succ hm)
    have hread := (h item List.mem_cons_self).read_eq n
      (mark ',' :: (Expression.listTokens (next :: more) ++ mark ']' :: rest)) (by omega)
      (stops_cons (by decide) _)
    rw [Expression.listTokens_cons, List.append_assoc, List.cons_append, items, hread]
    simp [accept, hmore]

theorem length_le_length_listTokens (items : List Expression) :
    items.length ≤ (Expression.listTokens items).length := by
  induction items with
  | nil => exact Nat.zero_le _
  | cons item rest ih =>
    have hpos := item.tokens_length_pos
    cases rest with
    | nil => exact hpos
    | cons next more =>
      have hlist := congrArg List.length (Expression.listTokens_cons item next more)
      rw [List.length_append, List.length_cons] at hlist
      rw [List.length_cons]
      omega

theorem readsAt_list {all : List Expression} (h : ∀ e ∈ all, ReadsAt 5 e) :
    ReadsAt 0 (.list all) := by
  intro n rest hn _
  rw [Expression.tokens_list] at hn ⊢
  show listOperand (read n) n (Expression.listTokens all ++ [mark ']'] ++ rest) = _
  rw [List.append_assoc, List.singleton_append]
  cases all with
  | nil => rfl
  | cons item more =>
    have hbound : (Expression.listTokens (item :: more)).length ≤ n := by
      simp at hn
      omega
    have hitems := items_listTokens h rest hbound n
      (Nat.le_trans (length_le_length_listTokens (item :: more)) hbound)
    rw [listOperand, accept_closing_of_items hitems, hitems]
    rfl

theorem readsAt_binding {bound : List Char} {value body : Expression}
    (hbound : isName bound = true) (hvalue : ReadsAt 5 value) (hbody : ReadsAt 5 body) :
    ReadsAt 0 (.binding bound value body) := by
  intro n rest hn _
  rw [Expression.tokens_binding] at hn ⊢
  have hlength : value.tokens.length + body.tokens.length ≤ n := by
    simp at hn
    omega
  have hfirst := hvalue.read_eq n ([mark ';', .word "return".toList]
    ++ (body.tokens ++ [mark ';', mark '\x7d', mark ')', mark '(', mark ')'] ++ rest))
    (by omega) (stops_cons (by decide) _)
  have hsecond := hbody.read_eq n
    ([mark ';', mark '\x7d', mark ')', mark '(', mark ')'] ++ rest)
    (by omega) (stops_cons (by decide) _)
  -- Given lexemes stand in front of the name and between the expressions.
  simp only [List.append_assoc] at hfirst ⊢
  show functionOperand (read n) ([mark '(', mark ')', operator "=>".toList, mark '\x7b',
    .word "const".toList] ++ (.word bound :: ([operator "=".toList] ++ _))) = _
  rw [functionOperand, accept_append]
  simp only [Option.bind_eq_bind, Option.bind_some, name?, hbound, if_true, accept_append,
    hfirst, hsecond]
  rfl

/-! ### Methods -/

theorem readsChain_mapItems {on body : Expression} {bound : List Char} (hon : ReadsChain on)
    (hbound : isName bound = true) (hbody : ReadsAt 5 body) :
    ReadsChain (.mapItems on bound body) := by
  refine hon.link (Expression.tokens_mapItems _ _ _) ?_
  intro n rest hn
  have hread := hbody.read_eq n ([mark ')'] ++ rest)
    (by simp at hn; omega) (stops_cons (by decide) _)
  simp only [List.append_assoc]
  show mapping (read n) on ([mark '(', mark '('] ++ (.word bound
    :: ([mark ')', operator "=>".toList] ++ (body.tokens ++ ([mark ')'] ++ rest))))) = _
  rw [mapping, accept_append]
  simp only [Option.bind_eq_bind, Option.bind_some, name?, hbound, if_true, accept_append, hread]
  rfl

theorem readsChain_onlyTrue {on : Expression} (hon : ReadsChain on) :
    ReadsChain (.onlyTrue on) :=
  hon.link (Expression.tokens_onlyTrue _) (fun _ _ _ => rfl)

theorem readsChain_joinItems {on : Expression} (hon : ReadsChain on) (separator : List Char) :
    ReadsChain (.joinItems on separator) :=
  hon.link (Expression.tokens_joinItems _ _) (fun _ _ _ => rfl)

/-! ### Operators -/

/-- An operator between two operands of the level below. -/
theorem readsAt_infixed {level : Nat} {symbol : List Char} {left right : Expression}
    {make : Expression → Expression} (hleft : ReadsAt level left) (hright : ReadsAt level right)
    (htokens : (make right).tokens = left.tokens ++ operator symbol :: right.tokens)
    (hrank : level < rank (operator symbol))
    (hbehind : ∀ inner n lower rest, behind inner n lower left (level + 1)
      (operator symbol :: rest) = (lower rest).map (fun found => (make found.1, found.2))) :
    ReadsAt (level + 1) (make right) := by
  intro n rest hn hrest
  rw [htokens, List.length_append, List.length_cons] at hn
  have hfirst := hleft n (operator symbol :: (right.tokens ++ rest)) (by omega)
    (stops_cons hrank _)
  have hsecond := hright n rest (by omega) (hrest.mono (Nat.le_succ level))
  rw [htokens, List.append_assoc, List.cons_append, readAt, hfirst]
  show behind _ _ _ left (level + 1) (operator symbol :: (right.tokens ++ rest)) = _
  rw [hbehind, hsecond]
  rfl

theorem readsAt_append {left right : Expression} (hleft : ReadsAt 1 left)
    (hright : ReadsAt 1 right) : ReadsAt 2 (.append left right) :=
  readsAt_infixed hleft hright (Expression.tokens_append left right) (by decide)
    (fun _ _ _ _ => rfl)

theorem readsAt_differs {left right : Expression} (hleft : ReadsAt 2 left)
    (hright : ReadsAt 2 right) : ReadsAt 3 (.differs left right) :=
  readsAt_infixed hleft hright (Expression.tokens_differs left right) (by decide)
    (fun _ _ _ _ => rfl)

theorem readsAt_both {left right : Expression} (hleft : ReadsAt 3 left)
    (hright : ReadsAt 3 right) : ReadsAt 4 (.both left right) :=
  readsAt_infixed hleft hright (Expression.tokens_both left right) (by decide)
    (fun _ _ _ _ => rfl)

theorem readsAt_isGiven {operand : Expression} (h : ReadsAt 2 operand) :
    ReadsAt 3 (.isGiven operand) := by
  intro n rest hn _
  rw [Expression.tokens_isGiven, List.length_append] at hn
  have hread := h n (operator "!=".toList :: .word "null".toList :: rest) (by omega)
    (stops_cons (by decide) _)
  rw [Expression.tokens_isGiven, List.append_assoc, readAt]
  show (readAt (read n) n 2 (operand.tokens ++ operator "!=".toList :: .word "null".toList
    :: rest)).bind _ = _
  rw [hread]
  rfl

/-- The length of a list is no method of it. -/
theorem readsAt_hasItems {operand : Expression} (h : ReadsChain operand) :
    ReadsAt 2 (.hasItems operand) := by
  intro n rest hn _
  rw [Expression.tokens_hasItems, List.length_append] at hn
  have hread := h.readAt_eq n (mark '.' :: .word "length".toList
    :: operator ">".toList :: .word "0".toList :: rest) (by omega) (stops_cons (by decide) _) rfl
  rw [Expression.tokens_hasItems, List.append_assoc, readAt]
  show (readAt (read n) n 1 (operand.tokens ++ mark '.' :: .word "length".toList
    :: operator ">".toList :: .word "0".toList :: rest)).bind _ = _
  rw [hread]
  rfl

theorem readsAt_conditional {test whenTrue whenFalse : Expression} (htest : ReadsAt 4 test)
    (htrue : ReadsAt 5 whenTrue) (hfalse : ReadsAt 5 whenFalse) :
    ReadsAt 5 (.conditional test whenTrue whenFalse) := by
  intro n rest hn hrest
  have hpos := test.tokens_length_pos
  rw [Expression.tokens_conditional] at hn ⊢
  have hlength : test.tokens.length + (whenTrue.tokens.length + whenFalse.tokens.length) < n := by
    simp at hn
    omega
  have hfirst := htest n (operator "?".toList :: (whenTrue.tokens ++ (operator ":".toList
    :: (whenFalse.tokens ++ rest)))) (by omega) (stops_cons (by decide) _)
  have hsecond := htrue.read_eq n (operator ":".toList :: (whenFalse.tokens ++ rest))
    (by omega) (stops_cons (by decide) _)
  have hthird := hfalse.read_eq n rest (by omega) hrest
  simp only [List.append_assoc, List.cons_append]
  rw [readAt, hfirst]
  show behind (read n) n (readAt (read n) n 4) test 5 (operator "?".toList :: _) = _
  rw [behind, accept_cons, accept_nil]
  simp only [Option.bind_eq_bind, hsecond, Option.bind_some, accept_cons, accept_nil, hthird]
  rfl

/-! ### All expressions -/

/-- What reading gives for an expression: it is read at its level, and if that is a low
    one, then also as the start of a chain. -/
structure Reads (e : Expression) : Prop where
  readsAt : ReadsAt e.level e
  chain : e.level < 2 → ReadsChain e

namespace Reads

variable {e : Expression}

theorem of_operand (hlevel : e.level = 0) (h : ReadsAt 0 e) : Reads e :=
  ⟨hlevel ▸ h, fun _ => h.chain⟩

theorem of_chain (hlevel : e.level = 1) (h : ReadsChain e) : Reads e :=
  ⟨hlevel ▸ h.readsAt, fun _ => h⟩

theorem of_operator (hlevel : 2 ≤ e.level) (h : ReadsAt e.level e) : Reads e :=
  ⟨h, fun hlow => absurd hlow (Nat.not_lt.2 hlevel)⟩

theorem whole (h : Reads e) : ReadsAt 5 e := by
  have hlevel : e.level ≤ 5 := by cases e <;> simp [Expression.level]
  exact h.readsAt.mono hlevel

/-- An expression of a lower level is read as an operand. -/
theorem below (h : Reads e) {level : Nat} (hlevel : e.level < level + 1) : ReadsAt level e :=
  h.readsAt.mono (Nat.le_of_lt_succ hlevel)

end Reads

mutual

/-- **Legible** expressions are read at their level. -/
theorem reads_of_legible : (e : Expression) → e.Legible → Reads e
  | .null, _ => .of_operand rfl readsAt_null
  | .literal body, _ => .of_operand rfl (readsAt_literal body)
  | .name _, h => .of_operand rfl (readsAt_name h)
  | .call _ argument, h =>
    .of_operand rfl (readsAt_call h.1 (reads_of_legible argument h.2).whole)
  | .conditional test whenTrue whenFalse, h =>
    .of_operator (by simp [Expression.level])
      (readsAt_conditional ((reads_of_legible test h.1.2).below h.1.1)
        (reads_of_legible whenTrue h.2.1).whole (reads_of_legible whenFalse h.2.2).whole)
  | .both left right, h =>
    .of_operator (by simp [Expression.level])
      (readsAt_both ((reads_of_legible left h.1.2).below h.1.1)
        ((reads_of_legible right h.2.2).below h.2.1))
  | .isGiven operand, h =>
    .of_operator (by simp [Expression.level])
      (readsAt_isGiven ((reads_of_legible operand h.2).below h.1))
  | .differs left right, h =>
    .of_operator (by simp [Expression.level])
      (readsAt_differs ((reads_of_legible left h.1.2).below h.1.1)
        ((reads_of_legible right h.2.2).below h.2.1))
  | .hasItems operand, h =>
    .of_operator (by simp [Expression.level])
      (readsAt_hasItems ((reads_of_legible operand h.2).chain h.1))
  | .append left right, h =>
    .of_operator (by simp [Expression.level])
      (readsAt_append ((reads_of_legible left h.1.2).below h.1.1)
        ((reads_of_legible right h.2.2).below h.2.1))
  | .list items, h =>
    .of_operand rfl (readsAt_list (fun e he =>
      (reads_of_eachLegible items h e he).whole))
  | .mapItems on _ body, h =>
    .of_chain rfl (readsChain_mapItems ((reads_of_legible on h.1.2).chain h.1.1) h.2.1
      (reads_of_legible body h.2.2).whole)
  | .onlyTrue on, h =>
    .of_chain rfl (readsChain_onlyTrue ((reads_of_legible on h.2).chain h.1))
  | .joinItems on separator, h =>
    .of_chain rfl (readsChain_joinItems ((reads_of_legible on h.1.2).chain h.1.1) separator)
  | .binding _ value body, h =>
    .of_operand rfl (readsAt_binding h.1 (reads_of_legible value h.2.1).whole
      (reads_of_legible body h.2.2).whole)

theorem reads_of_eachLegible : (items : List Expression) → Expression.EachLegible items →
    ∀ e ∈ items, Reads e
  | [], _ => fun _ he => absurd he List.not_mem_nil
  | item :: rest, h =>
    List.forall_mem_cons.2 ⟨reads_of_legible item h.1, reads_of_eachLegible rest h.2⟩

end

/-- **Interpolations**: a legible expression in an interpolation is read as it was
    meant. -/
theorem readInterpolation_chars {e : Expression} (h : e.Legible) :
    readInterpolation ('$' :: '\x7b' :: e.chars ++ ['\x7d']) = some e := by
  -- The closing brace is a lexeme too, so the code is read up to it.
  have hall : (e.lexemes ++ [mark '\x7d']).all isLegible = true := by
    rw [List.all_append, e.all_isLegible_lexemes h]
    decide
  have hchain : List.IsChain Lexeme.Apart (e.lexemes ++ [mark '\x7d']) := by
    simp [List.isChain_append, e.isChain_lexemes]
  have htext : (e.lexemes ++ [mark '\x7d']).flatMap Lexeme.chars = e.chars ++ ['\x7d'] := by
    rw [List.flatMap_append, e.flatMap_lexemes]
    rfl
  have htokens : (e.lexemes ++ [mark '\x7d']).filter (· ≠ .blank) = e.tokens ++ [mark '\x7d'] := by
    rw [List.filter_append]
    rfl
  have hlexemes := lexemes_flatMap_chars hall hchain
  rw [htext, htokens] at hlexemes
  have hread := (reads_of_legible e h).whole.read_eq
    (e.tokens ++ [mark '\x7d']).length [mark '\x7d']
    (by simp) (stops_cons (by decide) _)
  show ((lexemes (e.chars ++ ['\x7d'])).bind fun found =>
    (read found.length found).bind fun x => if x.2 = [mark '\x7d'] then some x.1 else none) = _
  rw [hlexemes, Option.bind_some, hread, Option.bind_some, if_pos rfl]

end CodeReader

end TypedClient
