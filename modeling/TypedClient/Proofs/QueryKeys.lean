import TypedClient.Package.Query
import TypedClient.Proofs.CodeLexemes
import TypedClient.Proofs.LiteralReading

/-! # Keys of query strings

    The code for a query string holds the keys of its arguments in literals, with a
    question mark or an ampersand in front and an equals sign behind.

    * **Bodies**: apart from three fixed ones, the literals of the code are those of
      keys; each argument has one, a list argument two.
    * **Backslashes and quotes** of a key are escaped, so a literal of a key on one line
      spells that key, and nothing else.
    * **Ends of lines** are not escaped, though `Text.literal` does it: a key that holds
      one is in no literal at all.
-/

namespace TypedClient

theorem Expression.literal_mem_listLexemes_iff {items : List Expression} {body : List Char} :
    .literal body ∈ listLexemes items ↔ ∃ item ∈ items, .literal body ∈ item.lexemes := by
  induction items with
  | nil => simp [listLexemes]
  | cons item rest ih =>
    cases rest with
    | nil => simp [listLexemes]
    | cons next more => simp [listLexemes, ih]

namespace Query

/-! ### Literals of query strings -/

/-- The lexemes of the code for a query string. -/
def lexemes (arguments : List Argument) : List Lexeme :=
  ((expression? arguments).map Expression.lexemes).getD []

/-- The body of the literal that holds a key, behind a lead. -/
def keyBody (lead : List Char) (a : Argument) : List Char :=
  lead ++ key a ++ ['=']

/-- What the literal that holds a key should stand for. -/
def keyText (lead : List Char) (a : Argument) : List Char :=
  lead ++ a.key.toList ++ ['=']

/-- Whether there is a single argument, which is optional and no list. -/
def isAlone : List Argument → Bool
  | [only] => !(only.required || only.isArray)
  | _ => false

/-- What may stand in front of a key. -/
def leads : List (List Char) :=
  [[], ['?'], ['&']]

/-- What stands in front of the key in the literals of an argument: a question mark if it
    is alone, and an ampersand for the further items of a list. -/
def keyLeads (arguments : List Argument) (a : Argument) : List (List Char) :=
  (if isAlone arguments then ['?'] else []) :: (if a.isArray then [['&']] else [])

/-- The bodies of the literals that hold no key. -/
def fixedBodies : List (List Char) :=
  [['?'], ['&'], []]

variable {arguments : List Argument} {a : Argument} {body lead : List Char}

theorem expression?_of_isAlone (h : isAlone arguments = true) :
    ∃ only, arguments = [only] ∧ only.required = false ∧ only.isArray = false
      ∧ expression? arguments
        = some (.conditional (presence only) (pair ['?'] only) (.literal [])) := by
  unfold isAlone at h
  split at h
  · rename_i only
    rw [Bool.not_eq_true'] at h
    obtain ⟨hrequired, harray⟩ := Bool.or_eq_false_iff.1 h
    refine ⟨only, rfl, hrequired, harray, ?_⟩
    rw [expression?, h, if_neg Bool.false_ne_true]
  · cases h

theorem expression?_of_not_isAlone (h : isAlone arguments = false) (hne : arguments ≠ []) :
    expression? arguments = some (joined arguments) := by
  unfold expression?
  split
  · exact absurd rfl hne
  · rename_i only
    rw [isAlone, Bool.not_eq_false'] at h
    rw [if_pos h]
  · rfl

/-- The code for a query string is the condition for an argument that is alone, or the
    list of contributions. -/
theorem expression?_cases {e : Expression} (h : expression? arguments = some e) :
    (∃ only, arguments = [only] ∧ only.required = false ∧ only.isArray = false
        ∧ e = .conditional (presence only) (pair ['?'] only) (.literal []))
      ∨ e = joined arguments := by
  cases halone : isAlone arguments with
  | true =>
    obtain ⟨only, honly, hrequired, harray, hexpression⟩ := expression?_of_isAlone halone
    exact .inl ⟨only, honly, hrequired, harray, Option.some.inj (h.symm.trans hexpression)⟩
  | false =>
    have hne : arguments ≠ [] := by
      rintro rfl
      cases h
    exact .inr (Option.some.inj (h.symm.trans (expression?_of_not_isAlone halone hne)))

theorem eq_nil_of_expression?_eq_none (h : expression? arguments = none) : arguments = [] := by
  unfold expression? at h
  split at h
  · rfl
  · split at h <;> cases h
  · cases h

theorem literal_mem_pair_iff :
    .literal body ∈ (pair lead a).lexemes
      ↔ body = keyBody lead a ∨ (a.isArray = true ∧ body = keyBody ['&'] a) := by
  cases harray : a.isArray <;>
    simp [pair, encodedValue, encoded, textOf, value, keyBody, harray, Expression.lexemes]

theorem literal_mem_presence_iff :
    .literal body ∈ (presence a).lexemes ↔ a.isArray = false ∧ body = [] := by
  cases harray : a.isArray <;> simp [presence, textOf, value, harray, Expression.lexemes]

/-- The literals of a contribution are those of its key, and the empty one. -/
theorem literal_mem_contribution (h : .literal body ∈ (contribution a).lexemes) :
    .literal body ∈ (pair [] a).lexemes ∨ body = [] := by
  unfold contribution at h
  split at h
  · exact .inl h
  · have hcases : .literal body ∈ (presence a).lexemes ∨ .literal body ∈ (pair [] a).lexemes := by
      simpa [Expression.lexemes] using h
    rcases hcases with h | h
    · exact .inr (literal_mem_presence_iff.1 h).2
    · exact .inl h

theorem literal_mem_contribution_of_mem_pair (h : .literal body ∈ (pair [] a).lexemes) :
    .literal body ∈ (contribution a).lexemes := by
  unfold contribution
  split
  · exact h
  · simp [Expression.lexemes, h]

theorem literal_mem_joined_iff :
    .literal body ∈ (joined arguments).lexemes
      ↔ (∃ a ∈ arguments, .literal body ∈ (contribution a).lexemes) ∨ body ∈ fixedBodies := by
  simp [joined, Expression.lexemes, Expression.literal_mem_listLexemes_iff, fixedBodies]

/-- The literals of a key are among those of the code. -/
theorem keyBody_mem_lexemes (ha : a ∈ arguments) (hlead : lead ∈ keyLeads arguments a) :
    .literal (keyBody lead a) ∈ lexemes arguments := by
  rw [keyLeads, List.mem_cons] at hlead
  cases halone : isAlone arguments with
  | true =>
    obtain ⟨only, rfl, -, harray, hexpression⟩ := expression?_of_isAlone halone
    obtain rfl := List.mem_singleton.1 ha
    obtain rfl : lead = ['?'] := by simpa [halone, harray] using hlead
    have hpair : .literal (keyBody ['?'] a) ∈ (pair ['?'] a).lexemes :=
      literal_mem_pair_iff.2 (.inl rfl)
    simp [lexemes, hexpression, Expression.lexemes, hpair]
  | false =>
    -- What is not alone has no lead of its own in front of its first key.
    have hpair : .literal (keyBody lead a) ∈ (pair [] a).lexemes := by
      rw [literal_mem_pair_iff]
      rcases hlead with rfl | hlead
      · rw [halone, if_neg Bool.false_ne_true]
        exact .inl rfl
      · cases harray : a.isArray with
        | false => simp [harray] at hlead
        | true =>
          obtain rfl : lead = ['&'] := by simpa [harray] using hlead
          exact .inr ⟨rfl, rfl⟩
    rw [lexemes, expression?_of_not_isAlone halone (List.ne_nil_of_mem ha), Option.map_some,
      Option.getD_some, literal_mem_joined_iff]
    exact .inl ⟨a, ha, literal_mem_contribution_of_mem_pair hpair⟩

theorem exists_lead_of_mem_pair (hlead : lead ∈ keyLeads arguments a)
    (h : .literal body ∈ (pair lead a).lexemes) :
    ∃ lead ∈ keyLeads arguments a, body = keyBody lead a := by
  rcases literal_mem_pair_iff.1 h with rfl | ⟨harray, rfl⟩
  · exact ⟨lead, hlead, rfl⟩
  · exact ⟨['&'], by simp [keyLeads, harray], rfl⟩

/-- All other literals of the code are fixed. -/
theorem mem_fixedBodies_or_exists (h : .literal body ∈ lexemes arguments) :
    body ∈ fixedBodies
      ∨ ∃ a ∈ arguments, ∃ lead ∈ keyLeads arguments a, body = keyBody lead a := by
  have hempty : [] ∈ fixedBodies := by decide
  cases halone : isAlone arguments with
  | true =>
    obtain ⟨only, rfl, -, -, hexpression⟩ := expression?_of_isAlone halone
    have hcases : .literal body ∈ (presence only).lexemes
        ∨ .literal body ∈ (pair ['?'] only).lexemes ∨ body = [] := by
      simpa [lexemes, hexpression, Expression.lexemes] using h
    rcases hcases with h | h | rfl
    · rw [(literal_mem_presence_iff.1 h).2]
      exact .inl hempty
    · have hlead : ['?'] ∈ keyLeads [only] only := by simp [keyLeads, halone]
      exact .inr ⟨only, List.mem_singleton_self only, exists_lead_of_mem_pair hlead h⟩
    · exact .inl hempty
  | false =>
    by_cases hne : arguments = []
    · subst hne
      exact absurd h List.not_mem_nil
    · rw [lexemes, expression?_of_not_isAlone halone hne, Option.map_some, Option.getD_some,
        literal_mem_joined_iff] at h
      rcases h with ⟨a, ha, h⟩ | h
      · rcases literal_mem_contribution h with h | rfl
        · have hlead : [] ∈ keyLeads arguments a := by simp [keyLeads, halone]
          exact .inr ⟨a, ha, exists_lead_of_mem_pair hlead h⟩
        · exact .inl hempty
      · exact .inl h

/-- The literals stand in the text of the query string. -/
theorem literal_infix_suffixChars (h : .literal body ∈ lexemes arguments) :
    '\'' :: body ++ ['\''] <:+: suffixChars arguments := by
  unfold lexemes at h
  unfold suffixChars
  cases hexpression : expression? arguments with
  | none => simp [hexpression] at h
  | some e =>
    rw [hexpression, Option.map_some, Option.getD_some] at h
    have hinfix := Lexeme.literal_infix h
    rw [e.flatMap_lexemes] at hinfix
    exact hinfix.trans ⟨['$', '\x7b'], ['\x7d'], by simp⟩

/-! ### What the literals spell -/

open Literal (Spells isLineEnd)

/-- A character of a key spells itself unless it ends a line. -/
theorem spells_keyChar {c : Char} (h : isLineEnd c = false) : Spells (keyChar c) [c] := by
  unfold keyChar
  split
  · exact .escape rfl .nil
  · exact .escape rfl .nil
  · rename_i hslash hquote
    exact .plain hquote hslash h .nil

theorem spells_flatMap_keyChar {s : List Char} (h : ∀ c ∈ s, isLineEnd c = false) :
    Spells (s.flatMap keyChar) s := by
  induction s with
  | nil => exact .nil
  | cons c r ih =>
    have hc := spells_keyChar (h c List.mem_cons_self)
    exact hc.append (ih (fun d hd => h d (List.mem_cons_of_mem c hd)))

theorem mem_leads_of_mem_keyLeads (h : lead ∈ keyLeads arguments a) : lead ∈ leads := by
  have hall : ∀ alone array : Bool,
      ∀ lead ∈ (if alone then ['?'] else []) :: (if array then [['&']] else []), lead ∈ leads := by
    decide
  exact hall (isAlone arguments) a.isArray lead h

/-- What stands in front of a key spells itself. -/
theorem spells_lead (h : lead ∈ leads) : Spells lead lead := by
  have hcases : lead = [] ∨ lead = ['?'] ∨ lead = ['&'] := by simpa [leads] using h
  rcases hcases with rfl | rfl | rfl
  · exact .nil
  · exact .plain (by decide) (by decide) (by decide) .nil
  · exact .plain (by decide) (by decide) (by decide) .nil

/-- The end of a line stands in a key as it is. -/
theorem mem_keyChar_self {c : Char} (h : isLineEnd c = true) : c ∈ keyChar c := by
  unfold keyChar
  split
  · cases h
  · cases h
  · exact List.mem_singleton_self c

/-- **The literal of a key** spells the key, with what stands around it, exactly if no
    end of a line stands in the key. -/
theorem spells_keyBody_iff (hlead : lead ∈ leads) {text : List Char} :
    Spells (keyBody lead a) text
      ↔ text = keyText lead a ∧ ∀ c ∈ a.key.toList, isLineEnd c = false := by
  have hspells : (∀ c ∈ a.key.toList, isLineEnd c = false) →
      Spells (keyBody lead a) (keyText lead a) := by
    intro hline
    have hequals : Spells ['='] ['='] := .plain (by decide) (by decide) (by decide) .nil
    exact ((spells_lead hlead).append (spells_flatMap_keyChar hline)).append hequals
  constructor
  · intro h
    have hline : ∀ c ∈ a.key.toList, isLineEnd c = false := by
      intro c hc
      rw [Bool.eq_false_iff]
      intro hend
      -- The body holds it as it is, but what spells something stands on one line.
      have hmem : c ∈ keyBody lead a := by
        have hkey : c ∈ key a := List.mem_flatMap.2 ⟨c, hc, mem_keyChar_self hend⟩
        exact List.mem_append_left _ (List.mem_append_right _ hkey)
      rw [h.isLineEnd_eq_false c hmem] at hend
      cases hend
    exact ⟨h.unique (hspells hline), hline⟩
  · rintro ⟨rfl, hline⟩
    exact hspells hline

/-- **Keys in literals**: the literals of the code stand in its text, and they are fixed
    or hold a key. Each literal of a key is one of them, and spells the key between what
    stands around it exactly if no end of a line stands in the key; else it is no
    literal. -/
theorem keys_spelled_iff (arguments : List Argument) :
    (∀ body, .literal body ∈ lexemes arguments →
        '\'' :: body ++ ['\''] <:+: suffixChars arguments
          ∧ (body ∈ fixedBodies
            ∨ ∃ a ∈ arguments, ∃ lead ∈ keyLeads arguments a, body = keyBody lead a))
      ∧ ∀ a ∈ arguments, ∀ lead ∈ keyLeads arguments a,
          .literal (keyBody lead a) ∈ lexemes arguments
            ∧ ∀ text, Spells (keyBody lead a) text
                ↔ text = keyText lead a ∧ ∀ c ∈ a.key.toList, isLineEnd c = false := by
  constructor
  · intro body h
    exact ⟨literal_infix_suffixChars h, mem_fixedBodies_or_exists h⟩
  · intro a ha lead hlead
    have hleads := mem_leads_of_mem_keyLeads hlead
    exact ⟨keyBody_mem_lexemes ha hlead, fun _ => spells_keyBody_iff hleads⟩

/-- An optional argument of a given key. -/
def optionalArgument (key : String) : Argument :=
  ⟨"item", key, .query, .string, false, false, none⟩

/-- A line feed in a key ends the literal that the key stands in. -/
theorem keys_spelled_sample :
    .literal (keyBody ['?'] (optionalArgument "line\nbreak"))
        ∈ lexemes [optionalArgument "line\nbreak"]
      ∧ ∀ text, ¬ Spells (keyBody ['?'] (optionalArgument "line\nbreak")) text := by
  have hexact := (keys_spelled_iff [optionalArgument "line\nbreak"]).2 _
    (List.mem_singleton_self _) ['?'] (by decide)
  refine ⟨hexact.1, ?_⟩
  intro text h
  have hline := ((hexact.2 text).1 h).2 '\n' (by decide +kernel)
  cases hline

end Query

end TypedClient
