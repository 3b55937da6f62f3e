import TypedClient.Proofs.CodeScan
import TypedClient.Proofs.DataTokens
import TypedClient.Proofs.ResolvedTypes
import TypedClient.TypeExpr.Rendering

/-! # Types in scanned code

    The text of a type has all its quotes in pairs, and every named type in it
    stands delimited, so a scan of the code around it finds the name.
-/

namespace TypedClient.Scan

/-! ### Revealing texts -/

/-- A text reveals names: it is neutral, and the capitalized ones among them
    show in it. -/
structure Reveals (names : List String) (s : List Char) : Prop where
  neutral : Neutral s
  shows : ∀ name ∈ names, IsCapitalized name.toList → Shows name.toList s

namespace Reveals

variable {names more : List String} {s t before after : List Char}

theorem nil (h : Neutral s) : Reveals [] s :=
  ⟨h, fun _ hname => absurd hname List.not_mem_nil⟩

theorem union (h : Reveals names s) (h' : Reveals more s) : Reveals (names ++ more) s where
  neutral := h.neutral
  shows := by
    intro name hname hcap
    rcases List.mem_append.1 hname with hname | hname
    · exact h.shows name hname hcap
    · exact h'.shows name hname hcap

/-- What a text reveals is revealed by texts around it that let words start and
    end there. -/
theorem surround (h : Reveals names s) (hbefore : Opens before) (hcloses : Closes after)
    (hafter : Neutral after) : Reveals names (before ++ s ++ after) where
  neutral := (hbefore.neutral.append h.neutral).append hafter
  shows := fun name hname hcap => (h.shows name hname hcap).surround hbefore h.neutral hcloses

/-- What a text reveals is revealed with a text behind it. -/
theorem append (h : Reveals names s) (hcloses : Closes after) (hafter : Neutral after) :
    Reveals names (s ++ after) :=
  h.surround .nil hcloses hafter

/-- What a text reveals is revealed with a text in front of it. -/
theorem prepend (h : Reveals names s) (hbefore : Opens before) : Reveals names (before ++ s) := by
  have hall := h.surround hbefore .nil .nil
  rwa [List.append_nil] at hall

/-- What two texts reveal is revealed by both of them with a separator in
    between. -/
theorem separate (h : Reveals names s) (h' : Reveals more t) (c : Char) (sep : List Char) (d : Char)
    (hsep : Quoteless (c :: sep ++ [d])) (hc : isDelimiter c = true)
    (hd : Text.isWord d = false) : Reveals (names ++ more) (s ++ (c :: sep ++ [d]) ++ t) := by
  have hneutral : Neutral (c :: sep) :=
    .of_quoteless (fun e he => hsep e (List.mem_append_left _ he))
  have hopens : Opens (s ++ (c :: sep ++ [d])) := by
    rw [← List.append_assoc]
    exact .snoc (h.neutral.append hneutral) (hsep d (by simp)) hd
  have hleft : Reveals names (s ++ (c :: sep ++ [d]) ++ t) := by
    rw [List.append_assoc]
    exact h.append (.cons hc _) ((Neutral.of_quoteless hsep).append h'.neutral)
  exact hleft.union (h'.prepend hopens)

end Reveals

/-! ### Data -/

/-- A character of a text of data is passed over as it is escaped. -/
theorem skips_escaped (c : Char) : Skips '"' (Json.escaped c) := by
  have hdigit : ∀ n < 16, Digit.lower n ≠ '"' ∧ Digit.lower n ≠ '\\' := by
    decide
  have hnamed : ∀ d, d ≠ '\n' → Skips '"' ['\\', d] := fun d hd => .escape (by decide) hd
  unfold Json.escaped
  split
  all_goals try exact hnamed _ (by decide)
  rename_i hquote hbackslash _ _ _ _ _
  split
  · rename_i hcontrol
    have hsmall : c.toNat < 32 := by
      simpa [UInt32.lt_iff_toNat_lt] using hcontrol
    have hdigits : Skips '"'
        ['0', '0', Digit.lower (c.toNat / 16), Digit.lower (c.toNat % 16)] := by
      refine .of_plain (fun d hd => ?_)
      simp only [List.mem_cons, List.not_mem_nil, or_false] at hd
      rcases hd with rfl | rfl | rfl | rfl
      · decide
      · decide
      · exact hdigit _ (by omega)
      · exact hdigit _ (by omega)
    exact (hnamed 'u' (by decide)).append hdigits
  · exact .plain hquote hbackslash

theorem neutral_stringChars (s : String) : Neutral (Json.stringChars s) :=
  .literal (.inr rfl) (.flatMap (fun c _ => skips_escaped c))

theorem neutral_number (n : Number) : Neutral n.chars := by
  have hplain : ∀ c : Char, c.isDigit = true ∨ c = '-' ∨ Decimal.isNumeral c = true →
      c ≠ '\'' ∧ c ≠ '"' := by
    intro c hc
    constructor
    · rintro rfl
      revert hc
      decide
    · rintro rfl
      revert hc
      decide
  obtain ⟨c, r, heq, hc, hr⟩ := isNumeral_numberChars n
  rw [heq]
  refine .of_quoteless (fun d hd => hplain d ?_)
  rcases List.mem_cons.1 hd with rfl | hd
  · exact hc.elim .inl (fun h => .inr (.inl h))
  · exact .inr (.inr (hr d hd))

theorem neutral_char {c : Char} (h : c ≠ '\'' ∧ c ≠ '"') : Neutral [c] :=
  .of_quoteless (by simpa [Quoteless] using h)

/-- A word of the language is neutral. -/
theorem neutral_word (word : String) (h : Quoteless word.toList := by decide) :
    Neutral word.toList :=
  .of_quoteless h

mutual

theorem neutral_compactChars : (v : Json) → Neutral (Json.compactChars v)
  | .null => .of_quoteless (by decide)
  | .bool true => .of_quoteless (by decide)
  | .bool false => .of_quoteless (by decide)
  | .number n => neutral_number n
  | .string s => neutral_stringChars s
  | .array items =>
    ((neutral_char (c := '[') (by decide)).append (neutral_compactItems items)).append
      (neutral_char (by decide))
  | .object members =>
    ((neutral_char (c := '\x7b') (by decide)).append (neutral_compactMembers members)).append
      (neutral_char (by decide))

theorem neutral_compactItems : (items : List Json) → Neutral (Json.compactItems items)
  | [] => .nil
  | [item] => neutral_compactChars item
  | item :: next :: rest =>
    (neutral_compactChars item).append
      ((neutral_char (c := ',') (by decide)).append (neutral_compactItems (next :: rest)))

theorem neutral_compactMembers : (members : List (String × Json)) →
    Neutral (Json.compactMembers members)
  | [] => .nil
  | [(name, value)] =>
    (neutral_stringChars name).append
      ((neutral_char (c := ':') (by decide)).append (neutral_compactChars value))
  | (name, value) :: next :: rest => by
    have hvalue := (neutral_char (c := ':') (by decide)).append (neutral_compactChars value)
    have hrest := (neutral_char (c := ',') (by decide)).append
      (neutral_compactMembers (next :: rest))
    have hall := ((neutral_stringChars name).append hvalue).append hrest
    simpa [Json.compactMembers] using hall

end

/-! ### Types -/

theorem neutral_literalChars (s : List Char) : Neutral (Text.literalChars s) :=
  .literal (.inl rfl) (.flatMap (fun c _ => skips_literalChar c))

/-- Letters, digits and the two marks of bare names are no quotes. -/
theorem quoteless_of_isFollowing {s : List Char} (h : ∀ c ∈ s, Name.isFollowing c = true) :
    Quoteless s :=
  fun c hc => (isBlank_of_isFollowing (h c hc)).2

theorem quoteless_of_isPlain {name : String} (h : Name.isPlain name = true) :
    Quoteless name.toList :=
  quoteless_of_isFollowing (isFollowing_of_isPlainChars h)

theorem neutral_keyChars (name : String) : Neutral (keyChars name) := by
  unfold keyChars
  split
  · rename_i h
    exact .of_quoteless (quoteless_of_isPlain h)
  · exact neutral_literalChars _

theorem quoteless_indentation (level : Nat) : Quoteless (indentation level) := by
  intro c hc
  rw [(List.mem_replicate.1 hc).2]
  decide

theorem quoteless_typeName (s : String) : Quoteless (Name.typeName s).toList := by
  obtain ⟨c, r, hchars, hc, hr⟩ := Name.exists_typeChars_eq s.toList
  rw [Name.typeName, String.toList_ofList, hchars]
  refine quoteless_of_isFollowing (List.forall_mem_cons.2 ⟨?_, ?_⟩)
  · rcases hc with hupper | rfl
    · exact isFollowing_of_isAlphanum (isAlphanum_of_isUpper hupper)
    · decide
  · exact fun d hd => isFollowing_of_isAlphanum (hr d hd)

open TypeExpr

variable {sources : List String}

theorem reveals_word (word : String) (h : Quoteless word.toList := by decide) :
    Reveals [] word.toList :=
  .nil (.of_quoteless h)

theorem reveals_ref {name : String} (h : (TypeExpr.ref name).Given sources) (level : Nat) :
    Reveals [name] ((TypeExpr.ref name).chars level) := by
  obtain ⟨r, -, rfl⟩ := h.names name List.mem_cons_self
  refine ⟨.of_quoteless (quoteless_typeName r), ?_⟩
  intro name hname hcap
  rw [List.mem_singleton.1 hname] at hcap ⊢
  exact shows_self hcap

theorem reveals_array {item : TypeExpr} {level : Nat}
    (h : Reveals item.refs (item.chars level)) :
    Reveals item.refs ((TypeExpr.array item).chars level) := by
  show Reveals item.refs (if item.isCompound then '(' :: item.chars level ++ ")[]".toList
    else item.chars level ++ "[]".toList)
  have hopens : Opens ['('] := .snoc .nil (by decide) (by decide)
  split
  · exact h.surround hopens (.cons (by decide) _) (.of_quoteless (by decide))
  · exact h.append (.cons (by decide) _) (.of_quoteless (by decide))

theorem reveals_record {value : TypeExpr} {level : Nat}
    (h : Reveals value.refs (value.chars level)) :
    Reveals value.refs ((TypeExpr.record value).chars level) := by
  have hopens : Opens ("Record<string,".toList ++ [' ']) :=
    .snoc (.of_quoteless (by decide)) (by decide) (by decide)
  exact h.surround hopens (.cons (by decide) []) (.of_quoteless (by decide))

/-- The member types of a given union or intersection are given. -/
theorem given_of_mem {members : List TypeExpr} (h : (TypeExpr.union members).Given sources) :
    ∀ t ∈ members, t.Given sources :=
  fun t ht => ⟨fun name hname => h.names name (mem_listRefs.2 ⟨t, ht, hname⟩),
    fun text htext => h.data text (mem_listLiterals.2 ⟨t, ht, htext⟩)⟩

theorem given_of_mem_fields {fields : List Field} (h : (TypeExpr.object fields).Given sources) :
    ∀ f ∈ fields, f.type.Given sources :=
  fun f hf => ⟨fun name hname => h.names name (mem_fieldRefs.2 ⟨f, hf, hname⟩),
    fun text htext => h.data text (mem_fieldLiterals.2 ⟨f, hf, htext⟩)⟩

/-- A factor of an intersection reveals what it does, in brackets or not. -/
theorem reveals_factor {factor : TypeExpr} {level : Nat}
    (h : Reveals factor.refs (factor.chars level)) :
    Reveals factor.refs
      (if factor.isUnion then '(' :: factor.chars level ++ [')'] else factor.chars level) := by
  have hopens : Opens ['('] := .snoc .nil (by decide) (by decide)
  split
  · exact h.surround hopens (.cons (by decide) []) (.of_quoteless (by decide))
  · exact h

/-- The line of a field, with lines behind it, reveals what its type does and
    what they do. -/
theorem reveals_field {name : String} {type : TypeExpr} {required : Bool} {level : Nat}
    {names : List String} {rest : List Char} (h : Reveals type.refs (type.chars level))
    (hrest : Reveals names rest) :
    Reveals (type.refs ++ names)
      (indentation level ++ keyChars name ++ (if required then [] else ['?']) ++ ": ".toList
        ++ type.chars level ++ ";\n".toList ++ rest) := by
  have hkey : Neutral (indentation level ++ keyChars name ++ (if required then [] else ['?'])
      ++ [':']) := by
    refine ((Neutral.append ?_ (neutral_keyChars name)).append ?_).append
      (neutral_char (by decide))
    · exact .of_quoteless (quoteless_indentation level)
    · exact .of_quoteless (by cases required <;> decide)
  have hopens : Opens (indentation level ++ keyChars name ++ (if required then [] else ['?'])
      ++ ": ".toList) := by
    have hsnoc := Opens.snoc (c := ' ') hkey (by decide) (by decide)
    rwa [List.append_assoc] at hsnoc
  exact (h.prepend hopens).separate hrest ';' [] '\n' (by decide) (by decide) (by decide)

mutual

/-- **Types reveal their names**: in the text of a given type quotes have their
    partners, and every capitalized name stands delimited. -/
theorem reveals_chars : (type : TypeExpr) → type.Given sources → (level : Nat) →
    Reveals type.refs (type.chars level)
  | .string, _, _ => reveals_word "string"
  | .number, _, _ => reveals_word "number"
  | .boolean, _, _ => reveals_word "boolean"
  | .unknown, _, _ => reveals_word "unknown"
  | .any, _, _ => reveals_word "any"
  | .stringLiteral text, _, _ => .nil (neutral_literalChars text.toList)
  | .literal text, h, _ => by
    obtain ⟨v, -, rfl⟩ := h.data text List.mem_cons_self
    refine .nil ?_
    show Neutral v.compact.toList
    rw [Json.compact, String.toList_ofList]
    exact neutral_compactChars v
  | .ref name, h, level => reveals_ref h level
  | .array item, h, level => reveals_array (reveals_chars item ⟨h.names, h.data⟩ level)
  | .record value, h, level => reveals_record (reveals_chars value ⟨h.names, h.data⟩ level)
  | .object [], _, _ => reveals_word "\x7b\x7d"
  | .object (f :: fields), h, level => by
    have hfields := reveals_fieldsChars (f :: fields) (given_of_mem_fields h) (level + 1)
    have hopens : Opens ("\x7b".toList ++ ['\n']) :=
      .snoc (.of_quoteless (by decide)) (by decide) (by decide)
    have hend : Quoteless (indentation level ++ ['\x7d']) :=
      (quoteless_indentation level).append (by decide)
    have hcloses : Closes (indentation level ++ ['\x7d']) := by
      unfold indentation
      cases 2 * level with
      | zero => exact .cons (by decide) []
      | succ n => exact .cons (by decide) _
    have hall := hfields.surround hopens hcloses (.of_quoteless hend)
    rwa [← List.append_assoc] at hall
  | .union [], _, _ => reveals_word "never"
  | .union (member :: members), h, level =>
    reveals_unionChars (member :: members) (given_of_mem h) level
  | .intersection [], _, _ => reveals_word "never"
  | .intersection (member :: members), h, level =>
    reveals_intersectionChars (member :: members) (given_of_mem ⟨h.names, h.data⟩) level

theorem reveals_unionChars : (members : List TypeExpr) → (∀ t ∈ members, t.Given sources) →
    (level : Nat) → Reveals (listRefs members) (unionChars level members)
  | [], _, _ => .nil .nil
  | [member], h, level => by
    show Reveals (member.refs ++ []) (member.chars level)
    rw [List.append_nil]
    exact reveals_chars member (h member List.mem_cons_self) level
  | member :: next :: rest, h, level =>
    (reveals_chars member (h member List.mem_cons_self) level).separate
      (reveals_unionChars (next :: rest) (fun t ht => h t (List.mem_cons_of_mem _ ht)) level)
      ' ' ['|'] ' ' (by decide) (by decide) (by decide)

theorem reveals_intersectionChars : (factors : List TypeExpr) → (∀ t ∈ factors, t.Given sources) →
    (level : Nat) → Reveals (listRefs factors) (intersectionChars level factors)
  | [], _, _ => .nil .nil
  | [factor], h, level => by
    show Reveals (factor.refs ++ []) (if factor.isUnion then _ else _)
    rw [List.append_nil]
    exact reveals_factor (reveals_chars factor (h factor List.mem_cons_self) level)
  | factor :: next :: rest, h, level =>
    (reveals_factor (reveals_chars factor (h factor List.mem_cons_self) level)).separate
      (reveals_intersectionChars (next :: rest) (fun t ht => h t (List.mem_cons_of_mem _ ht)) level)
      ' ' ['&'] ' ' (by decide) (by decide) (by decide)

/-- The lines of fields reveal the names of their types. -/
theorem reveals_fieldsChars : (fields : List Field) → (∀ f ∈ fields, f.type.Given sources) →
    (level : Nat) → Reveals (fieldRefs fields) (fieldsChars level fields)
  | [], _, _ => .nil .nil
  | ⟨_, type, _, _⟩ :: rest, h, level =>
    reveals_field (reveals_chars type (h _ List.mem_cons_self) level)
      (reveals_fieldsChars rest (fun f hf => h f (List.mem_cons_of_mem _ hf)) level)

end

end TypedClient.Scan
