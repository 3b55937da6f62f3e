import TypedClient.Json.Printer
import TypedClient.Proofs.TypeReader

/-! # Data inside types

    A value of data that stands for a type is written without blanks. A reader
    of types takes it as a single operand:

    * **Numbers** are made of the characters of numbers.
    * **Lists and objects** end at the bracket that closes the first one, since
      texts hide their brackets and all other brackets come in pairs.
-/

namespace TypedClient

/-! ### Numbers -/

namespace Decimal

theorem isDigit_of_mem_natChars {n : Nat} {c : Char} (h : c ∈ natChars n) : c.isDigit = true :=
  Nat.isDigit_of_mem_toDigits (by decide) (by decide) h

theorem isNumeral_of_isDigit {c : Char} (h : c.isDigit = true) : isNumeral c = true := by
  simp [isNumeral, h]

/-- Digits, and characters of numbers behind them, are a number. -/
theorem IsNumeral.of_digits {a b : List Char} (hne : a ≠ []) (ha : ∀ c ∈ a, c.isDigit = true)
    (hb : ∀ c ∈ b, isNumeral c = true) : IsNumeral (a ++ b) := by
  cases a with
  | nil => exact absurd rfl hne
  | cons c r =>
    refine ⟨c, r ++ b, rfl, .inl (ha c List.mem_cons_self), ?_⟩
    intro d hd
    rcases List.mem_append.1 hd with hr | hb'
    · exact isNumeral_of_isDigit (ha d (List.mem_cons_of_mem c hr))
    · exact hb d hb'

/-- A minus sign in front of a number makes a number. -/
theorem IsNumeral.minus {a : List Char} (h : IsNumeral a) : IsNumeral ('-' :: a) := by
  obtain ⟨c, r, rfl, hc, hr⟩ := h
  refine ⟨'-', c :: r, rfl, .inr rfl, ?_⟩
  intro d hd
  rcases List.mem_cons.1 hd with rfl | hd
  · rcases hc with hdigit | rfl
    · exact isNumeral_of_isDigit hdigit
    · decide
  · exact hr d hd

theorem isNumeral_natChars (n : Nat) : IsNumeral (natChars n) := by
  have h := IsNumeral.of_digits (b := []) Nat.toDigits_ne_nil
    (fun c hc => isDigit_of_mem_natChars (n := n) hc) (by simp)
  simpa [natChars] using h

theorem isNumeral_intChars (i : Int) : IsNumeral (intChars i) := by
  cases i with
  | ofNat n => exact isNumeral_natChars n
  | negSucc n => exact (isNumeral_natChars (n + 1)).minus

theorem isNumeral_positional {digits : List Char} (hne : digits ≠ [])
    (hd : ∀ c ∈ digits, c.isDigit = true) (point : Int) :
    IsNumeral (positional digits point) := by
  have hzeros : ∀ n, ∀ c ∈ List.replicate n '0', c.isDigit = true := by
    intro n c hc
    rw [(List.mem_replicate.1 hc).2]
    decide
  unfold positional
  split
  · refine ⟨'0', '.' :: (List.replicate (-point).toNat '0' ++ digits), rfl, .inl (by decide), ?_⟩
    intro c hc
    rcases List.mem_cons.1 hc with rfl | hc
    · decide
    · rcases List.mem_append.1 hc with hz | hdig
      · exact isNumeral_of_isDigit (hzeros _ c hz)
      · exact isNumeral_of_isDigit (hd c hdig)
  · split
    · refine IsNumeral.of_digits (by simp [hne]) ?_ (by decide)
      intro c hc
      rcases List.mem_append.1 hc with hdig | hz
      · exact hd c hdig
      · exact hzeros _ c hz
    · rename_i hpoint _
      refine IsNumeral.of_digits ?_ (fun c hc => hd c (List.mem_of_mem_take hc)) ?_
      · intro hnil
        rcases List.take_eq_nil_iff.1 hnil with h | h
        · omega
        · exact hne h
      · intro c hc
        rcases List.mem_cons.1 hc with rfl | hdrop
        · decide
        · exact isNumeral_of_isDigit (hd c (List.mem_of_mem_drop hdrop))

/-- Digits written with a power of ten are a number. -/
theorem isNumeral_scientific {digits : List Char} (hne : digits ≠ [])
    (hd : ∀ c ∈ digits, c.isDigit = true) (power : Int) :
    IsNumeral (scientific digits power) := by
  have hpower : ∀ c ∈ 'e' :: (if power < 0 then '-' else '+') :: natChars power.natAbs,
      isNumeral c = true := by
    intro c hc
    rcases List.mem_cons.1 hc with rfl | hc
    · decide
    · rcases List.mem_cons.1 hc with rfl | hc
      · split <;> decide
      · exact isNumeral_of_isDigit (isDigit_of_mem_natChars hc)
  cases digits with
  | nil => exact absurd rfl hne
  | cons d r =>
    have hfirst : ∀ c ∈ [d], c.isDigit = true := by
      intro c hc
      exact hd c (List.mem_singleton.1 hc ▸ List.mem_cons_self)
    cases r with
    | nil => exact IsNumeral.of_digits (by simp) hfirst hpower
    | cons e t =>
      refine IsNumeral.of_digits (a := [d]) (b := '.' :: (e :: t) ++ _) (by simp) hfirst ?_
      intro c hc
      rcases List.mem_append.1 hc with hc | hc
      · rcases List.mem_cons.1 hc with rfl | hc
        · decide
        · exact isNumeral_of_isDigit (hd c (List.mem_cons_of_mem d hc))
      · exact hpower c hc

theorem isNumeral_dataText (x : Float) : IsNumeral (dataText x) := by
  have hdigits : (parts x).2.1 ≠ [] ∧ ∀ c ∈ (parts x).2.1, c.isDigit = true := by
    by_cases hzero : (magnitude x).1 = 0
    · simp only [parts, if_pos hzero]
      decide
    · simp only [parts, if_neg hzero]
      exact ⟨Nat.toDigits_ne_nil, fun c hc => isDigit_of_mem_natChars hc⟩
  have hsign : (parts x).1 = [] ∨ (parts x).1 = ['-'] := by
    by_cases hzero : (magnitude x).1 = 0
    · simp only [parts, if_pos hzero]
      split <;> simp
    · simp only [parts, if_neg hzero]
      split <;> simp
  have hbody : IsNumeral (if -5 < (parts x).2.2 && (parts x).2.2 ≤ 16
      then positional (parts x).2.1 (parts x).2.2
      else scientific (parts x).2.1 ((parts x).2.2 - 1)) := by
    split
    · exact isNumeral_positional hdigits.1 hdigits.2 _
    · exact isNumeral_scientific hdigits.1 hdigits.2 _
  show IsNumeral ((parts x).1 ++ _)
  rcases hsign with h | h
  · rw [h]
    exact hbody
  · rw [h]
    exact hbody.minus

end Decimal

theorem isNumeral_numberChars (n : Number) : Decimal.IsNumeral n.chars := by
  cases n with
  | int i => exact Decimal.isNumeral_intChars i
  | float x => exact Decimal.isNumeral_dataText x

namespace TypeReader

open Literal (precede precede_precede)

/-! ### Passing over values -/

/-- A reader of data passes over a text if it stands behind it as it stood in
    front of it. -/
def Passes (mode : DataMode) (depth : Nat) (a : List Char) : Prop :=
  ∀ rest, dataFrom mode depth (a ++ rest) = precede a (dataFrom mode depth rest)

theorem Passes.append {mode : DataMode} {depth : Nat} {a b : List Char}
    (ha : Passes mode depth a) (hb : Passes mode depth b) : Passes mode depth (a ++ b) := by
  intro rest
  rw [List.append_assoc, ha, hb, precede_precede]

theorem Passes.flatMap {α : Type} {mode : DataMode} {depth : Nat} {f : α → List Char} {l : List α}
    (h : ∀ a ∈ l, Passes mode depth (f a)) : Passes mode depth (l.flatMap f) := by
  induction l with
  | nil =>
    intro rest
    cases hd : dataFrom mode depth rest <;> simp [precede, hd]
  | cons a r ih =>
    rw [List.flatMap_cons]
    exact (h a List.mem_cons_self).append (ih (fun b hb => h b (List.mem_cons_of_mem a hb)))

/-- A character that is no quote and no bracket is passed over outside of texts. -/
theorem passes_plain {depth : Nat} {c : Char} (h : c ∉ "\"[]\x7b\x7d".toList) :
    Passes .outside depth [c] := by
  intro rest
  have hc : c ≠ '"' ∧ ¬ (c = '[' ∨ c = '\x7b') ∧ ¬ (c = ']' ∨ c = '\x7d') := by
    refine ⟨?_, ?_, ?_⟩
    · rintro rfl; exact h (by decide)
    · rintro (rfl | rfl) <;> exact h (by decide)
    · rintro (rfl | rfl) <;> exact h (by decide)
  show dataFrom .outside depth (c :: rest) = precede [c] (dataFrom .outside depth rest)
  rw [dataFrom, if_neg hc.1, if_neg hc.2.1, if_neg hc.2.2]

/-- A text without quotes and brackets is passed over outside of texts. -/
theorem passes_of_plain {depth : Nat} {a : List Char}
    (h : ∀ c ∈ a, c ∉ "\"[]\x7b\x7d".toList) : Passes .outside depth a := by
  have hpass : Passes .outside depth (a.flatMap (fun c => [c])) :=
    Passes.flatMap (fun c hc => passes_plain (h c hc))
  simpa using hpass

/-- A character of a text is passed over inside of it, as it is escaped. -/
theorem passes_escaped (depth : Nat) (c : Char) : Passes .quoted depth (Json.escaped c) := by
  have hdigit : ∀ n < 16, DataMode.inText (Digit.lower n) = .quoted := by
    decide
  have hnamed : ∀ d rest, dataFrom .quoted depth ('\\' :: d :: rest)
      = precede ['\\', d] (dataFrom .quoted depth rest) := by
    intro d rest
    exact precede_precede ['\\'] [d] _
  intro rest
  unfold Json.escaped
  split
  all_goals try exact hnamed _ rest
  rename_i hquote hbackslash _ _ _ _ _
  split
  · rename_i hcontrol
    have hsmall : c.toNat < 32 := by
      simpa [UInt32.lt_iff_toNat_lt] using hcontrol
    show dataFrom .quoted depth ('\\' :: 'u' :: '0' :: '0' :: Digit.lower (c.toNat / 16)
      :: Digit.lower (c.toNat % 16) :: rest) = _
    have hzero : DataMode.inText '0' = .quoted := rfl
    rw [hnamed, dataFrom, hzero, dataFrom, hzero, dataFrom, hdigit _ (by omega), dataFrom,
      hdigit _ (by omega)]
    simp only [precede_precede, List.cons_append, List.nil_append]
  · have hmode : DataMode.inText c = .quoted := by
      rw [DataMode.inText, if_neg hbackslash, if_neg hquote]
    show dataFrom .quoted depth (c :: rest) = precede [c] (dataFrom .quoted depth rest)
    rw [dataFrom, hmode]

theorem passes_stringChars (depth : Nat) (s : String) :
    Passes .outside depth (Json.stringChars s) := by
  intro rest
  have hinside := Passes.flatMap (l := s.toList) (fun c _ => passes_escaped depth c)
  show precede ['"'] (dataFrom .quoted depth (s.toList.flatMap Json.escaped ++ ['"'] ++ rest)) = _
  rw [List.append_assoc, hinside]
  show precede ['"'] (precede _ (precede ['"'] (dataFrom .outside depth rest))) = _
  rw [precede_precede, precede_precede]
  rfl

/-- What stands between two brackets is passed over together with them. -/
theorem passes_brackets {depth : Nat} {opening closing : Char} {a : List Char}
    (hopen : opening = '[' ∧ closing = ']' ∨ opening = '\x7b' ∧ closing = '\x7d')
    (ha : Passes .outside (depth + 2) a) :
    Passes .outside (depth + 1) (opening :: a ++ [closing]) := by
  intro rest
  have hleft : dataFrom .outside (depth + 1) (opening :: (a ++ closing :: rest))
      = precede [opening] (dataFrom .outside (depth + 2) (a ++ closing :: rest)) := by
    rcases hopen with ⟨rfl, rfl⟩ | ⟨rfl, rfl⟩ <;> rfl
  have hright : dataFrom .outside (depth + 2) (closing :: rest)
      = precede [closing] (dataFrom .outside (depth + 1) rest) := by
    rcases hopen with ⟨rfl, rfl⟩ | ⟨rfl, rfl⟩ <;> rfl
  have hlist : opening :: a ++ [closing] ++ rest = opening :: (a ++ closing :: rest) := by simp
  rw [hlist, hleft, ha, hright, precede_precede, precede_precede]
  rfl

theorem passes_number (depth : Nat) (n : Number) : Passes .outside depth n.chars := by
  have hplain : ∀ c, c.isDigit = true ∨ c = '-' ∨ Decimal.isNumeral c = true →
      c ∉ "\"[]\x7b\x7d".toList := by
    intro c hc hmem
    have hnone : ∀ d ∈ "\"[]\x7b\x7d".toList,
        ¬ (d.isDigit = true ∨ d = '-' ∨ Decimal.isNumeral d = true) := by
      decide
    exact hnone c hmem hc
  obtain ⟨c, r, heq, hc, hr⟩ := isNumeral_numberChars n
  rw [heq]
  refine passes_of_plain (fun d hd => hplain d ?_)
  rcases List.mem_cons.1 hd with rfl | hd
  · exact hc.elim .inl (fun h => .inr (.inl h))
  · exact .inr (.inr (hr d hd))

mutual

/-- A value is passed over where a bracket is open. -/
theorem passes_compactChars (depth : Nat) : (v : Json) →
    Passes .outside (depth + 1) (Json.compactChars v)
  | .null => passes_of_plain (by decide)
  | .bool true => passes_of_plain (by decide)
  | .bool false => passes_of_plain (by decide)
  | .number n => passes_number (depth + 1) n
  | .string s => passes_stringChars (depth + 1) s
  | .array items => passes_brackets (.inl ⟨rfl, rfl⟩) (passes_compactItems (depth + 1) items)
  | .object members =>
    passes_brackets (.inr ⟨rfl, rfl⟩) (passes_compactMembers (depth + 1) members)

theorem passes_compactItems (depth : Nat) : (items : List Json) →
    Passes .outside (depth + 1) (Json.compactItems items)
  | [] => passes_of_plain (by simp [Json.compactItems])
  | [item] => passes_compactChars depth item
  | item :: next :: rest =>
    (passes_compactChars depth item).append
      (Passes.append (a := [',']) (passes_plain (by decide))
        (passes_compactItems depth (next :: rest)))

theorem passes_compactMembers (depth : Nat) : (members : List (String × Json)) →
    Passes .outside (depth + 1) (Json.compactMembers members)
  | [] => passes_of_plain (by simp [Json.compactMembers])
  | [(name, value)] =>
    (passes_stringChars (depth + 1) name).append
      (Passes.append (a := [':']) (passes_plain (by decide)) (passes_compactChars depth value))
  | (name, value) :: next :: rest => by
    have hcolon : Passes .outside (depth + 1) ([':'] ++ Json.compactChars value) :=
      Passes.append (passes_plain (by decide)) (passes_compactChars depth value)
    have hcomma : Passes .outside (depth + 1) ([','] ++ Json.compactMembers (next :: rest)) :=
      Passes.append (passes_plain (by decide)) (passes_compactMembers depth (next :: rest))
    have hall := ((passes_stringChars (depth + 1) name).append hcolon).append hcomma
    simpa [Json.compactMembers] using hall

end

/-! ### Reading values -/

/-- The first bracket of a value is closed by its last one. -/
theorem dataFrom_brackets {opening closing : Char} {a rest : List Char}
    (hopen : opening = '[' ∧ closing = ']' ∨ opening = '\x7b' ∧ closing = '\x7d')
    (ha : Passes .outside 1 a) :
    dataFrom .outside 0 (opening :: a ++ closing :: rest)
      = some (opening :: a ++ [closing], rest) := by
  have hleft : dataFrom .outside 0 (opening :: (a ++ closing :: rest))
      = precede [opening] (dataFrom .outside 1 (a ++ closing :: rest)) := by
    rcases hopen with ⟨rfl, rfl⟩ | ⟨rfl, rfl⟩ <;> rfl
  have hright : dataFrom .outside 1 (closing :: rest) = some ([closing], rest) := by
    rcases hopen with ⟨rfl, rfl⟩ | ⟨rfl, rfl⟩ <;> rfl
  show dataFrom .outside 0 (opening :: (a ++ closing :: rest)) = _
  rw [hleft, ha, hright]
  rfl

theorem head?_compactChars (v : Json) (rest : List Char) :
    (Json.compactChars v ++ rest).head? ≠ some ']' := by
  cases v with
  | bool b => cases b <;> simp [Json.compactChars]
  | number n =>
    obtain ⟨c, r, heq, hc, -⟩ := isNumeral_numberChars n
    simp only [Json.compactChars, heq, List.cons_append, List.head?_cons]
    intro h
    obtain rfl := Option.some.inj h
    rcases hc with hdigit | hminus
    · exact absurd hdigit (by decide)
    · exact absurd hminus (by decide)
  | null => simp [Json.compactChars]
  | string s => simp [Json.compactChars, Json.stringChars]
  | array items => simp [Json.compactChars]
  | object members => simp [Json.compactChars]

/-- The type that the text of a value is read as. An object without members is an
    object without fields. -/
def dataType : Json → TypeExpr
  | .object [] => .object []
  | v => .literal v.compact

theorem readFrom_items {s s' : State} {item : Json} {items : List Json} {rest : List Char}
    (hs : step s (.data (Json.compactChars (.array (item :: items)))) = some s') :
    readFrom s (Json.compactChars (.array (item :: items)) ++ rest) = readFrom s' rest := by
  have hhead : (Json.compactItems (item :: items) ++ ']' :: rest).head? ≠ some ']' := by
    cases items with
    | nil => exact head?_compactChars item _
    | cons next more =>
      simp only [Json.compactItems, List.append_assoc]
      exact head?_compactChars item _
  have hdata : dataFrom .outside 0 ('[' :: Json.compactItems (item :: items) ++ ']' :: rest)
      = some ('[' :: Json.compactItems (item :: items) ++ [']'], rest) :=
    dataFrom_brackets (.inl ⟨rfl, rfl⟩) (passes_compactItems 0 (item :: items))
  refine readFrom_token (c := '[') (r := Json.compactItems (item :: items) ++ [']'] ++ rest)
    (by decide) ?_ hs
  rw [List.append_assoc]
  show next ('[' :: (Json.compactItems (item :: items) ++ ']' :: rest)) = _
  rw [next, if_neg (by decide), if_neg (by decide), if_neg (by decide),
    if_neg (fun h => hhead h.2), if_pos (.inl rfl)]
  exact congrArg _ hdata

theorem readFrom_members {s s' : State} {member : String × Json} {members : List (String × Json)}
    {rest : List Char}
    (hs : step s (.data (Json.compactChars (.object (member :: members)))) = some s') :
    readFrom s (Json.compactChars (.object (member :: members)) ++ rest) = readFrom s' rest := by
  have hhead : (Json.compactMembers (member :: members) ++ '\x7d' :: rest).head? = some '"' := by
    obtain ⟨name, value⟩ := member
    cases members <;> simp [Json.compactMembers, Json.stringChars]
  have hdata : dataFrom .outside 0
        ('\x7b' :: Json.compactMembers (member :: members) ++ '\x7d' :: rest)
      = some ('\x7b' :: Json.compactMembers (member :: members) ++ ['\x7d'], rest) :=
    dataFrom_brackets (.inr ⟨rfl, rfl⟩) (passes_compactMembers 0 (member :: members))
  refine readFrom_token (c := '\x7b')
    (r := Json.compactMembers (member :: members) ++ ['\x7d'] ++ rest) (by decide) ?_ hs
  rw [List.append_assoc]
  show next ('\x7b' :: (Json.compactMembers (member :: members) ++ '\x7d' :: rest)) = _
  rw [next, if_neg (by decide), if_neg (by decide), if_neg (by decide),
    if_neg (fun h => absurd h.1 (by decide)), if_pos (.inr ⟨rfl, hhead⟩)]
  exact congrArg _ hdata

/-- The text of a value that is no text is read as one operand. -/
theorem readFrom_data (frames : List Frame) (p : Unfinished) {v : Json}
    (hv : ∀ s, v ≠ .string s) {rest : List Char} (hrest : Stops rest) :
    readFrom ⟨frames, .operand p⟩ (Json.compactChars v ++ rest)
      = readFrom ⟨frames, .behind p (dataType v)⟩ rest := by
  cases v with
  | null => exact readFrom_word (c := 'n') (r := "ull".toList) (by decide) (by decide) hrest rfl
  | bool b =>
    cases b with
    | true => exact readFrom_word (c := 't') (r := "rue".toList) (by decide) (by decide) hrest rfl
    | false => exact readFrom_word (c := 'f') (r := "alse".toList) (by decide) (by decide) hrest rfl
  | number n => exact readFrom_number (isNumeral_numberChars n) hrest rfl
  | string s => exact absurd rfl (hv s)
  | array items =>
    cases items with
    | nil => exact readFrom_brackets rfl
    | cons item items => exact readFrom_items rfl
  | object members =>
    cases members with
    | nil =>
      calc readFrom ⟨frames, .operand p⟩ ('\x7b' :: '\x7d' :: rest)
          = readFrom ⟨frames, .key p []⟩ ('\x7d' :: rest) :=
            readFrom_mark (by decide) (fun _ => by simp) rfl
        _ = readFrom ⟨frames, .behind p (.object [])⟩ rest :=
            readFrom_mark (by decide) (fun h => absurd h (by decide)) rfl
    | cons member members => exact readFrom_members rfl

end TypeReader

end TypedClient
