import TypedClient.Name.Identifier
import TypedClient.Proofs.Characters
import TypedClient.Proofs.LiteralReading
import TypedClient.Text.Blank
import TypedClient.TypeExpr.Basic

/-! # Reading types

    What the language makes of the text of a type, token by token.

    * **Tokens**: names, literals, data and marks; blanks between them mean
      nothing.
    * **Precedence**: `[]` binds tighter than `&`, and `&` tighter than `|`;
      round brackets group.
    * **One pass**: the brackets that are open stand on a stack, each with what
      was read in front of it, so nothing is read twice.
-/

namespace TypedClient.TypeReader

open Literal (precede exists_of_precede)

/-! ### Tokens -/

/-- The smallest pieces of the text of a type. -/
inductive Token where
  /-- A name or a keyword. -/
  | word (text : List Char)
  /-- A text between single quotes, by its value. -/
  | text (value : List Char)
  /-- A number, or a list or an object of data, as it is written. -/
  | data (text : List Char)
  /-- Two square brackets with nothing between them. -/
  | brackets
  | mark (c : Char)

/-- Where a reader of data stands. -/
inductive DataMode where
  | outside
  | quoted
  /-- Behind a backslash inside a text. -/
  | escaped
  deriving DecidableEq

/-- Where a reader of data stands behind a character of a text. -/
def DataMode.inText (c : Char) : DataMode :=
  if c = '\\' then .escaped else if c = '"' then .outside else .quoted

/-- Reads data up to the bracket that closes the first one; `depth` counts the
    brackets that are open. -/
def dataFrom : DataMode → Nat → List Char → Option (List Char × List Char)
  | _, _, [] => none
  | .escaped, depth, c :: r => precede [c] (dataFrom .quoted depth r)
  | .quoted, depth, c :: r => precede [c] (dataFrom (.inText c) depth r)
  | .outside, depth, c :: r =>
    if c = '"' then precede [c] (dataFrom .quoted depth r)
    else if c = '[' ∨ c = '\x7b' then precede [c] (dataFrom .outside (depth + 1) r)
    else if c = ']' ∨ c = '\x7d' then
      if depth ≤ 1 then some ([c], r) else precede [c] (dataFrom .outside (depth - 1) r)
    else precede [c] (dataFrom .outside depth r)

/-- The marks that may stand between names. -/
def marks : List Char :=
  "|&()<>\x7b\x7d,:;?".toList

/-- The first token of a text that starts with no blank, and what stands behind
    it. -/
def next : List Char → Option (Token × List Char)
  | [] => none
  | c :: r =>
    if c = '\'' then (Literal.read r).map (fun x => (.text x.1, x.2))
    else if Name.isInitial c then
      some (.word (c :: r.takeWhile Name.isFollowing), r.dropWhile Name.isFollowing)
    else if c.isDigit || c == '-' then
      some (.data (c :: r.takeWhile Decimal.isNumeral), r.dropWhile Decimal.isNumeral)
    else if c = '[' ∧ r.head? = some ']' then some (.brackets, r.tail)
    -- An object of data starts with the quote of its first name, a type never does.
    else if c = '[' ∨ (c = '\x7b' ∧ r.head? = some '"') then
      (dataFrom .outside 0 (c :: r)).map (fun x => (.data x.1, x.2))
    else if c ∈ marks then some (.mark c, r)
    else none

/-! ### Tokens are not empty -/

/-- Behind data there is less text than in front of it. -/
theorem length_dataFrom_lt {mode : DataMode} {depth : Nat} {s text rest : List Char}
    (h : dataFrom mode depth s = some (text, rest)) : rest.length < s.length := by
  induction s generalizing mode depth text rest with
  | nil => simp [dataFrom] at h
  | cons c r ih =>
    have hstep : ∀ {m d}, precede [c] (dataFrom m d r) = some (text, rest) →
        rest.length < (c :: r).length := by
      intro m d hp
      obtain ⟨v, hr, -⟩ := exists_of_precede hp
      have := ih hr
      simp only [List.length_cons]
      omega
    cases mode with
    | escaped => exact hstep h
    | quoted => exact hstep h
    | outside =>
      rw [dataFrom] at h
      split at h
      · exact hstep h
      · split at h
        · exact hstep h
        · split at h
          · split at h
            · simp at h; simp [h]
            · exact hstep h
          · exact hstep h

/-- Behind a token there is less text than in front of it. -/
theorem length_next_lt {s rest : List Char} {token : Token} (h : next s = some (token, rest)) :
    rest.length < s.length := by
  cases s with
  | nil => simp [next] at h
  | cons c r =>
    have hdrop : ∀ p : Char → Bool, (r.dropWhile p).length < (c :: r).length := fun p =>
      Nat.lt_succ_of_le (List.dropWhile_sublist p).length_le
    rw [next] at h
    split at h
    · obtain ⟨⟨v, t⟩, hr, ht⟩ := Option.map_eq_some_iff.1 h
      have := Literal.length_read_lt hr
      simp only [Prod.mk.injEq] at ht
      simp only [List.length_cons, ← ht.2]
      omega
    · split at h
      · simp only [Option.some.injEq, Prod.mk.injEq] at h
        exact h.2 ▸ hdrop _
      · split at h
        · simp only [Option.some.injEq, Prod.mk.injEq] at h
          exact h.2 ▸ hdrop _
        · split at h
          · simp only [Option.some.injEq, Prod.mk.injEq] at h
            rw [← h.2, List.length_tail, List.length_cons]
            omega
          · split at h
            · obtain ⟨⟨v, t⟩, hr, ht⟩ := Option.map_eq_some_iff.1 h
              simp only [Prod.mk.injEq] at ht
              exact ht.2 ▸ length_dataFrom_lt hr
            · split at h
              · simp only [Option.some.injEq, Prod.mk.injEq] at h
                rw [← h.2]
                simp
              · simp at h

/-! ### Precedence -/

/-- What stands in front of an operand between two brackets: the members of the
    union so far, and the factors of its last member so far. -/
structure Unfinished where
  /-- The members of the union that are complete. -/
  members : List TypeExpr := []
  /-- The factors of the intersection that is not. -/
  factors : List TypeExpr := []

/-- The union of members; a single one stands for itself. -/
def unionOf : List TypeExpr → TypeExpr
  | [member] => member
  | members => .union members

/-- The intersection of factors; a single one stands for itself. -/
def intersectionOf : List TypeExpr → TypeExpr
  | [factor] => factor
  | factors => .intersection factors

/-- The type that ends with an operand. -/
def Unfinished.value (p : Unfinished) (last : TypeExpr) : TypeExpr :=
  unionOf (p.members ++ [intersectionOf (p.factors ++ [last])])

/-- An open bracket, with what stands in front of it. -/
inductive Frame where
  | group (outer : Unfinished)
  /-- The angle bracket of a record. -/
  | record (outer : Unfinished)
  /-- The brace of an object, up to the colon of a field. -/
  | field (outer : Unfinished) (before : List Field) (name : String) (required : Bool)

/-- What has to come next. -/
inductive Mode where
  | operand (p : Unfinished)
  /-- Whatever may stand behind an operand. -/
  | behind (p : Unfinished) (last : TypeExpr)
  /-- The keys of a record. -/
  | recordKeys
  /-- The comma of a record. -/
  | recordComma
  /-- The key of a field, or the end of the object. -/
  | key (outer : Unfinished) (before : List Field)
  /-- A question mark or a colon. -/
  | behindKey (outer : Unfinished) (before : List Field) (name : String)
  | behindMark (outer : Unfinished) (before : List Field) (name : String)

/-- A reader between two tokens: the open brackets, the innermost first, and what
    has to come next. -/
structure State where
  frames : List Frame
  /-- What has to come next. -/
  mode : Mode

/-- The type that a single word names. -/
def wordType : String → TypeExpr
  | "string" => .string
  | "number" => .number
  | "boolean" => .boolean
  | "unknown" => .unknown
  | "any" => .any
  -- No value at all is the union of no types.
  | "never" => .union []
  | "true" => .literal "true"
  | "false" => .literal "false"
  | "null" => .literal "null"
  | name => .ref name

/-- Reads a token where an operand has to come. -/
def operandStep (frames : List Frame) (p : Unfinished) : Token → Option State
  | .word w => some ⟨frames, .behind p (wordType (String.ofList w))⟩
  | .text s => some ⟨frames, .behind p (.stringLiteral (String.ofList s))⟩
  | .data d => some ⟨frames, .behind p (.literal (String.ofList d))⟩
  | .brackets => some ⟨frames, .behind p (.literal "[]")⟩
  | .mark '(' => some ⟨.group p :: frames, .operand {}⟩
  | .mark '\x7b' => some ⟨frames, .key p []⟩
  | .mark _ => none

/-- Reads a mark behind an operand. -/
def markStep (frames : List Frame) (p : Unfinished) (last : TypeExpr) : Char → Option State
  | '&' => some ⟨frames, .operand ⟨p.members, p.factors ++ [last]⟩⟩
  | '|' => some ⟨frames, .operand ⟨p.members ++ [intersectionOf (p.factors ++ [last])], []⟩⟩
  | '<' =>
    match last with
    | .ref "Record" => some ⟨.record p :: frames, .recordKeys⟩
    | _ => none
  | ')' =>
    match frames with
    | .group outer :: rest => some ⟨rest, .behind outer (p.value last)⟩
    | _ => none
  | '>' =>
    match frames with
    | .record outer :: rest => some ⟨rest, .behind outer (.record (p.value last))⟩
    | _ => none
  | ';' =>
    match frames with
    | .field outer before name required :: rest =>
      some ⟨rest, .key outer (before ++ [⟨name, p.value last, required, none⟩])⟩
    | _ => none
  | _ => none

/-- Reads a token. -/
def step (s : State) (token : Token) : Option State :=
  match s.mode, token with
  | .operand p, token => operandStep s.frames p token
  | .behind p last, .brackets => some ⟨s.frames, .behind p (.array last)⟩
  | .behind p last, .mark c => markStep s.frames p last c
  | .recordKeys, .word w => if w = "string".toList then some ⟨s.frames, .recordComma⟩ else none
  | .recordComma, .mark ',' => some ⟨s.frames, .operand {}⟩
  | .key outer before, .word w => some ⟨s.frames, .behindKey outer before (String.ofList w)⟩
  | .key outer before, .text w => some ⟨s.frames, .behindKey outer before (String.ofList w)⟩
  | .key outer before, .mark '\x7d' => some ⟨s.frames, .behind outer (.object before)⟩
  | .behindKey outer before name, .mark '?' => some ⟨s.frames, .behindMark outer before name⟩
  | .behindKey outer before name, .mark ':' =>
    some ⟨.field outer before name true :: s.frames, .operand {}⟩
  | .behindMark outer before name, .mark ':' =>
    some ⟨.field outer before name false :: s.frames, .operand {}⟩
  | _, _ => none

/-- The type that is read when the text ends. -/
def State.result? (s : State) : Option TypeExpr :=
  match s.frames, s.mode with
  | [], .behind p last => some (p.value last)
  | _, _ => none

/-- Reads the rest of a text. -/
def readFrom (s : State) (text : List Char) : Option TypeExpr :=
  match text with
  | [] => s.result?
  | c :: r =>
    if Text.isBlank c then readFrom s r
    else
      match _h : next (c :: r) with
      | none => none
      | some (token, rest) =>
        match step s token with
        | none => none
        | some s' => readFrom s' rest
termination_by text.length
decreasing_by
  · simp
  · exact length_next_lt (by assumption)

/-- The type that a text stands for. -/
def read (text : String) : Option TypeExpr :=
  readFrom ⟨[], .operand {}⟩ text.toList

/-! ### Reading single tokens -/

theorem readFrom_blank (s : State) {c : Char} (hc : Text.isBlank c = true) (r : List Char) :
    readFrom s (c :: r) = readFrom s r :=
  (readFrom.eq_def s (c :: r)).trans (if_pos hc)

theorem readFrom_indentation (s : State) (n : Nat) (r : List Char) :
    readFrom s (List.replicate n ' ' ++ r) = readFrom s r := by
  induction n with
  | zero => rfl
  | succ n ih => exact (readFrom_blank s (by decide) _).trans ih

theorem readFrom_token {s s' : State} {c : Char} {r rest : List Char} {token : Token}
    (hc : Text.isBlank c = false) (hn : next (c :: r) = some (token, rest))
    (hs : step s token = some s') : readFrom s (c :: r) = readFrom s' rest := by
  refine (readFrom.eq_def s (c :: r)).trans ((if_neg (by simp [hc])).trans ?_)
  split
  · rename_i hnone
    simp [hn] at hnone
  · rename_i token' rest' hsome
    rw [hn] at hsome
    obtain ⟨rfl, rfl⟩ := Prod.mk.inj (Option.some.inj hsome)
    rw [hs]

/-- Whether a text starts with nothing that could go on with a name or number
    in front of it. -/
def Stops (rest : List Char) : Prop :=
  ∀ c ∈ rest.head?, Name.isFollowing c = false ∧ Decimal.isNumeral c = false

theorem readFrom_word {s s' : State} {c : Char} {r rest : List Char}
    (hc : Name.isInitial c = true) (hr : ∀ d ∈ r, Name.isFollowing d = true) (hrest : Stops rest)
    (hs : step s (.word (c :: r)) = some s') :
    readFrom s (c :: r ++ rest) = readFrom s' rest := by
  obtain ⟨hblank, hquote, -⟩ := isBlank_of_isFollowing (isFollowing_of_isInitial hc)
  obtain ⟨htake, hdrop⟩ := span_append hr (fun d hd => (hrest d hd).1)
  refine readFrom_token hblank ?_ hs
  show next (c :: (r ++ rest)) = _
  rw [next, if_neg hquote, if_pos hc, htake, hdrop]

theorem readFrom_number {s s' : State} {a rest : List Char} (ha : Decimal.IsNumeral a)
    (hrest : Stops rest) (hs : step s (.data a) = some s') :
    readFrom s (a ++ rest) = readFrom s' rest := by
  obtain ⟨c, r, rfl, hc, hr⟩ := ha
  obtain ⟨htake, hdrop⟩ := span_append hr (fun d hd => (hrest d hd).2)
  have hclass : Text.isBlank c = false ∧ c ≠ '\'' ∧ Name.isInitial c = false := by
    rcases hc with hdigit | rfl
    · exact of_ascii (fun d => d.isDigit = true →
          Text.isBlank d = false ∧ d ≠ '\'' ∧ Name.isInitial d = false)
        (by decide +kernel) (toNat_lt_of_isAlphanum (isAlphanum_of_isDigit hdigit)) hdigit
    · decide
  refine readFrom_token hclass.1 ?_ hs
  show next (c :: (r ++ rest)) = _
  have hfront : (c.isDigit || c == '-') = true := by
    simpa using hc
  rw [next, if_neg hclass.2.1, hclass.2.2, if_neg Bool.false_ne_true, if_pos hfront, htake, hdrop]

theorem readFrom_literal {s s' : State} {value rest : List Char}
    (hs : step s (.text value) = some s') :
    readFrom s (Text.literalChars value ++ rest) = readFrom s' rest := by
  refine readFrom_token (by decide) ?_ hs
  show next ('\'' :: (value.flatMap Text.literalChar ++ ['\''] ++ rest)) = _
  rw [next, if_pos rfl, List.append_assoc]
  show Option.map _ (Literal.read (value.flatMap Text.literalChar ++ '\'' :: rest)) = _
  rw [Literal.read_literal]
  rfl

theorem readFrom_brackets {s s' : State} {rest : List Char} (hs : step s .brackets = some s') :
    readFrom s ('[' :: ']' :: rest) = readFrom s' rest :=
  readFrom_token (by decide) rfl hs

/-- A mark is read by itself, except where an object of data starts. -/
theorem readFrom_mark {s s' : State} {c : Char} {rest : List Char} (hc : c ∈ marks)
    (hrest : c = '\x7b' → rest.head? ≠ some '"') (hs : step s (.mark c) = some s') :
    readFrom s (c :: rest) = readFrom s' rest := by
  have hmarks : ∀ d ∈ marks, Text.isBlank d = false ∧ d ≠ '\'' ∧ Name.isInitial d = false
      ∧ (d.isDigit || d == '-') = false ∧ d ≠ '[' := by
    decide
  have hclass := hmarks c hc
  refine readFrom_token hclass.1 ?_ hs
  have hdata : ¬ (c = '[' ∨ (c = '\x7b' ∧ rest.head? = some '"')) := by
    rintro (h | ⟨h, hquote⟩)
    · exact hclass.2.2.2.2 h
    · exact hrest h hquote
  rw [next, if_neg hclass.2.1, hclass.2.2.1, if_neg Bool.false_ne_true, hclass.2.2.2.1,
    if_neg Bool.false_ne_true, if_neg (fun h => hclass.2.2.2.2 h.1), if_neg hdata, if_pos hc]

end TypedClient.TypeReader
