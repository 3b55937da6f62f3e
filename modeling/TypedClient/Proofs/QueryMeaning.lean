import TypedClient.Proofs.CodeMeaning
import TypedClient.Proofs.CodeRoundTrip
import TypedClient.Proofs.Hygiene
import TypedClient.Proofs.QueryKeys
import TypedClient.Text.Percent

/-! # What query strings mean

    The text that the code for a query string puts behind the path, for all values of
    the arguments at the time of the call.

    * **Contributions**: an argument that is there contributes its key and its encoded
      value; a list repeats the key for each item. An optional argument contributes
      nothing if it is not given, a list without items or a value whose text is empty.
    * **Joined**: the contributions stand in order behind a question mark, with
      ampersands between them. Without any, nothing stands there.
    * **One meaning**: the code for a single optional value, and the list of
      contributions that is filtered, say the same.
-/

namespace TypedClient

namespace Query

variable {Data : Type}

/-! ### What is meant -/

/-- The text of a value as it stands in a URL. -/
def encodedText (globals : Globals Data) (v : Value Data) : List Char :=
  globals.encode (.text (globals.string v))

/-- Whether the value of an optional argument counts as missing: it is not given, a list
    without items, or a value whose text is empty. -/
def isMissing (globals : Globals Data) (a : Argument) (v : Value Data) : Bool :=
  !v.isGiven
    || (if a.isArray then (v.items?.getD []).isEmpty else (globals.string v).isEmpty)

/-- What stands behind the equals sign of an argument. -/
def valueText (globals : Globals Data) (a : Argument) (v : Value Data) : List Char :=
  if a.isArray then
    List.intercalate (keyText ['&'] a) ((v.items?.getD []).map (encodedText globals))
  else encodedText globals v

/-- What an argument contributes by its value, if anything. -/
def contributed? (globals : Globals Data) (a : Argument) (v : Value Data) :
    Option (List Char) :=
  if !a.required && isMissing globals a v then none
  else some (keyText [] a ++ valueText globals a v)

/-- What all arguments contribute by their values. -/
def contributions (globals : Globals Data) (arguments : List Argument)
    (values : String → Value Data) : List (List Char) :=
  arguments.filterMap (fun a => contributed? globals a (values a.name))

/-- Contributions behind a question mark, if there are any. -/
def questioned : List (List Char) → List Char
  | [] => []
  | first :: rest => '?' :: List.intercalate ['&'] (first :: rest)

/-- The query string that arguments mean by their values. -/
def queryString (globals : Globals Data) (arguments : List Argument)
    (values : String → Value Data) : List Char :=
  questioned (contributions globals arguments values)

/-- Whether an argument may have a value: a list if it is one of lists, and else any;
    without a value an optional one may be left. -/
def Fits (a : Argument) (v : Value Data) : Prop :=
  a.isArray = true → (∃ items, v = .list items) ∨ (a.required = false ∧ v.isGiven = false)

/-- The scope in which the arguments have their values. -/
def scope (arguments : List Argument) (values : String → Value Data) : Scope Data :=
  fun name =>
    if String.ofList name ∈ arguments.map (·.name) then some (some (values (String.ofList name)))
    else none

/-- Arguments that the code for a query string can be read and run with. -/
structure Sound (arguments : List Argument) : Prop where
  /-- Their names are bare names. -/
  plain : ∀ a ∈ arguments, Name.isPlain a.name = true
  /-- Their names are no reserved words. -/
  unreserved : ∀ a ∈ arguments, Name.isReserved a.name.toList = false
  /-- Their names hide nothing that the code relies on. -/
  apart : ∀ a ∈ arguments, a.name.toList ∉ ownWords
  /-- Their keys stand on one line. -/
  oneLine : ∀ a ∈ arguments, ∀ c ∈ a.key.toList, Literal.isLineEnd c = false

/-! ### Reading -/

variable {arguments : List Argument} {a : Argument} {lead : List Char}

theorem text?_keyBody (hlead : lead ∈ leads)
    (hline : ∀ c ∈ a.key.toList, Literal.isLineEnd c = false) :
    Literal.text? (keyBody lead a) = some (keyText lead a) :=
  Literal.text?_eq_some_iff.2 ((spells_keyBody_iff hlead).2 ⟨rfl, hline⟩)

open CodeReader (isName)

theorem Sound.isName (h : Sound arguments) (ha : a ∈ arguments) : isName a.name.toList = true := by
  rw [CodeReader.isName, h.unreserved a ha, Bool.not_false, Bool.and_true]
  exact h.plain a ha

theorem Sound.ne_of_mem_ownWords (h : Sound arguments) (ha : a ∈ arguments) {word : List Char}
    (hword : word ∈ ownWords) : a.name.toList ≠ word := by
  rintro rfl
  exact h.apart a ha hword

theorem legible_textOf {e : Expression} (h : e.Legible) : (textOf e).Legible :=
  ⟨by decide +kernel, h⟩

theorem legible_encoded {e : Expression} (h : e.Legible) : (encoded e).Legible :=
  ⟨by decide +kernel, legible_textOf h⟩

theorem legible_encodedValue (hname : isName a.name.toList = true)
    (hline : ∀ c ∈ a.key.toList, Literal.isLineEnd c = false) :
    (encodedValue a).level < 2 ∧ (encodedValue a).Legible := by
  unfold encodedValue
  split
  · have hitem : isName ['v'] = true := by decide +kernel
    have hitems : (Expression.mapItems (value a) ['v'] (encoded (.name ['v']))).Legible :=
      ⟨⟨Nat.zero_lt_two, hname⟩, hitem, legible_encoded (e := .name ['v']) hitem⟩
    have hseparator : (Literal.text? (keyBody ['&'] a)).isSome = true := by
      rw [text?_keyBody (by decide) hline]
      rfl
    exact ⟨Nat.lt_succ_self 1, ⟨Nat.lt_succ_self 1, hitems⟩, hseparator⟩
  · exact ⟨Nat.zero_lt_two, legible_encoded hname⟩

theorem level_presence (a : Argument) : (presence a).level < 5 :=
  Nat.lt_succ_self 4

theorem legible_presence (hname : isName a.name.toList = true) : (presence a).Legible := by
  have hgiven : (Expression.isGiven (value a)).Legible := ⟨Nat.zero_lt_succ 2, hname⟩
  unfold presence
  split
  · have hitems : (Expression.hasItems (value a)).Legible := ⟨Nat.zero_lt_two, hname⟩
    exact ⟨⟨Nat.lt_succ_self 3, hgiven⟩, Nat.lt_of_succ_lt (Nat.lt_succ_self 3), hitems⟩
  · have hdiffers : (Expression.differs (textOf (value a)) (.literal [])).Legible :=
      ⟨⟨Nat.zero_lt_succ 2, legible_textOf hname⟩, Nat.zero_lt_succ 2, rfl⟩
    exact ⟨⟨Nat.lt_succ_self 3, hgiven⟩, Nat.lt_succ_self 3, hdiffers⟩

theorem legible_pair (hlead : lead ∈ leads) (hname : isName a.name.toList = true)
    (hline : ∀ c ∈ a.key.toList, Literal.isLineEnd c = false) : (pair lead a).Legible := by
  have hkey : (Expression.literal (keyBody lead a)).Legible := by
    rw [Expression.Legible, text?_keyBody hlead hline]
    rfl
  exact ⟨⟨Nat.zero_lt_two, hkey⟩, legible_encodedValue hname hline⟩

theorem legible_contribution (hname : isName a.name.toList = true)
    (hline : ∀ c ∈ a.key.toList, Literal.isLineEnd c = false) : (contribution a).Legible := by
  have hpair : (pair [] a).Legible := legible_pair (by decide) hname hline
  unfold contribution
  split
  · exact hpair
  · exact ⟨⟨level_presence a, legible_presence hname⟩, hpair, trivial⟩

theorem eachLegible_map {items : List Argument} {code : Argument → Expression}
    (h : ∀ a ∈ items, (code a).Legible) : Expression.EachLegible (items.map code) := by
  induction items with
  | nil => exact trivial
  | cons a rest ih =>
    rw [List.forall_mem_cons] at h
    exact ⟨h.1, ih h.2⟩

theorem legible_joined (h : Sound arguments) : (joined arguments).Legible := by
  have hparts : isName partsName = true := by decide +kernel
  have heach : Expression.EachLegible (arguments.map contribution) :=
    eachLegible_map (fun a ha => legible_contribution (h.isName ha) (h.oneLine a ha))
  have hjoined : (Expression.joinItems (.name partsName) ['&']).Legible :=
    ⟨⟨Nat.zero_lt_two, hparts⟩, rfl⟩
  have hbody : (Expression.append (.literal ['?'])
      (.joinItems (.name partsName) ['&'])).Legible :=
    ⟨⟨Nat.zero_lt_two, rfl⟩, Nat.lt_succ_self 1, hjoined⟩
  exact ⟨hparts, ⟨Nat.zero_lt_two, heach⟩,
    ⟨Nat.lt_of_succ_lt (Nat.lt_of_succ_lt (Nat.lt_succ_self 4)), Nat.zero_lt_two, hparts⟩, hbody,
    rfl⟩

/-- The code for sound arguments is read as it was meant. -/
theorem legible_expression? (h : Sound arguments) {e : Expression}
    (he : expression? arguments = some e) : e.Legible := by
  rcases expression?_cases he with ⟨only, rfl, -, -, rfl⟩ | rfl
  · have honly := List.mem_singleton_self only
    have hpair : (pair ['?'] only).Legible :=
      legible_pair (by decide) (h.isName honly) (h.oneLine only honly)
    exact ⟨⟨level_presence only, legible_presence (h.isName honly)⟩, hpair, rfl⟩
  · exact legible_joined h

/-! ### Running -/

variable {globals : Globals Data} {s : Scope Data} {v : Value Data}

/-- Nothing in a scope hides the functions that values are turned into text with. -/
def Sees (s : Scope Data) : Prop :=
  ∀ word ∈ conversions, s word = none

theorem Sees.declare (h : Sees s) {name : List Char} (hname : name ∉ conversions)
    (value : Option (Value Data)) : Sees (s.declare name value) := by
  intro word hword
  rw [s.declare_of_ne (by rintro rfl; exact hname hword)]
  exact h word hword

theorem eval_textOf (hs : Sees s) {e : Expression} (he : e.eval globals s = some v) :
    (textOf e).eval globals s = some (.text (globals.string v)) := by
  have hfree : s "String".toList = none := hs _ (by decide)
  rw [textOf, Expression.eval, he]
  simp only [Option.bind_eq_bind, Option.bind_some, hfree]
  rfl

theorem eval_encoded (hs : Sees s) {e : Expression} (he : e.eval globals s = some v) :
    (encoded e).eval globals s = some (.text (encodedText globals v)) := by
  have hfree : s "encodeURIComponent".toList = none := hs _ (by decide)
  rw [encoded, Expression.eval, eval_textOf hs he]
  simp only [Option.bind_eq_bind, Option.bind_some, hfree]
  rfl

theorem eval_value (hvalue : s a.name.toList = some (some v)) :
    (value a).eval globals s = some v := by
  rw [value, Expression.eval, hvalue]
  rfl

/-- The items of a list are encoded one by one. -/
theorem mapM_encoded (hs : Sees s) (items : List (Value Data)) :
    items.mapM (fun item =>
        (encoded (.name ['v'])).eval globals (s.declare ['v'] (some item)))
      = some (items.map (fun item => .text (encodedText globals item))) := by
  induction items with
  | nil => rfl
  | cons item rest ih =>
    have hitem : (Expression.name ['v']).eval globals (s.declare ['v'] (some item))
        = some item := by
      rw [Expression.eval, s.declare_self]
      rfl
    have hbound : ['v'] ∉ conversions := by decide
    have hfirst := eval_encoded (hs.declare hbound (some item)) hitem
    rw [List.mapM_cons, hfirst, ih]
    rfl

theorem mapM_text? (texts : List (List Char)) :
    (texts.map Value.text : List (Value Data)).mapM Value.text? = some texts := by
  induction texts with
  | nil => rfl
  | cons chars rest ih =>
    rw [List.map_cons, List.mapM_cons, ih]
    rfl

theorem eval_encodedValue (hs : Sees s) (hvalue : s a.name.toList = some (some v))
    (hline : ∀ c ∈ a.key.toList, Literal.isLineEnd c = false)
    (hlist : a.isArray = true → ∃ items, v = .list items) :
    (encodedValue a).eval globals s = some (.text (valueText globals a v)) := by
  unfold encodedValue valueText
  cases harray : a.isArray with
  | false => exact eval_encoded hs (eval_value hvalue)
  | true =>
    obtain ⟨items, rfl⟩ := hlist harray
    have hitems : (Expression.mapItems (value a) ['v'] (encoded (.name ['v']))).eval globals s
        = some (.list ((items.map (encodedText globals)).map .text)) := by
      rw [Expression.eval, eval_value hvalue]
      simp only [Option.bind_eq_bind, Option.bind_some, Value.items?, mapM_encoded hs,
        List.map_map]
      rfl
    have hlead : ['&'] ∈ leads := by decide
    have hseparator : Literal.text? ('&' :: key a ++ ['=']) = some (keyText ['&'] a) :=
      text?_keyBody hlead hline
    rw [if_pos rfl, if_pos rfl, Expression.eval, hitems]
    simp only [Option.bind_eq_bind, Option.bind_some, Value.items?, Option.getD_some, mapM_text?,
      hseparator]

theorem eval_pair (hlead : lead ∈ leads) (hs : Sees s) (hvalue : s a.name.toList = some (some v))
    (hline : ∀ c ∈ a.key.toList, Literal.isLineEnd c = false)
    (hlist : a.isArray = true → ∃ items, v = .list items) :
    (pair lead a).eval globals s = some (.text (keyText lead a ++ valueText globals a v)) := by
  have hkey : (Expression.literal (lead ++ key a ++ ['='])).eval globals s
      = some (.text (keyText lead a)) := by
    rw [Expression.eval]
    exact congrArg _ (text?_keyBody hlead hline)
  rw [pair, Expression.eval, hkey, eval_encodedValue hs hvalue hline hlist]
  rfl

/-- The condition for an optional argument is that its value is not missing. -/
theorem eval_presence (hs : Sees s) (hvalue : s a.name.toList = some (some v))
    (hlist : a.isArray = true → v.isGiven = true → ∃ items, v = .list items) :
    (presence a).eval globals s = some (.boolean (!isMissing globals a v)) := by
  have hgiven : (Expression.isGiven (value a)).eval globals s = some (.boolean v.isGiven) := by
    rw [Expression.eval, eval_value hvalue]
    rfl
  rw [presence, Expression.eval, hgiven]
  cases hcase : v.isGiven with
  | false =>
    rw [isMissing, hcase]
    rfl
  | true =>
    -- The value is there, so the second condition decides.
    show Expression.eval globals (if a.isArray then _ else _) s = _
    rw [isMissing, hcase, Bool.not_true, Bool.false_or]
    cases harray : a.isArray with
    | true =>
      obtain ⟨items, rfl⟩ := hlist harray hcase
      rw [if_pos rfl, if_pos rfl, Expression.eval, eval_value hvalue]
      rfl
    | false =>
      rw [if_neg Bool.false_ne_true, if_neg Bool.false_ne_true, Expression.eval,
        eval_textOf hs (eval_value hvalue)]
      show some (Value.boolean (decide (globals.string v ≠ []))) = _
      cases globals.string v <;> rfl

/-- A contribution as a value of the code. -/
def ofContribution : Option (List Char) → Value Data
  | none => .null
  | some text => .text text

theorem eval_contribution (hs : Sees s) (hvalue : s a.name.toList = some (some v))
    (hline : ∀ c ∈ a.key.toList, Literal.isLineEnd c = false) (hfits : Fits a v) :
    (contribution a).eval globals s = some (ofContribution (contributed? globals a v)) := by
  unfold contribution contributed?
  cases hrequired : a.required with
  | true =>
    have hlist : a.isArray = true → ∃ items, v = .list items := by
      intro harray
      rcases hfits harray with hitems | ⟨hoptional, -⟩
      · exact hitems
      · rw [hrequired] at hoptional
        cases hoptional
    rw [if_pos rfl, eval_pair (by decide) hs hvalue hline hlist]
    rfl
  | false =>
    have hlist : a.isArray = true → v.isGiven = true → ∃ items, v = .list items := by
      intro harray hgiven
      rcases hfits harray with hitems | ⟨-, hmissing⟩
      · exact hitems
      · rw [hgiven] at hmissing
        cases hmissing
    rw [if_neg Bool.false_ne_true, Expression.eval, eval_presence hs hvalue hlist]
    cases hmissing : isMissing globals a v with
    | true => rfl
    | false =>
      have hgiven : v.isGiven = true := by
        have hboth := (Bool.or_eq_false_iff.1 hmissing).1
        simpa using hboth
      have hpair : (pair [] a).eval globals s
          = some (.text (keyText [] a ++ valueText globals a v)) :=
        eval_pair (by decide) hs hvalue hline (fun harray => hlist harray hgiven)
      exact hpair

variable {values : String → Value Data}

theorem evalEach_contributions (hs : Sees s) (h : ∀ a ∈ arguments,
      s a.name.toList = some (some (values a.name))
        ∧ (∀ c ∈ a.key.toList, Literal.isLineEnd c = false) ∧ Fits a (values a.name)) :
    Expression.evalEach globals (arguments.map contribution) s
      = some (arguments.map
          (fun a => ofContribution (contributed? globals a (values a.name)))) := by
  induction arguments with
  | nil => rfl
  | cons a rest ih =>
    obtain ⟨⟨hvalue, hline, hfits⟩, hrest⟩ := List.forall_mem_cons.1 h
    rw [List.map_cons, Expression.evalEach, eval_contribution hs hvalue hline hfits, ih hrest]
    rfl

/-- Behind the filter the contributions are left: none of them is empty. -/
theorem filter_ofContribution :
    (arguments.map (fun a => ofContribution (contributed? globals a (values a.name)))).filter
        (fun item => item.isTrue globals)
      = (contributions globals arguments values).map .text := by
  induction arguments with
  | nil => rfl
  | cons a rest ih =>
    rw [List.map_cons, contributions, List.filterMap_cons]
    cases hcontributed : contributed? globals a (values a.name) with
    | none => exact ih
    | some text =>
      -- It holds the equals sign at least.
      have htext : text.isEmpty = false := by
        unfold contributed? at hcontributed
        split at hcontributed
        · cases hcontributed
        · rw [← Option.some.inj hcontributed, keyText]
          simp
      have htrue : (ofContribution (some text) : Value Data).isTrue globals = true := by
        rw [ofContribution, Value.isTrue, htext, Bool.not_false]
      rw [List.filter_cons_of_pos htrue, ih]
      rfl

/-- The contributions under their name, joined if there are any. -/
theorem eval_questioned {texts : List (List Char)}
    (hparts : s partsName = some (some (.list (texts.map .text)))) :
    (Expression.conditional (.hasItems (.name partsName))
        (.append (.literal ['?']) (.joinItems (.name partsName) ['&']))
        (.literal [])).eval globals s
      = some (.text (questioned texts)) := by
  have hname : (Expression.name partsName).eval globals s = some (.list (texts.map .text)) := by
    rw [Expression.eval, hparts]
    rfl
  have hitems : (Expression.hasItems (.name partsName)).eval globals s
      = some (.boolean (!texts.isEmpty)) := by
    rw [Expression.eval, hname]
    cases texts <;> rfl
  have hjoined : (Expression.append (.literal ['?'])
      (.joinItems (.name partsName) ['&'])).eval globals s
        = some (.text ('?' :: List.intercalate ['&'] texts)) := by
    rw [Expression.eval, Expression.eval, Expression.eval, hname]
    simp only [Option.bind_eq_bind, Option.bind_some, Value.items?, mapM_text?]
    rfl
  rw [Expression.eval, hitems]
  cases texts with
  | nil => rfl
  | cons first rest => exact hjoined

/-- **Several arguments**: the list of contributions, filtered and joined, is the query
    string. -/
theorem eval_joined (hs : Sees s) (hboolean : s "Boolean".toList = none)
    (h : ∀ a ∈ arguments, a.name.toList ≠ partsName ∧
      s a.name.toList = some (some (values a.name))
        ∧ (∀ c ∈ a.key.toList, Literal.isLineEnd c = false) ∧ Fits a (values a.name)) :
    (joined arguments).eval globals s = some (.text (queryString globals arguments values)) := by
  have hparts : partsName ∉ conversions := by decide
  -- The contributions stand inside the declaration of the name that they are given.
  have heach : Expression.evalEach globals (arguments.map contribution) (s.declare partsName none)
      = some (arguments.map
          (fun a => ofContribution (contributed? globals a (values a.name)))) := by
    refine evalEach_contributions (hs.declare hparts none) ?_
    intro a ha
    rw [s.declare_of_ne (h a ha).1]
    exact (h a ha).2
  have hfree : s.declare partsName none "Boolean".toList = none := by
    rw [s.declare_of_ne (by decide)]
    exact hboolean
  have hfiltered : (Expression.onlyTrue (.list (arguments.map contribution))).eval globals
      (s.declare partsName none)
        = some (.list ((contributions globals arguments values).map .text)) := by
    rw [Expression.eval, Expression.eval, heach]
    simp only [Option.bind_eq_bind, Option.bind_some, Value.items?, hfree, Option.isSome_none,
      filter_ofContribution]
    rfl
  rw [joined, Expression.eval, hfiltered]
  exact eval_questioned (s.declare_self partsName _)

/-- **A single optional value**: the condition says the same as the list of
    contributions would. -/
theorem eval_alone (hs : Sees s) (hrequired : a.required = false) (harray : a.isArray = false)
    (hvalue : s a.name.toList = some (some (values a.name)))
    (hline : ∀ c ∈ a.key.toList, Literal.isLineEnd c = false) :
    (Expression.conditional (presence a) (pair ['?'] a) (.literal [])).eval globals s
      = some (.text (queryString globals [a] values)) := by
  have hnone : a.isArray = true → ∃ items, values a.name = .list items := by
    intro h
    rw [harray] at h
    cases h
  have hpair : (pair ['?'] a).eval globals s
      = some (.text ('?' :: (keyText [] a ++ valueText globals a (values a.name)))) :=
    eval_pair (by decide) hs hvalue hline hnone
  rw [Expression.eval, eval_presence hs hvalue (fun h _ => hnone h), queryString, contributions,
    List.filterMap_cons, contributed?, hrequired]
  cases isMissing globals a (values a.name) with
  | true => rfl
  | false =>
    show _ = some (Value.text (questioned [keyText [] a ++ valueText globals a (values a.name)]))
    rw [questioned, List.intercalate_singleton]
    exact hpair

/-! ### The text of the code -/

theorem scope_of_mem (values : String → Value Data) (ha : a ∈ arguments) :
    scope arguments values a.name.toList = some (some (values a.name)) := by
  rw [scope, String.ofList_toList, if_pos (List.mem_map_of_mem ha)]

/-- No argument hides what the code relies on. -/
theorem Sound.scope_eq_none (h : Sound arguments) (values : String → Value Data)
    {word : List Char} (hword : word ∈ ownWords) : scope arguments values word = none := by
  refine if_neg ?_
  intro hmem
  obtain ⟨a, ha, hname⟩ := List.mem_map.1 hmem
  exact h.ne_of_mem_ownWords ha hword (by rw [hname, String.toList_ofList])

/-- The code for sound arguments gives the query string that they mean. -/
theorem eval_expression? (hsound : Sound arguments)
    (hfits : ∀ a ∈ arguments, Fits a (values a.name)) {e : Expression}
    (he : expression? arguments = some e) :
    e.eval globals (scope arguments values)
      = some (.text (queryString globals arguments values)) := by
  have hs : Sees (scope arguments values) := by
    intro word hword
    exact hsound.scope_eq_none values (List.mem_cons_of_mem _ (List.mem_cons_of_mem _ hword))
  rcases expression?_cases he with ⟨only, rfl, hrequired, harray, rfl⟩ | rfl
  · have honly := List.mem_singleton_self only
    exact eval_alone hs hrequired harray (scope_of_mem values honly) (hsound.oneLine only honly)
  · have hboolean : scope arguments values "Boolean".toList = none :=
      hsound.scope_eq_none values (by decide)
    refine eval_joined hs hboolean ?_
    intro a ha
    exact ⟨hsound.ne_of_mem_ownWords ha List.mem_cons_self, scope_of_mem values ha,
      hsound.oneLine a ha, hfits a ha⟩

/-- **Query strings mean what they should**: for sound arguments and values that fit them,
    the text of the code is read, and run in the scope of the arguments it gives the query
    string that the arguments mean. -/
theorem interpolated_suffix (globals : Globals Data) (arguments : List Argument)
    (values : String → Value Data) (hsound : Sound arguments)
    (hfits : ∀ a ∈ arguments, Fits a (values a.name)) :
    interpolated globals (scope arguments values) (suffix arguments).toList
      = some (queryString globals arguments values) := by
  rw [suffix, String.toList_ofList, suffixChars]
  cases hexpression : expression? arguments with
  | none =>
    obtain rfl := eq_nil_of_expression?_eq_none hexpression
    rfl
  | some e =>
    have hread := CodeReader.readInterpolation_chars (legible_expression? hsound hexpression)
    show (CodeReader.readInterpolation ('$' :: '\x7b' :: e.chars ++ ['\x7d'])).bind
      (fun e => (e.eval globals (scope arguments values)).bind Value.text?) = _
    rw [hread, Option.bind_some, eval_expression? hsound hfits hexpression]
    rfl

mutual

/-- The text of a value that is no data of another kind but numbers. -/
def decimalText : Value Nat → List Char
  | .null => "null".toList
  | .undefined => "undefined".toList
  | .boolean b => if b then "true".toList else "false".toList
  | .text chars => chars
  | .list items => List.intercalate [','] (decimalTexts items)
  | .other n => Nat.toDigits 10 n

def decimalTexts : List (Value Nat) → List (List Char)
  | [] => []
  | v :: rest => (if v.isGiven then decimalText v else []) :: decimalTexts rest

end

/-- Globals in which all other data is numbers. -/
def decimalGlobals : Globals Nat where
  string := decimalText
  encode v := Text.percentEncode " \"#$%&+,/:;<=>?@[\\]^`\x7b|\x7d".toList (decimalText v)
  counts n := n ≠ 0

/-- A list that has to be given, a value and a list that need not. -/
def sampleArguments : List Argument :=
  [⟨"tags", "tags[]", .query, .array .string, true, true, none⟩,
   ⟨"v", "it's", .query, .number, false, false, none⟩,
   ⟨"ids", "ids", .query, .array .number, false, true, none⟩]

/-- The second list is not given. -/
def sampleValues (name : String) : Value Nat :=
  if name = "tags" then .list [.text "a&b".toList, .text "c d".toList]
  else if name = "v" then .other 7
  else .undefined

theorem interpolated_suffix_sample :
    interpolated decimalGlobals (scope sampleArguments sampleValues)
        (suffix sampleArguments).toList
      = some "?tags[]=a%26b&tags[]=c%20d&it's=7".toList := by
  have hsound : Sound sampleArguments :=
    ⟨by decide +kernel, by decide +kernel, by decide +kernel, by decide +kernel⟩
  have hfits : ∀ a ∈ sampleArguments, Fits a (sampleValues a.name) := by
    intro a ha
    simp only [sampleArguments, List.mem_cons, List.not_mem_nil, or_false] at ha
    rcases ha with rfl | rfl | rfl
    · exact fun _ => .inl ⟨_, rfl⟩
    · exact fun harray => absurd harray Bool.false_ne_true
    · exact fun _ => .inr ⟨rfl, rfl⟩
  have hmeaning : queryString decimalGlobals sampleArguments sampleValues
      = "?tags[]=a%26b&tags[]=c%20d&it's=7".toList := by
    decide +kernel
  rw [interpolated_suffix decimalGlobals sampleArguments sampleValues hsound hfits, hmeaning]

end Query

end TypedClient
