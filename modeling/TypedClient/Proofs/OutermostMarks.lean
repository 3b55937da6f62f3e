import TypedClient.Proofs.ResolvedTypes
import TypedClient.Proofs.TypeRoundTrip

/-! # Marks outside of brackets

    Types are written with brackets where a `|` or `&` would tear them apart. Two tests
    say of a type whether it needs them, and this is what they stand for.

    * **Nesting**: a reader keeps the brackets that are open. Between quotes it looks for
      the closing quote only, and what a backslash escapes is none.
    * **Balanced** texts close what they open and nothing else. A character stands
      **outside** if the text in front of it is balanced.
    * **Hidden** texts are read with something open in front of them, so nothing of them
      stands outside. This goes for whatever is between two brackets or two quotes.
    * **Types**: a type is a union if a `|` stands outside in its text, and compound if a
      `|` or `&` does, whatever wrappers there are.
-/

namespace TypedClient.Text

/-! ### Nesting -/

/-- Where a reader of brackets and quotes stands, with the closing brackets that are
    still to come, the next one first. -/
inductive Nesting where
  | code (closers : List Char)
  /-- Between two quotes. -/
  | quoted (mark : Char) (closers : List Char)
  /-- Behind a backslash between two quotes. -/
  | escaped (mark : Char) (closers : List Char)
  deriving DecidableEq

namespace Nesting

/-- The bracket that closes an opening one. -/
def closer? : Char → Option Char
  | '(' => some ')'
  | '[' => some ']'
  | '\x7b' => some '\x7d'
  | '<' => some '>'
  | _ => none

/-- Whether a character is a closing bracket. -/
def isCloser (c : Char) : Bool :=
  ")]\x7d>".toList.contains c

/-- Whether a character is one of the three quotes. -/
def isQuote (c : Char) : Bool :=
  "'\"`".toList.contains c

/-- Reads a character. A closing bracket is read only where it is the next one to come. -/
def step : Nesting → Char → Option Nesting
  | .code closers, c =>
    if isQuote c then some (.quoted c closers)
    else if isCloser c then
      if closers.head? = some c then some (.code closers.tail) else none
    else some (.code ((closer? c).toList ++ closers))
  | .quoted mark closers, c =>
    if c = '\\' then some (.escaped mark closers)
    else if c = mark then some (.code closers)
    else some (.quoted mark closers)
  | .escaped mark closers, _ => some (.quoted mark closers)

/-- Where a reader stands behind a text. -/
def after (n : Nesting) (s : List Char) : Option Nesting :=
  s.foldlM step n

/-- The characters of a text at which a reader has nothing open. -/
def outermost (n : Nesting) : List Char → List Char
  | [] => []
  | c :: r => (if n = .code [] then [c] else []) ++ (n.step c).elim [] (fun m => m.outermost r)

variable {n m k : Nesting} {c : Char} {s t : List Char}

theorem after_cons_eq_some_iff :
    n.after (c :: s) = some m ↔ ∃ k, n.step c = some k ∧ k.after s = some m := by
  rw [after, List.foldlM_cons]
  exact Option.bind_eq_some_iff

theorem after_append (h : n.after s = some k) (t : List Char) : n.after (s ++ t) = k.after t := by
  rw [after, List.foldlM_append, ← after, h]
  rfl

/-- What is outermost in a text and in one behind it is told piece by piece. -/
theorem outermost_append (h : n.after s = some k) (t : List Char) :
    n.outermost (s ++ t) = n.outermost s ++ k.outermost t := by
  induction s generalizing n with
  | nil =>
    obtain rfl : n = k := Option.some.inj h
    rfl
  | cons c r ih =>
    obtain ⟨m, hstep, hr⟩ := after_cons_eq_some_iff.1 h
    simp only [List.cons_append, outermost, hstep, Option.elim_some, ih hr, List.append_assoc]

/-- A character is among the outermost ones if it stands where nothing is open. -/
theorem mem_outermost :
    c ∈ n.outermost s
      ↔ ∃ before behind, s = before ++ c :: behind ∧ n.after before = some (.code []) := by
  induction s generalizing n with
  | nil => simp [outermost]
  | cons d r ih =>
    rw [outermost, List.mem_append]
    constructor
    · rintro (hhere | hfurther)
      · split at hhere
        · rename_i hn
          obtain rfl := List.mem_singleton.1 hhere
          exact ⟨[], r, rfl, congrArg some hn⟩
        · cases hhere
      · cases hstep : n.step d with
        | none => simp [hstep] at hfurther
        | some k =>
          rw [hstep, Option.elim_some] at hfurther
          obtain ⟨before, behind, rfl, hbefore⟩ := ih.1 hfurther
          exact ⟨d :: before, behind, rfl, after_cons_eq_some_iff.2 ⟨k, hstep, hbefore⟩⟩
    · rintro ⟨before, behind, hsplit, hbefore⟩
      cases before with
      | nil =>
        obtain ⟨rfl, -⟩ := List.cons.inj hsplit
        obtain rfl : n = .code [] := Option.some.inj hbefore
        exact .inl List.mem_cons_self
      | cons e before =>
        obtain ⟨rfl, rfl⟩ := List.cons.inj hsplit
        obtain ⟨k, hstep, hrest⟩ := after_cons_eq_some_iff.1 hbefore
        rw [hstep, Option.elim_some]
        exact .inr (ih.2 ⟨before, behind, rfl, hrest⟩)

/-! ### Plain characters -/

/-- Whether a character is neither a bracket nor a quote. -/
def isPlain (c : Char) : Bool :=
  !isQuote c && !isCloser c && (closer? c).isNone

theorem step_of_isPlain (h : isPlain c = true) (closers : List Char) :
    (code closers).step c = some (.code closers) := by
  simp only [isPlain, Bool.and_eq_true, Bool.not_eq_true', Option.isNone_iff_eq_none] at h
  obtain ⟨⟨hquote, hcloser⟩, hopen⟩ := h
  simp [step, hquote, hcloser, hopen]

theorem after_of_isPlain (h : ∀ c ∈ s, isPlain c = true) (closers : List Char) :
    (code closers).after s = some (.code closers) := by
  induction s with
  | nil => rfl
  | cons c r ih =>
    obtain ⟨hc, hr⟩ := List.forall_mem_cons.1 h
    exact after_cons_eq_some_iff.2 ⟨_, step_of_isPlain hc closers, ih hr⟩

/-- What may stand in a bare name is plain. -/
theorem isPlain_of_isFollowing (h : Name.isFollowing c = true) : isPlain c = true :=
  of_ascii (fun d => Name.isFollowing d = true → isPlain d = true) (by decide +kernel)
    (toNat_lt_of_isFollowing h) h

/-! ### More brackets around -/

/-- The same place with more brackets open around it. -/
def within (outer : List Char) : Nesting → Nesting
  | .code closers => .code (closers ++ outer)
  | .quoted mark closers => .quoted mark (closers ++ outer)
  | .escaped mark closers => .escaped mark (closers ++ outer)

theorem step_within (h : n.step c = some m) (outer : List Char) :
    (n.within outer).step c = some (m.within outer) := by
  cases n with
  | code closers =>
    by_cases hquote : isQuote c = true
    · obtain rfl : quoted c closers = m := by simpa [step, hquote] using h
      simp [step, within, hquote]
    by_cases hcloser : isCloser c = true
    · -- The bracket that it closes is the innermost one, whatever is around.
      obtain ⟨hnext, rfl⟩ : closers.head? = some c ∧ code closers.tail = m := by
        simpa [step, hquote, hcloser] using h
      obtain ⟨rest, rfl⟩ := List.head?_eq_some_iff.1 hnext
      simp [step, within, hquote, hcloser]
    · obtain rfl : code ((closer? c).toList ++ closers) = m := by
        simpa [step, hquote, hcloser] using h
      simp [step, within, hquote, hcloser]
  | quoted mark closers =>
    by_cases hslash : c = '\\'
    · obtain rfl : escaped mark closers = m := by simpa [step, hslash] using h
      simp [step, within, hslash]
    by_cases hmark : c = mark
    · subst hmark
      obtain rfl : code closers = m := by simpa [step, hslash] using h
      simp [step, within, hslash]
    · obtain rfl : quoted mark closers = m := by simpa [step, hslash, hmark] using h
      simp [step, within, hslash, hmark]
  | escaped mark closers =>
    obtain rfl : quoted mark closers = m := Option.some.inj h
    rfl

/-- Whatever can be read can be read with more brackets around it. -/
theorem after_within (h : n.after s = some m) (outer : List Char) :
    (n.within outer).after s = some (m.within outer) := by
  induction s generalizing n with
  | nil =>
    obtain rfl : n = m := Option.some.inj h
    rfl
  | cons c r ih =>
    obtain ⟨k, hstep, hr⟩ := after_cons_eq_some_iff.1 h
    exact after_cons_eq_some_iff.2 ⟨_, step_within hstep outer, ih hr⟩

/-! ### Hidden texts -/

/-- A text is **hidden** from one place to another if a reader comes from the one to the
    other by it, with something open at each of its characters. -/
structure Hides (n m : Nesting) (s : List Char) : Prop where
  after : n.after s = some m
  outermost : n.outermost s = []

theorem Hides.append (hs : Hides n k s) (ht : Hides k m t) : Hides n m (s ++ t) where
  after := by rw [after_append hs.after, ht.after]
  outermost := by rw [outermost_append hs.after, hs.outermost, ht.outermost, List.append_nil]

theorem Hides.flatMap {α : Type} {f : α → List Char} {items : List α}
    (h : ∀ item ∈ items, Hides n n (f item)) : Hides n n (items.flatMap f) := by
  induction items with
  | nil => exact ⟨rfl, rfl⟩
  | cons item rest ih =>
    obtain ⟨hitem, hrest⟩ := List.forall_mem_cons.1 h
    rw [List.flatMap_cons]
    exact hitem.append (ih hrest)

/-- With a bracket around it, a text that can be read is hidden. -/
theorem hides_within (h : n.after s = some m) (closer : Char) :
    Hides (n.within [closer]) (m.within [closer]) s where
  after := after_within h [closer]
  outermost := by
    have hopen : ∀ k : Nesting, k.within [closer] ≠ .code [] := by
      intro k hk
      cases k <;> simp [within] at hk
    induction s generalizing n with
    | nil => rfl
    | cons c r ih =>
      obtain ⟨k, hstep, hr⟩ := after_cons_eq_some_iff.1 h
      rw [Nesting.outermost, if_neg (hopen n), step_within hstep, Option.elim_some, ih hr,
        List.append_nil]

/-- Each character of a literal is hidden behind its opening quote. -/
theorem hides_literalChar (c : Char) :
    Hides (.quoted '\'' []) (.quoted '\'' []) (literalChar c) := by
  unfold literalChar
  split
  case h_7 hslash hquote _ _ _ _ =>
    have hstep : (quoted '\'' []).step c = some (.quoted '\'' []) := by
      rw [step, if_neg hslash, if_neg hquote]
    refine ⟨after_cons_eq_some_iff.2 ⟨_, hstep, rfl⟩, ?_⟩
    rw [Nesting.outermost, hstep]
    rfl
  all_goals exact ⟨by decide, by decide⟩

end Nesting

open Nesting

/-! ### Balanced texts -/

/-- A text is **balanced** if it closes what it opens, and nothing else. -/
def Balanced (s : List Char) : Prop :=
  (Nesting.code []).after s = some (.code [])

/-- A character stands **outside** of all brackets and quotes in a text. -/
def Outside (c : Char) (s : List Char) : Prop :=
  ∃ before behind, s = before ++ c :: behind ∧ Balanced before

variable {c : Char} {s t : List Char}

theorem outside_iff : Outside c s ↔ c ∈ (Nesting.code []).outermost s :=
  mem_outermost.symm

instance (s : List Char) : Decidable (Balanced s) :=
  inferInstanceAs (Decidable (_ = _))

instance (c : Char) (s : List Char) : Decidable (Outside c s) :=
  decidable_of_iff _ outside_iff.symm

-- A `|` in brackets and one between quotes are enclosed, the `&` behind them is not.
example : Outside '&' "(A | 'it\\'s | B') & C[]".toList
    ∧ ¬ Outside '|' "(A | 'it\\'s | B') & C[]".toList := by
  decide

theorem Balanced.append (hs : Balanced s) (ht : Balanced t) : Balanced (s ++ t) := by
  rw [Balanced, after_append hs, ht]

theorem balanced_of_isPlain (h : ∀ c ∈ s, isPlain c = true) : Balanced s :=
  after_of_isPlain h []

/-- Outside of a text behind a balanced one is what is outside of either. -/
theorem outside_append (hs : Balanced s) :
    Outside c (s ++ t) ↔ Outside c s ∨ Outside c t := by
  rw [outside_iff, outermost_append hs, List.mem_append, ← outside_iff, ← outside_iff]

/-- A text is **undivided** if it is balanced and neither of the marks that join types
    stands outside in it. -/
structure Undivided (s : List Char) : Prop where
  balanced : Balanced s
  marks : ∀ c ∈ ['|', '&'], ¬ Outside c s

instance (s : List Char) : Decidable (Undivided s) :=
  decidable_of_iff (Balanced s ∧ ∀ c ∈ ['|', '&'], ¬ Outside c s)
    ⟨fun h => ⟨h.1, h.2⟩, fun h => ⟨h.balanced, h.marks⟩⟩

theorem Undivided.append (hs : Undivided s) (ht : Undivided t) : Undivided (s ++ t) where
  balanced := hs.balanced.append ht.balanced
  marks := by
    intro c hc houtside
    rcases (outside_append hs.balanced).1 houtside with h | h
    · exact hs.marks c hc h
    · exact ht.marks c hc h

/-- **Enclosed texts** are undivided: if what is between two characters is hidden, then
    only the first of them stands outside. -/
theorem undivided_of_hides {opening closing : Char} {n m : Nesting}
    (hopening : opening ∉ ['|', '&']) (hopen : (Nesting.code []).step opening = some n)
    (hides : Hides n m s) (hm : m ≠ .code []) (hclose : m.step closing = some (.code [])) :
    Undivided (opening :: s ++ [closing]) := by
  have hlast : m.after [closing] = some (.code []) :=
    after_cons_eq_some_iff.2 ⟨_, hclose, rfl⟩
  have hafter : n.after (s ++ [closing]) = some (.code []) := by
    rw [after_append hides.after, hlast]
  refine ⟨after_cons_eq_some_iff.2 ⟨n, hopen, hafter⟩, ?_⟩
  intro c hc houtside
  have honly : (Nesting.code []).outermost (opening :: s ++ [closing]) = [opening] := by
    rw [List.cons_append, Nesting.outermost, if_pos rfl, hopen, Option.elim_some,
      outermost_append hides.after, hides.outermost, Nesting.outermost, if_neg hm, hclose]
    rfl
  rw [outside_iff, honly, List.mem_singleton] at houtside
  exact hopening (houtside ▸ hc)

/-- A balanced text in brackets is undivided, whatever stands outside in it. -/
theorem Balanced.undivided_brackets (h : Balanced s) (opening closing : Char)
    (hpair : closer? opening = some closing) : Undivided (opening :: s ++ [closing]) := by
  have hbrackets : opening ∉ ['|', '&'] ∧ (code []).step opening = some (.code [closing])
      ∧ (code [closing]).step closing = some (.code []) := by
    unfold closer? at hpair
    split at hpair
    case h_5 => cases hpair
    all_goals
      obtain rfl := Option.some.inj hpair
      decide
  obtain ⟨hopening, hopen, hclose⟩ := hbrackets
  exact undivided_of_hides hopening hopen (hides_within h closing) (by simp [within]) hclose

/-- A literal is undivided, whatever its text is. -/
theorem undivided_literalChars (s : List Char) : Undivided (literalChars s) :=
  undivided_of_hides (by decide) (by decide) (.flatMap (fun c _ => hides_literalChar c))
    (by decide) (by decide)

end TypedClient.Text

namespace TypedClient.TypeExpr

open Text TypeReader

/-! ### Texts of types -/

/-- Whether the names and the data in a type are undivided. -/
structure UndividedWithin (type : TypeExpr) : Prop where
  names : ∀ name ∈ type.refs, Undivided name.toList
  data : ∀ text ∈ type.literals, Undivided text.toList

/-- What stands outside in the text of a type, at any level, is what the tests say. -/
structure Marked (type : TypeExpr) : Prop where
  balanced : ∀ level, Balanced (type.chars level)
  union : ∀ level, type.isUnion = true ↔ Outside '|' (type.chars level)
  compound : ∀ level,
    type.isCompound = true ↔ Outside '|' (type.chars level) ∨ Outside '&' (type.chars level)

/-- A type with undivided texts is marked if the tests fail on it. -/
theorem Marked.of_undivided {type : TypeExpr} (hunion : type.isUnion = false)
    (hcompound : type.isCompound = false) (h : ∀ level, Undivided (type.chars level)) :
    Marked type where
  balanced level := (h level).balanced
  union level := by
    have hbar := (h level).marks '|' (by decide)
    simp [hunion, hbar]
  compound level := by
    have hbar := (h level).marks '|' (by decide)
    have hampersand := (h level).marks '&' (by decide)
    simp [hcompound, hbar, hampersand]

/-- A type that is written as a single word is marked if the tests fail on it. -/
theorem Marked.word {type : TypeExpr} (word : String) (hunion : type.isUnion = false)
    (hcompound : type.isCompound = false) (hchars : ∀ level, type.chars level = word.toList)
    (h : Undivided word.toList) : Marked type := by
  refine .of_undivided hunion hcompound (fun level => ?_)
  rw [hchars]
  exact h

theorem Marked.undivided {type : TypeExpr} (h : Marked type) (hcompound : type.isCompound = false)
    (level : Nat) : Undivided (type.chars level) := by
  have hnone : ¬ (Outside '|' (type.chars level) ∨ Outside '&' (type.chars level)) := by
    rw [← h.compound level, hcompound]
    exact Bool.false_ne_true
  refine ⟨h.balanced level, ?_⟩
  intro c hc houtside
  rcases List.mem_cons.1 hc with rfl | hc
  · exact hnone (.inl houtside)
  · obtain rfl := List.mem_singleton.1 hc
    exact hnone (.inr houtside)

/-- A type whose text and tests are those of another one is marked as that one is. -/
theorem Marked.wrapper {type member : TypeExpr} (h : Marked member)
    (hchars : ∀ level, type.chars level = member.chars level)
    (hunion : type.isUnion = member.isUnion) (hcompound : type.isCompound = member.isCompound) :
    Marked type where
  balanced level := by
    rw [hchars]
    exact h.balanced level
  union level := by
    rw [hchars, hunion]
    exact h.union level
  compound level := by
    rw [hchars, hcompound]
    exact h.compound level

theorem marked_array {item : TypeExpr} (h : Marked item) : Marked (.array item) := by
  have hbrackets : Undivided "[]".toList := by decide
  refine .of_undivided rfl rfl (fun level => ?_)
  rw [chars_array]
  split
  · have hitem := (h.balanced level).undivided_brackets '(' ')' rfl
    have hall := hitem.append hbrackets
    rwa [List.append_assoc] at hall
  · rename_i hcompound
    exact (h.undivided (by simpa using hcompound) level).append hbrackets

theorem marked_record {value : TypeExpr} (h : Marked value) : Marked (.record value) := by
  have hname : Undivided "Record".toList := by decide
  have hkeys : Balanced "string, ".toList := by decide
  refine .of_undivided rfl rfl (fun level => ?_)
  exact hname.append ((hkeys.append (h.balanced level)).undivided_brackets '<' '>' rfl)

/-- A key is balanced, bare or quoted. -/
theorem balanced_keyChars (name : String) : Balanced (keyChars name) := by
  unfold keyChars
  split
  · rename_i hplain
    refine balanced_of_isPlain (fun c hc => ?_)
    exact Nesting.isPlain_of_isFollowing (isFollowing_of_isPlainChars hplain c hc)
  · exact (undivided_literalChars name.toList).balanced

theorem balanced_indentation (level : Nat) : Balanced (indentation level) := by
  refine balanced_of_isPlain (fun c hc => ?_)
  rw [(List.mem_replicate.1 hc).2]
  decide

/-- The lines of fields are balanced. -/
theorem balanced_fieldsChars {fields : List Field} (h : ∀ f ∈ fields, Marked f.type)
    (level : Nat) : Balanced (fieldsChars level fields) := by
  induction fields with
  | nil => rfl
  | cons f rest ih =>
    obtain ⟨hf, hrest⟩ := List.forall_mem_cons.1 h
    obtain ⟨name, type, required, description⟩ := f
    have hmark : Balanced (if required then [] else ['?']) := by
      split <;> decide
    have hkey := ((balanced_indentation level).append (balanced_keyChars name)).append hmark
    have hcolon : Balanced ": ".toList := by decide
    have hend : Balanced ";\n".toList := by decide
    exact (((hkey.append hcolon).append (hf.balanced level)).append hend).append (ih hrest)

theorem marked_object {fields : List Field} (h : ∀ f ∈ fields, Marked f.type) :
    Marked (.object fields) := by
  refine .of_undivided rfl rfl (fun level => ?_)
  cases fields with
  | nil =>
    show Undivided "\x7b\x7d".toList
    decide
  | cons f rest =>
    have hbreak : Balanced ['\n'] := by decide
    have hfields := hbreak.append (balanced_fieldsChars h (level + 1))
    rw [chars_object]
    exact (hfields.append (balanced_indentation level)).undivided_brackets '\x7b' '\x7d' rfl

/-! ### Unions and intersections -/

theorem balanced_unionChars {members : List TypeExpr} (h : ∀ t ∈ members, Marked t)
    (level : Nat) : Balanced (unionChars level members) := by
  have hbar : Balanced " | ".toList := by decide
  induction members with
  | nil => rfl
  | cons member members ih =>
    obtain ⟨hmember, hrest⟩ := List.forall_mem_cons.1 h
    cases members with
    | nil => exact hmember.balanced level
    | cons next rest =>
      rw [unionChars_cons]
      exact ((hmember.balanced level).append hbar).append (ih hrest)

theorem marked_union {members : List TypeExpr} (h : ∀ t ∈ members, Marked t) :
    Marked (.union members) := by
  match members, h with
  | [], _ => exact .word "never" rfl rfl (fun _ => rfl) (by decide)
  | [member], h =>
    exact (h member List.mem_cons_self).wrapper (fun _ => rfl) rfl rfl
  | member :: next :: rest, h =>
    have hbar : ∀ level, Outside '|' (unionChars level (member :: next :: rest)) := by
      intro level
      rw [unionChars_cons, List.append_assoc]
      refine (outside_append ((h member List.mem_cons_self).balanced level)).2 (.inr ?_)
      exact (outside_append (by decide)).2 (.inl (by decide))
    exact ⟨balanced_unionChars h, fun level => iff_of_true rfl (hbar level),
      fun level => iff_of_true rfl (.inl (hbar level))⟩

/-- A factor of an intersection shows no `|`: it is no union, or stands in brackets. -/
theorem not_outside_factorChars {factor : TypeExpr} (h : Marked factor) (level : Nat) :
    Balanced (factorChars level factor) ∧ ¬ Outside '|' (factorChars level factor) := by
  unfold factorChars
  split
  · have hgroup := (h.balanced level).undivided_brackets '(' ')' rfl
    exact ⟨hgroup.balanced, hgroup.marks '|' (by decide)⟩
  · rename_i hunion
    exact ⟨h.balanced level, fun houtside => hunion ((h.union level).2 houtside)⟩

/-- No `|` stands outside of the factors of an intersection. -/
theorem not_outside_intersectionChars {factors : List TypeExpr} (h : ∀ t ∈ factors, Marked t)
    (level : Nat) : Balanced (intersectionChars level factors)
      ∧ ¬ Outside '|' (intersectionChars level factors) := by
  have hseparator : Balanced " & ".toList ∧ ¬ Outside '|' " & ".toList := by decide
  induction factors with
  | nil =>
    show Balanced [] ∧ ¬ Outside '|' []
    decide
  | cons factor factors ih =>
    obtain ⟨hfactor, hrest⟩ := List.forall_mem_cons.1 h
    have hfirst := not_outside_factorChars hfactor level
    cases factors with
    | nil => exact hfirst
    | cons next rest =>
      have hothers := ih hrest
      rw [intersectionChars_cons, List.append_assoc]
      refine ⟨hfirst.1.append (hseparator.1.append hothers.1), ?_⟩
      rw [outside_append hfirst.1, outside_append hseparator.1]
      rintro (h | h | h)
      · exact hfirst.2 h
      · exact hseparator.2 h
      · exact hothers.2 h

theorem marked_intersection {factors : List TypeExpr} (h : ∀ t ∈ factors, Marked t) :
    Marked (.intersection factors) := by
  match factors, h with
  | [], _ => exact .word "never" rfl rfl (fun _ => rfl) (by decide)
  | [factor], h =>
    have hfactor := h factor List.mem_cons_self
    have hchars : ∀ level, (TypeExpr.intersection [factor]).chars level
        = factorChars level factor := fun _ => rfl
    -- The brackets around a union hide its marks, and any other factor stands for itself.
    cases hunion : factor.isUnion with
    | true =>
      refine .of_undivided rfl (by simp [isCompound, hunion]) (fun level => ?_)
      rw [hchars, factorChars, hunion, if_pos rfl]
      exact (hfactor.balanced level).undivided_brackets '(' ')' rfl
    | false =>
      refine hfactor.wrapper (fun level => ?_) hunion.symm (by simp [isCompound, hunion])
      rw [hchars, factorChars, hunion, if_neg Bool.false_ne_true]
  | factor :: next :: rest, h =>
    have hfactors := not_outside_intersectionChars h
    have hampersand : ∀ level,
        Outside '&' (intersectionChars level (factor :: next :: rest)) := by
      intro level
      have hfirst := not_outside_factorChars (h factor List.mem_cons_self) level
      rw [intersectionChars_cons, List.append_assoc]
      refine (outside_append hfirst.1).2 (.inr ?_)
      exact (outside_append (by decide)).2 (.inl (by decide))
    exact ⟨fun level => (hfactors level).1,
      fun level => iff_of_false Bool.false_ne_true (hfactors level).2,
      fun level => iff_of_true rfl (.inr (hampersand level))⟩

/-! ### All types -/

theorem UndividedWithin.of_mem {members : List TypeExpr}
    (h : (TypeExpr.union members).UndividedWithin) : ∀ t ∈ members, t.UndividedWithin :=
  fun t ht => ⟨fun name hname => h.names name (mem_listRefs.2 ⟨t, ht, hname⟩),
    fun text htext => h.data text (mem_listLiterals.2 ⟨t, ht, htext⟩)⟩

theorem UndividedWithin.of_mem_fields {fields : List Field}
    (h : (TypeExpr.object fields).UndividedWithin) : ∀ f ∈ fields, f.type.UndividedWithin :=
  fun f hf => ⟨fun name hname => h.names name (mem_fieldRefs.2 ⟨f, hf, hname⟩),
    fun text htext => h.data text (mem_fieldLiterals.2 ⟨f, hf, htext⟩)⟩

mutual

/-- **The tests fit the text** of every type whose names and data are undivided. -/
theorem marked_of_undividedWithin : (type : TypeExpr) → type.UndividedWithin → Marked type
  | .string, _ => .word "string" rfl rfl (fun _ => rfl) (by decide)
  | .number, _ => .word "number" rfl rfl (fun _ => rfl) (by decide)
  | .boolean, _ => .word "boolean" rfl rfl (fun _ => rfl) (by decide)
  | .unknown, _ => .word "unknown" rfl rfl (fun _ => rfl) (by decide)
  | .any, _ => .word "any" rfl rfl (fun _ => rfl) (by decide)
  | .stringLiteral text, _ =>
    .of_undivided rfl rfl (fun _ => undivided_literalChars text.toList)
  | .literal text, h => .of_undivided rfl rfl (fun _ => h.data text List.mem_cons_self)
  | .ref name, h => .of_undivided rfl rfl (fun _ => h.names name List.mem_cons_self)
  | .array item, h => marked_array (marked_of_undividedWithin item ⟨h.names, h.data⟩)
  | .record value, h => marked_record (marked_of_undividedWithin value ⟨h.names, h.data⟩)
  | .object fields, h => marked_object (marked_of_fields fields h.of_mem_fields)
  | .union members, h => marked_union (marked_of_members members h.of_mem)
  | .intersection members, h =>
    marked_intersection (marked_of_members members
      (UndividedWithin.of_mem ⟨h.names, h.data⟩))

theorem marked_of_members : (types : List TypeExpr) → (∀ t ∈ types, t.UndividedWithin) →
    ∀ t ∈ types, Marked t
  | [], _ => by simp
  | type :: rest, h => by
    obtain ⟨htype, hrest⟩ := List.forall_mem_cons.1 h
    exact List.forall_mem_cons.2
      ⟨marked_of_undividedWithin type htype, marked_of_members rest hrest⟩

theorem marked_of_fields : (fields : List Field) → (∀ f ∈ fields, f.type.UndividedWithin) →
    ∀ f ∈ fields, Marked f.type
  | [], _ => by simp
  | ⟨name, type, required, description⟩ :: rest, h => by
    obtain ⟨htype, hrest⟩ := List.forall_mem_cons.1 h
    exact List.forall_mem_cons.2
      ⟨marked_of_undividedWithin type htype, marked_of_fields rest hrest⟩

end

/-- **Compound types** are those whose text has a `|` or an `&` outside of all brackets
    and quotes, and unions those with a `|` there, if the names and the data in a type
    are undivided. The text as a whole is balanced then. -/
theorem compound_iff_outside (type : TypeExpr) (h : type.UndividedWithin) :
    Balanced type.render.toList
      ∧ (type.isUnion = true ↔ Outside '|' type.render.toList)
      ∧ (type.isCompound = true
          ↔ Outside '|' type.render.toList ∨ Outside '&' type.render.toList) := by
  have hmarked := marked_of_undividedWithin type h
  rw [render, String.toList_ofList]
  exact ⟨hmarked.balanced 0, hmarked.union 0, hmarked.compound 0⟩

/-- A union of one intersection, with a union in brackets, marks between quotes, and a
    name with brackets of its own. -/
def wrappedSample : TypeExpr :=
  .union
    [.intersection
      [.union [.ref "Map<A | B>", .stringLiteral "it's | this"],
        .intersection [.literal "[\"(|\\\"&\"]"]]]

theorem compound_iff_outside_sample :
    wrappedSample.UndividedWithin
      ∧ Balanced wrappedSample.render.toList
      ∧ (wrappedSample.isUnion = true ↔ Outside '|' wrappedSample.render.toList)
      ∧ (wrappedSample.isCompound = true
          ↔ Outside '|' wrappedSample.render.toList ∨ Outside '&' wrappedSample.render.toList) := by
  have hname : Undivided "Map<A | B>".toList := by decide
  have hdata : Undivided "[\"(|\\\"&\"]".toList := by decide
  have h : wrappedSample.UndividedWithin :=
    ⟨List.forall_mem_singleton.2 hname, List.forall_mem_singleton.2 hdata⟩
  exact ⟨h, compound_iff_outside wrappedSample h⟩

end TypedClient.TypeExpr
