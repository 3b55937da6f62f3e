import TypedClient.Package.Function
import TypedClient.Proofs.Characters
import TypedClient.Proofs.LiteralReading
import TypedClient.Proofs.PathParts

/-! # Reading templates

    What the language makes of the text of a template, part after part.

    * **Characters** stand for themselves, except that every line ends in a line
      feed. A backtick ends the template.
    * **Escapes** start with a backslash: a letter, digits of base sixteen, or the
      end of a line, which counts for nothing.
    * **Interpolations** start with a dollar sign and an opening brace. Only bare
      names are read there; a template with other code in it is not read on.
    * **Costs**: what is read off a text for some parts is never shorter than what
      is written for them, holds no fewer braces and backslashes, and no more dollar
      signs.
-/

namespace TypedClient.Template

/-! ### The reader -/

/-- A part of a template, as it is read. -/
inductive Part where
  /-- A character of the text that the template stands for. -/
  | fixed (c : Char)
  /-- The value of a name. -/
  | interpolated (name : List Char)
  deriving DecidableEq, Repr

/-- Cuts a text at its first closing brace. -/
def upToBrace (s : List Char) : Option (List Char × List Char) :=
  match s.dropWhile (fun c => c ≠ '\x7d') with
  | [] => none
  | _ :: rest => some (s.takeWhile (fun c => c ≠ '\x7d'), rest)

/-- What stands behind a backslash: the text that it stands for, and what is left.
    Digits other than a zero alone stand for nothing. -/
def escape : List Char → Option (List Char × List Char)
  | 'u' :: '\x7b' :: s =>
    (upToBrace s).bind (fun found =>
      if found.1 = [] then none
      else (Literal.unit? found.1).map (fun c => ([c], found.2)))
  | 'u' :: w :: x :: y :: z :: rest =>
    (Literal.unit? [w, x, y, z]).map (fun c => ([c], rest))
  | 'x' :: y :: z :: rest => (Literal.unit? [y, z]).map (fun c => ([c], rest))
  | '0' :: rest => if rest.head?.any Char.isDigit then none else some (['\x00'], rest)
  | '\r' :: '\n' :: rest => some ([], rest)
  | c :: rest =>
    if Literal.isLineEnd c then some ([], rest)
    else (Literal.escape? c).map (fun d => ([d], rest))
  | [] => none

/-- What stands between the braces of an interpolation: a bare name. -/
def interpolation (s : List Char) : Option (List Part × List Char) :=
  (upToBrace s).bind (fun found =>
    if Name.isPlainChars found.1 && !Name.isReserved found.1 then
      some ([.interpolated found.1], found.2)
    else none)

/-- **One step** of reading: the parts that come next, at most one, and what is
    left. There is none at the end of the template. -/
def next : List Char → Option (List Part × List Char)
  | [] => none
  | '`' :: _ => none
  | '\\' :: s => (escape s).map (fun found => (found.1.map Part.fixed, found.2))
  | '$' :: '\x7b' :: s => interpolation s
  | '\r' :: '\n' :: s => some ([.fixed '\n'], s)
  | '\r' :: s => some ([.fixed '\n'], s)
  | c :: s => some ([.fixed c], s)

/-- **Reading**: a text gives parts, step by step, and leaves a rest. -/
inductive Reads : List Char → List Part → List Char → Prop where
  | nil (s : List Char) : Reads s [] s
  /-- One step, and what is read from there. -/
  | step {s t rest : List Char} {parts more : List Part} (h : next s = some (parts, t))
      (hmore : Reads t more rest) : Reads s (parts ++ more) rest

/-! ### Writing -/

/-- How a part is written in the template of a URL. -/
def Part.chars : Part → List Char
  | .fixed c => Endpoint.pathChar c
  | .interpolated name => '$' :: braced name

/-- How parts are written. -/
def written (parts : List Part) : List Char :=
  parts.flatMap Part.chars

theorem written_cons (part : Part) (parts : List Part) :
    written (part :: parts) = part.chars ++ written parts :=
  List.flatMap_cons

theorem written_append (parts more : List Part) :
    written (parts ++ more) = written parts ++ written more :=
  List.flatMap_append

/-! ### Costs -/

/-- **Marks** are braces and backslashes: an escape may make the one of the other, but
    brings no more of them than it takes. -/
def isMark (c : Char) : Bool :=
  Name.isBrace c || c == '\\'

/-- Marks are counted apart, as no brace is a backslash. -/
theorem countP_isMark (s : List Char) :
    s.countP isMark = s.countP Name.isBrace + s.count '\\' := by
  induction s with
  | nil => rfl
  | cons c r ih =>
    rw [List.countP_cons, List.countP_cons, List.count_cons, ih, isMark]
    by_cases hc : c = '\\'
    · subst hc
      simp [Name.isBrace]
      omega
    · simp [hc]
      omega

/-- **Costs** of parts: what a text has to bring for them. -/
structure Pays (taken : List Char) (parts : List Part) : Prop where
  length : (written parts).length ≤ taken.length
  marks : (written parts).countP isMark ≤ taken.countP isMark
  dollars : taken.count '$' ≤ (written parts).count '$'
  /-- Every name that is read stands there. -/
  names : ∀ name, .interpolated name ∈ parts → '$' :: braced name <:+: taken

namespace Pays

theorem nil : Pays [] [] :=
  ⟨Nat.le_refl _, Nat.le_refl _, Nat.le_refl _, fun _ h => absurd h List.not_mem_nil⟩

theorem append {taken behind : List Char} {parts more : List Part} (h : Pays taken parts)
    (hmore : Pays behind more) : Pays (taken ++ behind) (parts ++ more) where
  length := by
    rw [written_append, List.length_append, List.length_append]
    exact Nat.add_le_add h.length hmore.length
  marks := by
    rw [written_append, List.countP_append, List.countP_append]
    exact Nat.add_le_add h.marks hmore.marks
  dollars := by
    rw [written_append, List.count_append, List.count_append]
    exact Nat.add_le_add h.dollars hmore.dollars
  names := by
    intro name hname
    rcases List.mem_append.1 hname with hname | hname
    · exact (h.names name hname).trans (List.prefix_append _ _).isInfix
    · exact (hmore.names name hname).trans (List.suffix_append _ _).isInfix

/-- What is written for a part pays for it. -/
theorem self (part : Part) : Pays part.chars [part] where
  length := by simp [written]
  marks := by simp [written]
  dollars := by simp [written]
  names := by
    intro name hname
    obtain rfl := List.mem_singleton.1 hname
    simp [Part.chars]

/-- Whatever is read behind a backslash is one character at most, and the
    backslash pays for it. -/
theorem escaped {taken value : List Char} (hne : taken ≠ []) (hvalue : value.length ≤ 1)
    (hdollars : '$' ∈ taken → taken = ['$'] ∧ value = ['$']) :
    Pays ('\\' :: taken) (value.map Part.fixed) := by
  have hlength : 0 < taken.length := List.length_pos_iff.2 hne
  have hcount : taken.count '$' ≤ (written (value.map Part.fixed)).count '$' := by
    by_cases hmem : '$' ∈ taken
    · obtain ⟨rfl, rfl⟩ := hdollars hmem
      decide
    · rw [List.count_eq_zero.2 hmem]
      exact Nat.zero_le _
  have hchar : ∀ c, (Endpoint.pathChar c).length ≤ 2
      ∧ (Endpoint.pathChar c).countP isMark ≤ 1 := by
    intro c
    unfold Endpoint.pathChar
    split
    · decide
    · exact ⟨Nat.le_succ 1, List.countP_le_length⟩
  cases value with
  | nil => exact ⟨Nat.zero_le _, Nat.zero_le _, hcount, by simp⟩
  | cons c more =>
    obtain rfl : more = [] := List.length_eq_zero_iff.1 (by simpa using hvalue)
    have hwritten : written ([c].map Part.fixed) = Endpoint.pathChar c := by
      simp [written, Part.chars]
    rw [hwritten] at hcount
    refine ⟨?_, ?_, ?_, by simp⟩
    · rw [hwritten, List.length_cons]
      exact Nat.le_trans (hchar c).1 (Nat.succ_le_succ hlength)
    · rw [hwritten, List.countP_cons]
      exact Nat.le_trans (hchar c).2 (Nat.le_add_left 1 _)
    · rw [hwritten, List.count_cons]
      simpa using hcount

end Pays

/-! ### What is read -/

theorem dollar_not_mem_of_unit? {digits : List Char} {c : Char}
    (h : Literal.unit? digits = some c) : '$' ∉ digits := by
  obtain ⟨n, hn, -⟩ := Option.bind_eq_some_iff.1 h
  intro hmem
  obtain ⟨v, hv⟩ := Digit.exists_value?_of_number? hn '$' hmem
  cases hv

/-- A cut at the first closing brace. -/
theorem of_upToBrace {s x rest : List Char} (h : upToBrace s = some (x, rest)) :
    s = x ++ '\x7d' :: rest := by
  unfold upToBrace at h
  split at h
  · cases h
  · rename_i c r hdrop
    obtain ⟨rfl, rfl⟩ := Prod.mk.inj (Option.some.inj h)
    have hc : c = '\x7d' := by
      have hhead := List.head?_dropWhile_not (fun c => decide (c ≠ '\x7d')) s
      rw [hdrop] at hhead
      simpa using hhead
    subst hc
    rw [← hdrop, List.takeWhile_append_dropWhile]

/-- A name without a closing brace is cut off in front of one. -/
theorem upToBrace_append {x : List Char} (h : '\x7d' ∉ x) (rest : List Char) :
    upToBrace (x ++ '\x7d' :: rest) = some (x, rest) := by
  have hall : ∀ c ∈ x, decide (c ≠ '\x7d') = true := by
    intro c hc
    exact decide_eq_true (fun heq => h (heq ▸ hc))
  unfold upToBrace
  rw [List.dropWhile_append_of_pos hall, List.takeWhile_append_of_pos hall]
  simp

/-- **Escapes**: what is read behind a backslash, and off which text. Only a dollar
    sign itself brings one. -/
theorem exists_of_escape {s value t : List Char} (h : escape s = some (value, t)) :
    ∃ taken, s = taken ++ t ∧ taken ≠ [] ∧ value.length ≤ 1
      ∧ ('$' ∈ taken → taken = ['$'] ∧ value = ['$']) := by
  unfold escape at h
  split at h
  · rename_i s
    obtain ⟨⟨digits, rest⟩, hcut, hdigits⟩ := Option.bind_eq_some_iff.1 h
    split at hdigits
    · cases hdigits
    · obtain ⟨c, hc, heq⟩ := Option.map_eq_some_iff.1 hdigits
      obtain ⟨rfl, rfl⟩ := Prod.mk.inj heq
      have hnone := dollar_not_mem_of_unit? hc
      refine ⟨'u' :: '\x7b' :: digits ++ ['\x7d'], ?_, by simp, Nat.le_refl 1, ?_⟩
      · rw [of_upToBrace hcut]
        simp
      · intro hmem
        exact absurd hmem (by simp [hnone])
  · rename_i w x y z rest _
    obtain ⟨c, hc, heq⟩ := Option.map_eq_some_iff.1 h
    obtain ⟨rfl, rfl⟩ := Prod.mk.inj heq
    have hnone := dollar_not_mem_of_unit? hc
    refine ⟨['u', w, x, y, z], rfl, by simp, Nat.le_refl 1, fun hmem => ?_⟩
    exact absurd (List.mem_of_ne_of_mem (by decide) hmem) hnone
  · rename_i y z rest
    obtain ⟨c, hc, heq⟩ := Option.map_eq_some_iff.1 h
    obtain ⟨rfl, rfl⟩ := Prod.mk.inj heq
    have hnone := dollar_not_mem_of_unit? hc
    refine ⟨['x', y, z], rfl, by simp, Nat.le_refl 1, fun hmem => ?_⟩
    exact absurd (List.mem_of_ne_of_mem (by decide) hmem) hnone
  · split at h
    · cases h
    · obtain ⟨rfl, rfl⟩ := Prod.mk.inj (Option.some.inj h)
      exact ⟨['0'], rfl, by simp, Nat.le_refl 1, fun hmem => absurd hmem (by decide)⟩
  · obtain ⟨rfl, rfl⟩ := Prod.mk.inj (Option.some.inj h)
    exact ⟨['\r', '\n'], rfl, by simp, Nat.zero_le 1, fun hmem => absurd hmem (by decide)⟩
  · rename_i c rest _ _ _ _ _
    split at h
    · rename_i hend
      obtain ⟨rfl, rfl⟩ := Prod.mk.inj (Option.some.inj h)
      refine ⟨[c], rfl, by simp, Nat.zero_le 1, fun hmem => ?_⟩
      rw [← List.mem_singleton.1 hmem] at hend
      exact absurd hend (by decide)
    · obtain ⟨d, hd, heq⟩ := Option.map_eq_some_iff.1 h
      obtain ⟨rfl, rfl⟩ := Prod.mk.inj heq
      refine ⟨[c], rfl, by simp, Nat.le_refl 1, fun hmem => ?_⟩
      obtain rfl := List.mem_singleton.1 hmem
      have hself : Literal.escape? '$' = some '$' := by decide
      rw [hself] at hd
      exact ⟨rfl, by rw [Option.some.inj hd]⟩
  · cases h

/-- **The step**: the text that a step goes over is not empty and pays for what is
    read, which is one part at most. -/
theorem exists_of_next {s t : List Char} {parts : List Part} (h : next s = some (parts, t)) :
    ∃ taken, s = taken ++ t ∧ taken ≠ [] ∧ parts.length ≤ 1 ∧ Pays taken parts := by
  unfold next at h
  split at h
  · cases h
  · cases h
  · obtain ⟨⟨value, rest⟩, hfound, heq⟩ := Option.map_eq_some_iff.1 h
    obtain ⟨rfl, rfl⟩ := Prod.mk.inj heq
    obtain ⟨taken, rfl, hne, hvalue, hdollars⟩ := exists_of_escape hfound
    exact ⟨'\\' :: taken, rfl, by simp, by simpa using hvalue, Pays.escaped hne hvalue hdollars⟩
  · obtain ⟨⟨name, rest⟩, hcut, hname⟩ := Option.bind_eq_some_iff.1 h
    split at hname
    · obtain ⟨rfl, rfl⟩ := Prod.mk.inj (Option.some.inj hname)
      refine ⟨'$' :: braced name, ?_, by simp, Nat.le_refl 1, Pays.self (.interpolated name)⟩
      rw [of_upToBrace hcut]
      simp [braced]
    · cases hname
  · obtain ⟨rfl, rfl⟩ := Prod.mk.inj (Option.some.inj h)
    refine ⟨['\r', '\n'], rfl, by simp, Nat.le_refl 1, ?_⟩
    exact ⟨by decide, by decide, by decide, by simp⟩
  · obtain ⟨rfl, rfl⟩ := Prod.mk.inj (Option.some.inj h)
    refine ⟨['\r'], rfl, by simp, Nat.le_refl 1, ?_⟩
    exact ⟨by decide, by decide, by decide, by simp⟩
  · rename_i c rest hend _ _ _ _
    obtain ⟨rfl, rfl⟩ := Prod.mk.inj (Option.some.inj h)
    have hself : (Part.fixed c).chars = [c] := if_neg hend
    exact ⟨[c], rfl, by simp, Nat.le_refl 1, hself ▸ Pays.self (.fixed c)⟩

-- An escape for a capital letter, and one that no digits stand behind.
example : next "\\x41b".toList = some ([.fixed 'A'], ['b']) := by decide
example : next "\\user".toList = none := by decide

namespace Reads

variable {s rest : List Char} {parts : List Part}

/-- **The run**: the text that is gone over pays for all that is read. -/
theorem exists_taken (h : Reads s parts rest) : ∃ taken, s = taken ++ rest ∧ Pays taken parts := by
  induction h with
  | nil s => exact ⟨[], rfl, .nil⟩
  | step hnext _ ih =>
    obtain ⟨first, rfl, -, -, hfirst⟩ := exists_of_next hnext
    obtain ⟨behind, rfl, hbehind⟩ := ih
    exact ⟨first ++ behind, (List.append_assoc _ _ _).symm, hfirst.append hbehind⟩

/-- Every step leaves less. -/
theorem length_le (h : Reads s parts rest) : rest.length ≤ s.length := by
  obtain ⟨taken, rfl, -⟩ := h.exists_taken
  rw [List.length_append]
  exact Nat.le_add_left _ _

/-- A reading that goes on leaves less than there was. -/
theorem length_lt_of_next {t : List Char} {first more : List Part}
    (hnext : next s = some (first, t)) (h : Reads t more rest) : rest.length < s.length := by
  obtain ⟨taken, rfl, hne, -, -⟩ := exists_of_next hnext
  have hpos := List.length_pos_iff.2 hne
  have hle := h.length_le
  rw [List.length_append]
  omega

/-- **One reading**: a text is read in one way up to a rest. -/
theorem unique {others : List Part} (h : Reads s parts rest) (hother : Reads s others rest) :
    parts = others := by
  induction h generalizing others with
  | nil s =>
    cases hother with
    | nil => rfl
    | step hnext hmore => exact absurd (length_lt_of_next hnext hmore) (Nat.lt_irrefl _)
  | step hnext hmore ih =>
    cases hother with
    | nil => exact absurd (length_lt_of_next hnext hmore) (Nat.lt_irrefl _)
    | step hnext' hmore' =>
      obtain ⟨rfl, rfl⟩ := Prod.mk.inj (Option.some.inj (hnext.symm.trans hnext'))
      rw [ih hmore']

/-- The first part of a reading is read in some step. -/
theorem exists_next {part : Part} {more : List Part} (h : Reads s (part :: more) rest) :
    ∃ first others t, next s = some (first, t) ∧ part :: more = first ++ others
      ∧ Reads t others rest := by
  generalize hparts : part :: more = parts at h
  cases h with
  | nil => cases hparts
  | step hnext hmore => exact ⟨_, _, _, hnext, rfl, hmore⟩

end Reads

/-! ### Parts that are read as they are written -/

/-- Parts whose text in front of a text that starts with no opening brace is read
    as the parts. -/
structure SelfReading (parts : List Part) : Prop where
  /-- Backslashes start escapes. -/
  backslash : .fixed '\\' ∉ parts
  /-- Carriage returns are read as line feeds. -/
  carriageReturn : .fixed '\r' ∉ parts
  /-- Behind a dollar sign an opening brace starts an interpolation. -/
  dollar : ¬ [.fixed '$', .fixed '\x7b'] <:+: parts

/-- Whether a part is read as it is written, by what stands behind it. -/
def Part.Stands (behind : List Char) : Part → Prop
  | .fixed c => c ≠ '\\' ∧ c ≠ '\r' ∧ (c = '$' → behind.head? ≠ some '\x7b')
  | .interpolated _ => True

/-- Names that can be read as names. -/
def Named (parts : List Part) : Prop :=
  ∀ name, .interpolated name ∈ parts →
    Name.isPlainChars name = true ∧ Name.isReserved name = false

theorem head?_written {parts : List Part} {rest : List Char} (hrest : rest.head? ≠ some '\x7b') :
    (written parts ++ rest).head? = some '\x7b' ↔ parts.head? = some (.fixed '\x7b') := by
  cases parts with
  | nil => simpa [written] using hrest
  | cons part more =>
    cases part with
    | fixed c =>
      by_cases hc : c = '`'
      · subst hc
        simp [written_cons, Part.chars, Endpoint.pathChar]
      · simp [written_cons, Part.chars, Endpoint.pathChar, hc]
    | interpolated name => simp [written_cons, Part.chars]

theorem selfReading_cons {part : Part} {parts : List Part} {rest : List Char}
    (hrest : rest.head? ≠ some '\x7b') :
    SelfReading (part :: parts) ↔ part.Stands (written parts ++ rest) ∧ SelfReading parts := by
  constructor
  · intro h
    refine ⟨?_, ?_, ?_, ?_⟩
    · cases part with
      | interpolated name => exact trivial
      | fixed c =>
        refine ⟨?_, ?_, ?_⟩
        · rintro rfl
          exact h.backslash List.mem_cons_self
        · rintro rfl
          exact h.carriageReturn List.mem_cons_self
        · rintro rfl hhead
          obtain ⟨more, rfl⟩ := List.head?_eq_some_iff.1 ((head?_written hrest).1 hhead)
          exact h.dollar (List.prefix_append [_, _] more).isInfix
    · exact fun hmem => h.backslash (List.mem_cons_of_mem part hmem)
    · exact fun hmem => h.carriageReturn (List.mem_cons_of_mem part hmem)
    · exact fun hinfix => h.dollar (List.infix_cons hinfix)
  · rintro ⟨hpart, h⟩
    refine ⟨?_, ?_, ?_⟩
    · intro hmem
      rcases List.mem_cons.1 hmem with rfl | hmem
      · exact hpart.1 rfl
      · exact h.backslash hmem
    · intro hmem
      rcases List.mem_cons.1 hmem with rfl | hmem
      · exact hpart.2.1 rfl
      · exact h.carriageReturn hmem
    · intro hinfix
      rcases List.infix_cons_iff.1 hinfix with ⟨more, hmore⟩ | hinfix
      · obtain ⟨rfl, rfl⟩ := List.cons.inj hmore
        exact hpart.2.2 rfl ((head?_written hrest).2 rfl)
      · exact h.dollar hinfix

/-- Names that can be read hold no closing brace. -/
theorem Named.not_mem {parts : List Part} {name : List Char} (h : Named parts)
    (hname : .interpolated name ∈ parts) : '\x7d' ∉ name := by
  have hplain := (h name hname).1
  intro hmem
  exact absurd (isFollowing_of_isPlainChars hplain _ hmem) (by decide)

/-- **One part**: a part is read as it is written exactly if it stands. -/
theorem next_chars_iff {part : Part} {behind : List Char} (hnamed : Named [part]) :
    next (part.chars ++ behind) = some ([part], behind) ↔ part.Stands behind := by
  cases part with
  | interpolated name =>
    have hread : next ((Part.interpolated name).chars ++ behind)
        = interpolation (name ++ '\x7d' :: behind) := by
      simp [Part.chars, braced, next]
    have hcut := upToBrace_append (hnamed.not_mem List.mem_cons_self) behind
    obtain ⟨hplain, hreserved⟩ := hnamed name List.mem_cons_self
    rw [hread, interpolation, hcut]
    simp [Part.Stands, hplain, hreserved]
  | fixed c =>
    by_cases hc : c = '`'
    · subst hc
      exact iff_of_true rfl ⟨by decide, by decide, fun h => absurd h (by decide)⟩
    · have hchars : (Part.fixed c).chars = [c] := if_neg hc
      rw [hchars, List.singleton_append]
      constructor
      · intro h
        refine ⟨?_, ?_, ?_⟩
        · rintro rfl
          obtain ⟨⟨value, rest⟩, hfound, heq⟩ := Option.map_eq_some_iff.1 h
          obtain ⟨taken, hbehind, hne, -⟩ := exists_of_escape hfound
          obtain rfl : rest = behind := (Prod.mk.inj heq).2
          exact hne (List.self_eq_append_left.1 hbehind)
        · rintro rfl
          unfold next at h
          split at h <;> simp_all
        · rintro rfl hhead
          obtain ⟨more, rfl⟩ := List.head?_eq_some_iff.1 hhead
          obtain ⟨found, -, hfound⟩ := Option.bind_eq_some_iff.1 h
          split at hfound <;> simp at hfound
      · rintro ⟨hbackslash, hreturn, hdollar⟩
        unfold next
        split <;> simp_all

/-- **All parts**: parts are read as they are written exactly if they are self
    reading. -/
theorem reads_written_iff {parts : List Part} {rest : List Char}
    (hrest : rest.head? ≠ some '\x7b') (hnamed : Named parts) :
    Reads (written parts ++ rest) parts rest ↔ SelfReading parts := by
  induction parts with
  | nil => exact iff_of_true (.nil rest) ⟨List.not_mem_nil, List.not_mem_nil, by simp⟩
  | cons part more ih =>
    have hpart : Named [part] := fun name hname =>
      hnamed name (List.mem_cons.2 (.inl (List.mem_singleton.1 hname)))
    rw [selfReading_cons hrest, ← ih (fun name hname => hnamed name (List.mem_cons_of_mem _ hname)),
      ← next_chars_iff hpart, written_cons, List.append_assoc]
    constructor
    · intro h
      obtain ⟨first, others, t, hnext, hparts, hothers⟩ := h.exists_next
      obtain ⟨taken, htaken, hne, hone, hfirst⟩ := exists_of_next hnext
      obtain ⟨behind, rfl, hbehind⟩ := hothers.exists_taken
      -- What is written pays exactly, so the step goes over the text of its part.
      have hsame : taken ++ behind = written first ++ written others := by
        refine (List.append_left_inj rest).1 ?_
        rw [← written_append, ← hparts, written_cons, List.append_assoc, List.append_assoc]
        exact htaken.symm
      have hlength := congrArg List.length hsame
      rw [List.length_append, List.length_append] at hlength
      have hle := hfirst.length
      have hle' := hbehind.length
      obtain ⟨rfl, rfl⟩ := List.append_inj hsame (by omega)
      cases first with
      | nil => exact absurd rfl hne
      | cons head tail =>
        obtain rfl : tail = [] := List.length_eq_zero_iff.1 (by simpa using hone)
        obtain ⟨rfl, rfl⟩ := List.cons.inj hparts
        exact ⟨hnext, hothers⟩
    · rintro ⟨hnext, hmore⟩
      exact .step hnext hmore

end TypedClient.Template
