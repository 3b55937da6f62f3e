import TypedClient.Package.Function
import TypedClient.Proofs.Arguments
import TypedClient.Proofs.PathTokens

/-! # Templates of URLs

    The tokens of a path are replaced one argument after the other, each time
    in the text that the replacements before have left. Whether this comes to
    the same as replacing every token once depends on what a replacement finds
    in the text that another one has put in.

    * **Fillings**: as long as only texts without braces are looked for, every
      text on the way is the path with something in each of its slots. A
      replacement that finds the value of a filling puts the name of its
      argument there, behind one dollar sign more.
    * **Braces**: a replacement that finds a text with braces of its own takes
      braces away, and none ever come back.
    * **Separable** arguments are those for which neither makes a difference.
-/

namespace TypedClient

/-! ### Fillings -/

/-- What stands in the place of a slot: dollar signs, and a value in braces. -/
@[ext]
structure Filling where
  /-- The number of dollar signs. -/
  dollars : Nat
  /-- What stands between the braces. -/
  value : List Char
  deriving DecidableEq, Repr

namespace Filling

/-- The text of a filling. -/
def chars (f : Filling) : List Char :=
  List.replicate f.dollars '$' ++ braced f.value

/-- The text of a filling in front of another text, cut at its braces. -/
theorem chars_append (f : Filling) (s : List Char) :
    f.chars ++ s
      = List.replicate f.dollars '$' ++ '\x7b' :: (f.value ++ '\x7d' :: s) := by
  simp [chars, braced]

/-- A slot before any replacement. -/
def untouched (text : List Char) : Filling :=
  ⟨0, text.flatMap Endpoint.pathChar⟩

/-- A slot that holds an argument. -/
def ofArgument (a : Argument) : Filling :=
  ⟨1, a.name.toList⟩

/-- **The step**: what putting an argument in the place of its token makes of a
    filling. -/
def chase (f : Filling) (a : Argument) : Filling :=
  if f.value = a.key.toList then ⟨f.dollars + 1, a.name.toList⟩ else f

/-- **The run**: what all arguments make of a filling, one after the other. -/
def run (arguments : List Argument) (f : Filling) : Filling :=
  arguments.foldl chase f

/-- Dollar signs never get fewer. -/
theorem dollars_le_run (arguments : List Argument) (f : Filling) :
    f.dollars ≤ (run arguments f).dollars := by
  induction arguments generalizing f with
  | nil => exact Nat.le_refl _
  | cons a rest ih =>
    have hstep : f.dollars ≤ (f.chase a).dollars := by
      unfold chase
      split
      · exact Nat.le_succ _
      · exact Nat.le_refl _
    exact Nat.le_trans hstep (ih (f.chase a))

/-- A run leaves a filling as it is if no argument has its value as key; to this
    end it is enough that the dollar signs stay. -/
theorem run_eq_self_iff {arguments : List Argument} {f : Filling} :
    (run arguments f = f ↔ ∀ a ∈ arguments, a.key.toList ≠ f.value)
      ∧ ((run arguments f).dollars = f.dollars → run arguments f = f) := by
  induction arguments with
  | nil => exact ⟨by simp [run], fun _ => rfl⟩
  | cons a rest ih =>
    by_cases ha : f.value = a.key.toList
    · -- A step that finds the value adds a dollar sign for good.
      have hstep : run (a :: rest) f = run rest ⟨f.dollars + 1, a.name.toList⟩ := by
        rw [run, List.foldl_cons, chase, if_pos ha]
        rfl
      have hmore : f.dollars + 1 ≤ (run (a :: rest) f).dollars :=
        hstep ▸ dollars_le_run rest ⟨f.dollars + 1, a.name.toList⟩
      refine ⟨⟨fun h => ?_, fun h => ?_⟩, fun h => ?_⟩
      · rw [h] at hmore
        omega
      · exact absurd ha.symm (h a List.mem_cons_self)
      · omega
    · have hstep : run (a :: rest) f = run rest f := by
        rw [run, List.foldl_cons, chase, if_neg ha]
        rfl
      rw [hstep, List.forall_mem_cons]
      exact ⟨⟨fun h => ⟨fun h' => ha h'.symm, ih.1.1 h⟩, fun h => ih.1.2 h.2⟩, ih.2⟩

/-- A run that adds one dollar sign ends at the name of an argument that has the
    value as key. -/
theorem exists_of_run_dollars {arguments : List Argument} {f : Filling}
    (h : (run arguments f).dollars = f.dollars + 1) :
    ∃ a ∈ arguments, a.key.toList = f.value ∧ (run arguments f).value = a.name.toList := by
  induction arguments with
  | nil => exact absurd h (Nat.ne_of_lt (Nat.lt_succ_self _))
  | cons a rest ih =>
    by_cases ha : f.value = a.key.toList
    · have hstep : run (a :: rest) f = run rest ⟨f.dollars + 1, a.name.toList⟩ := by
        rw [run, List.foldl_cons, chase, if_pos ha]
        rfl
      rw [hstep] at h ⊢
      exact ⟨a, List.mem_cons_self, ha.symm, by rw [run_eq_self_iff.2 h]⟩
    · have hstep : run (a :: rest) f = run rest f := by
        rw [run, List.foldl_cons, chase, if_neg ha]
        rfl
      rw [hstep] at h ⊢
      obtain ⟨b, hb, hfound⟩ := ih h
      exact ⟨b, List.mem_cons_of_mem a hb, hfound⟩

/-- Values without braces stay without braces. -/
theorem braceless_chase {f : Filling} {a : Argument} (hf : Braceless f.value)
    (ha : Braceless a.name.toList) : Braceless (f.chase a).value := by
  unfold chase
  split
  · exact ha
  · exact hf

end Filling

/-! ### Templates -/

/-- The text of a part whose slot is filled. -/
def PathPart.filled (fill : List Char → Filling) : PathPart → List Char
  | .plain c => Endpoint.pathChar c
  | .slot text => (fill text).chars

/-- The text of parts whose slots are filled. -/
def template (fill : List Char → Filling) (parts : List PathPart) : List Char :=
  parts.flatMap (PathPart.filled fill)

/-- A template, by its first part: a character outside of slots. -/
theorem template_plain (fill : List Char → Filling) (c : Char) (rest : List PathPart) :
    template fill (.plain c :: rest) = Endpoint.pathChar c ++ template fill rest :=
  List.flatMap_cons

/-- A template, by its first part: a slot. -/
theorem template_slot (fill : List Char → Filling) (text : List Char) (rest : List PathPart) :
    template fill (.slot text :: rest) = (fill text).chars ++ template fill rest :=
  List.flatMap_cons

/-- The values that fill slots hold no braces. -/
def BracelessFill (fill : List Char → Filling) (parts : List PathPart) : Prop :=
  ∀ text, .slot text ∈ parts → Braceless (fill text).value

variable {fill other : List Char → Filling} {parts : List PathPart} {a : Argument}

/-- Dollar signs are no braces. -/
theorem braceless_dollars (n : Nat) : Braceless (List.replicate n '$') := by
  intro c hc
  rw [(List.mem_replicate.1 hc).2]
  rfl

/-- A character of the path, as it stands in the template, has a brace in it only
    if it is one. -/
theorem braceless_pathChar {c : Char} (h : Name.isBrace c = false) :
    Braceless (Endpoint.pathChar c) := by
  unfold Endpoint.pathChar
  split
  · exact Braceless.cons_iff.2 ⟨rfl, Braceless.cons_iff.2 ⟨rfl, .nil⟩⟩
  · exact Braceless.cons_iff.2 ⟨h, .nil⟩

/-- A text stands for itself in a template if it holds no backtick. -/
theorem flatMap_pathChar_eq_self_iff {s : List Char} :
    s.flatMap Endpoint.pathChar = s ↔ '`' ∉ s := by
  induction s with
  | nil => simp
  | cons c r ih =>
    rw [List.flatMap_cons, Endpoint.pathChar]
    split
    · rename_i hc
      subst hc
      simp
    · rename_i hc
      rw [List.singleton_append, List.cons_inj_right, ih, List.mem_cons, not_or]
      exact ⟨fun h => ⟨fun h' => hc h'.symm, h⟩, fun h => h.2⟩

/-- A text keeps its braces, and gets no others, in a template. -/
theorem braceless_flatMap_pathChar {s : List Char} (h : Braceless s) :
    Braceless (s.flatMap Endpoint.pathChar) := by
  intro c hc
  obtain ⟨d, hd, hcd⟩ := List.mem_flatMap.1 hc
  exact braceless_pathChar (h d hd) c hcd

/-- The escaped path is the template with untouched slots. -/
theorem template_untouched (path : List Char) :
    template Filling.untouched (PathPart.parts path) = path.flatMap Endpoint.pathChar := by
  have hparts : ∀ part : PathPart,
      part.filled Filling.untouched = part.chars.flatMap Endpoint.pathChar := by
    intro part
    cases part with
    | plain c => exact (List.append_nil _).symm
    | slot text =>
      simp [PathPart.filled, PathPart.chars, Filling.chars, Filling.untouched, braced,
        Endpoint.pathChar]
  rw [template, List.flatMap_congr (fun part _ => hparts part), ← List.flatMap_assoc,
    PathPart.flatMap_chars_parts]

/-- The slots of a path hold no braces before any replacement. -/
theorem bracelessFill_untouched (path : List Char) :
    BracelessFill Filling.untouched (PathPart.parts path) :=
  fun _ htext => braceless_flatMap_pathChar (PathPart.slot_mem_parts.1 htext).1

/-- Fillings of some slots fill fewer of them. -/
theorem BracelessFill.tail {part : PathPart} {rest : List PathPart}
    (h : BracelessFill fill (part :: rest)) : BracelessFill fill rest :=
  fun text htext => h text (List.mem_cons_of_mem _ htext)

/-- **Reading back**: a template tells what its slots are filled with. -/
theorem template_eq_iff (hfill : BracelessFill fill parts) (hother : BracelessFill other parts) :
    template fill parts = template other parts
      ↔ ∀ text, .slot text ∈ parts → fill text = other text := by
  induction parts with
  | nil => simp [template]
  | cons part rest ih =>
    have hrest := ih hfill.tail hother.tail
    cases part with
    | plain c =>
      rw [template_plain, template_plain, List.append_cancel_left_eq, hrest]
      simp only [List.mem_cons, reduceCtorEq, false_or]
    | slot text =>
      rw [template_slot, template_slot]
      constructor
      · intro h
        rw [Filling.chars_append, Filling.chars_append] at h
        -- The dollar signs end at the first brace, the value at the second.
        obtain ⟨hdollars, -, hbehind⟩ :=
          Braceless.split (braceless_dollars _) (braceless_dollars _) rfl rfl h
        obtain ⟨hvalue, -, htail⟩ := Braceless.split (hfill text List.mem_cons_self)
          (hother text List.mem_cons_self) rfl rfl hbehind
        have hcount := congrArg List.length hdollars
        simp only [List.length_replicate] at hcount
        have hhere : fill text = other text := Filling.ext hcount hvalue
        intro t ht
        rcases List.mem_cons.1 ht with heq | ht
        · rw [PathPart.slot.inj heq, hhere]
        · exact hrest.1 htail t ht
      · intro h
        have htail := hrest.2 (fun t ht => h t (List.mem_cons_of_mem _ ht))
        rw [h text List.mem_cons_self, htail]

/-- A text without braces has none to count. -/
theorem Braceless.countP_eq_zero {s : List Char} (h : Braceless s) :
    s.countP Name.isBrace = 0 :=
  List.countP_eq_zero.2 fun c hc => by simp [h c hc]

/-- A text in braces has two more of them. -/
theorem countP_braced (s : List Char) :
    (braced s).countP Name.isBrace = s.countP Name.isBrace + 2 := by
  rw [braced, List.countP_append, List.countP_cons]
  rfl

/-- All templates of the same parts have the same number of braces. -/
theorem countP_template (hfill : BracelessFill fill parts) (hother : BracelessFill other parts) :
    (template fill parts).countP Name.isBrace = (template other parts).countP Name.isBrace := by
  have hslot : ∀ f : Filling, Braceless f.value → f.chars.countP Name.isBrace = 2 := by
    intro f hf
    rw [Filling.chars, List.countP_append, countP_braced, (braceless_dollars _).countP_eq_zero,
      hf.countP_eq_zero]
  induction parts with
  | nil => rfl
  | cons part rest ih =>
    have hrest := ih hfill.tail hother.tail
    cases part with
    | plain c =>
      rw [template_plain, template_plain, List.countP_append, List.countP_append, hrest]
    | slot text =>
      rw [template_slot, template_slot, List.countP_append, List.countP_append, hrest,
        hslot _ (hfill text List.mem_cons_self), hslot _ (hother text List.mem_cons_self)]

/-! ### One replacement -/

/-- A text without braces in front of a closing brace starts a template only if
    it stands there as characters outside of slots. -/
theorem closing?_of_template {text behind : List Char} (h : Braceless text)
    (htemplate : template fill parts = text ++ '\x7d' :: behind) :
    PathPart.closing? parts ≠ none := by
  induction parts generalizing text with
  | nil => simp [template] at htemplate
  | cons part rest ih =>
    cases part with
    | slot t =>
      rw [template_slot, Filling.chars_append] at htemplate
      have := (Braceless.split (braceless_dollars _) h rfl rfl htemplate).2.1
      exact absurd this (by decide)
    | plain c =>
      rw [template_plain] at htemplate
      rw [PathPart.closing?]
      split
      · simp
      · rename_i hclose
        split
        · rename_i hopen
          subst hopen
          have := (Braceless.split .nil h rfl rfl htemplate).2.1
          exact absurd this (by decide)
        · rename_i hopen
          have hc : Braceless (Endpoint.pathChar c) :=
            braceless_pathChar (by simp [Name.isBrace, hclose, hopen])
          -- Both texts go on behind the character, which holds no brace.
          have hprefix : Endpoint.pathChar c <+: text := by
            rcases List.append_eq_append_iff.1 htemplate with ⟨u, hu, -⟩ | ⟨u, hu, hbehind⟩
            · exact ⟨u, hu.symm⟩
            · cases u with
              | nil => exact ⟨[], by rw [hu, List.append_nil, List.append_nil]⟩
              | cons d v =>
                have hd : '\x7d' = d := (List.cons.inj hbehind).1
                have hmem : d ∈ Endpoint.pathChar c := by
                  rw [hu]
                  exact List.mem_append_right text List.mem_cons_self
                exact absurd (hc d hmem) (by rw [← hd]; decide)
          obtain ⟨u, rfl⟩ := hprefix
          rw [List.append_assoc, List.append_cancel_left_eq] at htemplate
          have hu : Braceless u := fun d hd => h d (List.mem_append_right _ hd)
          intro hnone
          exact ih hu htemplate (Option.map_eq_none_iff.1 hnone)

/-- In front of a filling an argument finds the value, or nothing. -/
theorem placeArgument_filling {f : Filling} (hf : Braceless f.value)
    (ha : Braceless a.key.toList) (s : List Char) :
    Endpoint.placeArgument (f.chars ++ s) a
      = (f.chase a).chars ++ Endpoint.placeArgument s a := by
  have hdollars : Endpoint.placeArgument (f.chars ++ s) a
      = List.replicate f.dollars '$' ++ Endpoint.placeArgument (braced f.value ++ s) a := by
    rw [Filling.chars, List.append_assoc]
    exact Text.replaceAll_append_of_not_mem ((braceless_dollars _).not_mem rfl) _
  rw [hdollars, Filling.chase]
  split
  · rename_i hkey
    have hfound : Endpoint.placeArgument (braced f.value ++ s) a
        = ('$' :: braced a.name.toList) ++ Endpoint.placeArgument s a := by
      rw [hkey]
      exact Text.replaceAll_append (by simp) s
    rw [hfound, Filling.chars, List.replicate_succ']
    simp only [List.append_assoc, List.cons_append, List.nil_append]
  · rename_i hkey
    have hbraced : braced f.value ++ s = '\x7b' :: ((f.value ++ ['\x7d']) ++ s) := rfl
    have hstart : ¬ braced a.key.toList <+: '\x7b' :: ((f.value ++ ['\x7d']) ++ s) := by
      intro hprefix
      obtain ⟨behind, hbehind⟩ := PathPart.braced_prefix_iff.1 hprefix
      rw [List.append_assoc] at hbehind
      exact hkey (Braceless.split hf ha rfl rfl hbehind).1
    -- Behind its opening brace the filling holds no other one.
    have hclosed : '\x7b' ∉ f.value ++ ['\x7d'] := by
      intro hmem
      rcases List.mem_append.1 hmem with hmem | hmem
      · exact hf.not_mem rfl hmem
      · exact absurd (List.mem_singleton.1 hmem) (by decide)
    have hkept : Endpoint.placeArgument (braced f.value ++ s) a
        = braced f.value ++ Endpoint.placeArgument s a := by
      rw [hbraced]
      exact (Text.replaceAll_cons hstart).trans
        (congrArg ('\x7b' :: ·) (Text.replaceAll_append_of_not_mem hclosed s))
    rw [hkept, Filling.chars, List.append_assoc]

/-- **One replacement**: an argument whose key holds no braces changes nothing
    but the fillings that have its key as value. -/
theorem placeArgument_template (hparts : PathPart.Settled parts) (hfill : BracelessFill fill parts)
    (ha : Braceless a.key.toList) :
    Endpoint.placeArgument (template fill parts) a
      = template (fun text => (fill text).chase a) parts := by
  induction hparts with
  | nil => rfl
  | @plain c rest hc hrest ih =>
    rw [template_plain, template_plain, ← ih hfill.tail]
    by_cases hopen : c = '\x7b'
    · subst hopen
      -- The brace opens nothing, so the key cannot start here.
      have hstart : ¬ braced a.key.toList <+: '\x7b' :: template fill rest := by
        intro hprefix
        obtain ⟨behind, hbehind⟩ := PathPart.braced_prefix_iff.1 hprefix
        exact closing?_of_template ha hbehind (hc rfl)
      exact Text.replaceAll_cons hstart
    · refine Text.replaceAll_append_of_not_mem ?_ _
      intro hmem
      unfold Endpoint.pathChar at hmem
      split at hmem
      · exact absurd hmem (by decide)
      · exact hopen (List.mem_singleton.1 hmem).symm
  | @slot text rest htext hrest ih =>
    rw [template_slot, template_slot, ← ih hfill.tail]
    exact placeArgument_filling (hfill text List.mem_cons_self) ha _

/-- Names that hold no braces keep fillings without braces. -/
theorem BracelessFill.chase (hfill : BracelessFill fill parts) (ha : Braceless a.name.toList) :
    BracelessFill (fun text => (fill text).chase a) parts :=
  fun text htext => Filling.braceless_chase (hfill text htext) ha

/-- **The step**: a replacement that does not find a key with braces of its own
    is one of fillings. -/
theorem placeArgument_template_of_absent (hparts : PathPart.Settled parts)
    (hfill : BracelessFill fill parts) (ha : Braceless a.name.toList)
    (hkey : ¬ Braceless a.key.toList → ¬ braced a.key.toList <:+: template fill parts) :
    Endpoint.placeArgument (template fill parts) a
      = template (fun text => (fill text).chase a) parts := by
  by_cases hbraces : Braceless a.key.toList
  · exact placeArgument_template hparts hfill hbraces
  · have hkept : Endpoint.placeArgument (template fill parts) a = template fill parts :=
      Text.replaceAll_of_absent (hkey hbraces)
    rw [hkept, template_eq_iff hfill (hfill.chase ha)]
    intro text htext
    -- No value is a key with braces.
    exact (if_neg fun h => hbraces (by rw [← h]; exact hfill text htext)).symm

/-- Replacing does not add braces, and takes some away where it finds a key with
    braces of its own. -/
theorem countP_placeArgument (ha : Braceless a.name.toList) (s : List Char) :
    (Endpoint.placeArgument s a).countP Name.isBrace ≤ s.countP Name.isBrace
      ∧ (¬ Braceless a.key.toList → braced a.key.toList <:+: s →
          (Endpoint.placeArgument s a).countP Name.isBrace < s.countP Name.isBrace) := by
  have hname : ('$' :: braced a.name.toList).countP Name.isBrace = 2 := by
    rw [List.countP_cons, countP_braced, ha.countP_eq_zero]
    rfl
  have hle : ('$' :: braced a.name.toList).countP Name.isBrace
      ≤ (braced a.key.toList).countP Name.isBrace := by
    rw [hname, countP_braced]
    omega
  obtain ⟨hcount, hfound⟩ := Text.countP_replaceAll (by simp [braced]) hle s
  refine ⟨hcount, fun hkey hinfix => hfound ?_ hinfix⟩
  have hpos : 0 < a.key.toList.countP Name.isBrace := by
    rw [List.countP_pos_iff]
    refine Classical.byContradiction fun hnone => hkey fun c hc => ?_
    exact Bool.eq_false_iff.2 fun hbrace => hnone ⟨c, hc, hbrace⟩
  rw [hname, countP_braced]
  omega

/-! ### All replacements -/

/-- No argument whose key holds braces is found on the way. -/
def Unbroken (arguments : List Argument) (fill : List Char → Filling) (parts : List PathPart) :
    Prop :=
  ∀ before a after, arguments = before ++ a :: after → ¬ Braceless a.key.toList →
    ¬ braced a.key.toList <:+: template (fun text => (fill text).run before) parts

/-- What is found on the way, by the first argument. -/
theorem unbroken_cons {rest : List Argument} :
    Unbroken (a :: rest) fill parts
      ↔ (¬ Braceless a.key.toList → ¬ braced a.key.toList <:+: template fill parts)
        ∧ Unbroken rest (fun text => (fill text).chase a) parts := by
  constructor
  · intro h
    refine ⟨h [] a rest rfl, ?_⟩
    intro before b after hsplit
    exact h (a :: before) b after (by rw [hsplit]; rfl)
  · rintro ⟨hhere, hrest⟩ before b after hsplit
    cases before with
    | nil =>
      obtain ⟨rfl, -⟩ := List.cons.inj hsplit
      exact hhere
    | cons c before =>
      obtain ⟨rfl, htail⟩ := List.cons.inj hsplit
      exact hrest before b after htail

/-- Names that hold no braces keep fillings without braces, however many. -/
theorem BracelessFill.run (hfill : BracelessFill fill parts) {arguments : List Argument}
    (hnames : ∀ a ∈ arguments, Braceless a.name.toList) :
    BracelessFill (fun text => (fill text).run arguments) parts := by
  induction arguments generalizing fill with
  | nil => exact hfill
  | cons a rest ih =>
    obtain ⟨ha, hrest⟩ := List.forall_mem_cons.1 hnames
    exact ih (hfill.chase ha) hrest

/-- **The run**: as long as no key with braces of its own is found, replacing all
    arguments is a run of fillings. -/
theorem foldl_placeArgument (hparts : PathPart.Settled parts) {arguments : List Argument}
    (hfill : BracelessFill fill parts) (hnames : ∀ a ∈ arguments, Braceless a.name.toList)
    (h : Unbroken arguments fill parts) :
    arguments.foldl Endpoint.placeArgument (template fill parts)
      = template (fun text => (fill text).run arguments) parts := by
  induction arguments generalizing fill with
  | nil => rfl
  | cons a rest ih =>
    obtain ⟨ha, hrest⟩ := List.forall_mem_cons.1 hnames
    obtain ⟨hhere, htail⟩ := unbroken_cons.1 h
    rw [List.foldl_cons, placeArgument_template_of_absent hparts hfill ha hhere]
    exact ih (hfill.chase ha) hrest htail

/-- Replacing all arguments does not add braces. -/
theorem countP_foldl_placeArgument_le {arguments : List Argument}
    (hnames : ∀ a ∈ arguments, Braceless a.name.toList) (s : List Char) :
    (arguments.foldl Endpoint.placeArgument s).countP Name.isBrace ≤ s.countP Name.isBrace := by
  induction arguments generalizing s with
  | nil => exact Nat.le_refl _
  | cons a rest ih =>
    obtain ⟨ha, hrest⟩ := List.forall_mem_cons.1 hnames
    exact Nat.le_trans (ih hrest _) (countP_placeArgument ha s).1

/-- **Broken runs**: once a key with braces of its own is found, there are fewer
    braces than in any template of the parts. -/
theorem countP_foldl_placeArgument_lt (hparts : PathPart.Settled parts) {arguments : List Argument}
    (hfill : BracelessFill fill parts) (hnames : ∀ a ∈ arguments, Braceless a.name.toList)
    (h : ¬ Unbroken arguments fill parts) :
    (arguments.foldl Endpoint.placeArgument (template fill parts)).countP Name.isBrace
      < (template fill parts).countP Name.isBrace := by
  induction arguments generalizing fill with
  | nil =>
    refine absurd (fun before a after hsplit => ?_) h
    exact absurd hsplit.symm (List.append_ne_nil_of_right_ne_nil before (List.cons_ne_nil a after))
  | cons a rest ih =>
    obtain ⟨ha, hrest⟩ := List.forall_mem_cons.1 hnames
    rw [unbroken_cons] at h
    rw [List.foldl_cons]
    by_cases hhere : ¬ Braceless a.key.toList → ¬ braced a.key.toList <:+: template fill parts
    · rw [placeArgument_template_of_absent hparts hfill ha hhere,
        countP_template hfill (hfill.chase ha)]
      exact ih (hfill.chase ha) hrest (fun htail => h ⟨hhere, htail⟩)
    · obtain ⟨hkey, hfound⟩ := Classical.not_imp.1 hhere
      exact Nat.lt_of_le_of_lt (countP_foldl_placeArgument_le hrest _)
        ((countP_placeArgument ha _).2 hkey (Classical.not_not.1 hfound))

/-! ### Substitution -/

/-- What a slot is to hold: the first argument whose key it is. A slot without
    text is no token and stays. -/
def placed (arguments : List Argument) (text : List Char) : Filling :=
  match (if text = [] then none else arguments.find? (fun a => a.key.toList = text)) with
  | some a => .ofArgument a
  | none => .untouched text

/-- **The substitution**: the path with every token replaced by the first
    argument of that key, all at once, and everything else left alone but for
    the escape of backticks. -/
def substituted (arguments : List Argument) (path : String) : List Char :=
  template (placed arguments) (PathPart.parts path.toList)

/-- **Separable** arguments: no replacement finds anything but the tokens of the
    path. -/
structure Separable (arguments : List Argument) (path : String) : Prop where
  /-- No token holds a backtick, which escaping would tear apart. -/
  plain : ∀ token ∈ Name.pathTokens path, '`' ∉ token.toList
  /-- No argument behind the first one of a token has the name of that one as
      key. -/
  first : ∀ before a after, arguments = before ++ a :: after → a.key ∈ Name.pathTokens path →
    (∀ b ∈ before, b.key ≠ a.key) → ∀ b ∈ after, b.key ≠ a.name
  /-- No argument has an empty key if there are braces with nothing in between. -/
  empty : braced [] <:+: path.toList → ∀ a ∈ arguments, a.key ≠ ""
  /-- No argument has a key with braces that stands in braces once the arguments
      before it are in their places. -/
  braces : ∀ before a after, arguments = before ++ a :: after → ¬ Braceless a.key.toList →
    ¬ braced a.key.toList <:+: substituted before path

/-- A slot that the arguments fill as they should. -/
structure Settles (arguments : List Argument) (text : List Char) : Prop where
  /-- Escaping does not touch it. -/
  plain : '`' ∉ text
  /-- It is left alone if it holds nothing. -/
  empty : text = [] → ∀ a ∈ arguments, a.key.toList ≠ []
  /-- The first argument with its text as key stays in it. -/
  first : ∀ before a after, arguments = before ++ a :: after → a.key.toList = text →
    (∀ b ∈ before, b.key.toList ≠ text) → ∀ b ∈ after, b.key.toList ≠ a.name.toList

section

variable {arguments before after : List Argument} {text : List Char}

/-- Fewer arguments fill a slot as well. -/
theorem Settles.of_append (h : Settles (before ++ after) text) : Settles before text where
  plain := h.plain
  empty := fun hempty a ha => h.empty hempty a (List.mem_append_left after ha)
  first := by
    intro x a y hsplit hkey hfirst b hb
    exact h.first x a (y ++ after) (by rw [hsplit, List.append_assoc]; rfl) hkey hfirst b
      (List.mem_append_left after hb)

/-- A slot without backticks starts out as it is. -/
theorem Filling.untouched_eq (h : '`' ∉ text) : Filling.untouched text = ⟨0, text⟩ :=
  congrArg (Filling.mk 0) (flatMap_pathChar_eq_self_iff.2 h)

/-- The run of a slot up to its first argument. -/
theorem Filling.run_untouched (hplain : '`' ∉ text) (hkey : a.key.toList = text)
    (hfirst : ∀ b ∈ before, b.key.toList ≠ text) :
    (Filling.untouched text).run (before ++ a :: after) = (Filling.ofArgument a).run after := by
  have hbefore : Filling.run before ⟨0, text⟩ = ⟨0, text⟩ := Filling.run_eq_self_iff.1.2 hfirst
  rw [Filling.untouched_eq hplain, Filling.run, List.foldl_append]
  show Filling.run (a :: after) (Filling.run before ⟨0, text⟩) = _
  rw [hbefore, Filling.run, List.foldl_cons, Filling.chase, if_pos hkey.symm]
  rfl

/-- The first argument with the text of a slot as key belongs there. -/
theorem placed_eq_ofArgument (hne : text ≠ []) (hkey : a.key.toList = text)
    (hfirst : ∀ b ∈ before, b.key.toList ≠ text) :
    placed (before ++ a :: after) text = .ofArgument a := by
  have hfind : (before ++ a :: after).find? (fun b => b.key.toList = text) = some a := by
    rw [List.find?_eq_some_iff_append]
    exact ⟨by simpa using hkey, before, after, rfl, fun b hb => by simpa using hfirst b hb⟩
  rw [placed, if_neg hne, hfind]

/-- Without an argument that has its text as key a slot is left alone. -/
theorem placed_eq_untouched (h : text = [] ∨ ∀ a ∈ arguments, a.key.toList ≠ text) :
    placed arguments text = .untouched text := by
  unfold placed
  split
  · rename_i a hfound
    split at hfound
    · simp at hfound
    · rename_i hne
      have hkey : a.key.toList = text := by simpa using List.find?_some hfound
      exact absurd hkey (h.resolve_left hne a (List.mem_of_find?_eq_some hfound))
  · rfl

/-- A slot that the arguments fill as they should ends up with what belongs
    there. -/
theorem Settles.run_eq_placed (h : Settles arguments text) :
    (Filling.untouched text).run arguments = placed arguments text := by
  by_cases hcovered : ∃ a ∈ arguments, a.key.toList = text
  · have hsome : (arguments.find? (fun a => a.key.toList = text)).isSome = true := by
      obtain ⟨a, ha, hkey⟩ := hcovered
      exact List.find?_isSome.2 ⟨a, ha, by simpa using hkey⟩
    obtain ⟨a, hfound⟩ := Option.isSome_iff_exists.1 hsome
    obtain ⟨hkey, before, after, hsplit, hbefore⟩ := List.find?_eq_some_iff_append.1 hfound
    have hkey : a.key.toList = text := by simpa using hkey
    have hfirst : ∀ b ∈ before, b.key.toList ≠ text := fun b hb => by simpa using hbefore b hb
    have hne : text ≠ [] := by
      rintro rfl
      exact h.empty rfl a (List.mem_of_find?_eq_some hfound) hkey
    have hafter := h.first before a after hsplit hkey hfirst
    rw [hsplit, Filling.run_untouched h.plain hkey hfirst, placed_eq_ofArgument hne hkey hfirst]
    exact Filling.run_eq_self_iff.1.2 hafter
  · have hnone : ∀ a ∈ arguments, a.key.toList ≠ text := fun a ha hkey => hcovered ⟨a, ha, hkey⟩
    rw [placed_eq_untouched (.inr hnone), Filling.untouched_eq h.plain]
    exact Filling.run_eq_self_iff.1.2 hnone

/-- A slot that ends up with what belongs there is filled as it should. -/
theorem Settles.of_run_eq (hnamed : WellNamed arguments)
    (hcovered : text ≠ [] → ∃ a ∈ arguments, a.key.toList = text)
    (h : (Filling.untouched text).run arguments = placed arguments text) :
    Settles arguments text := by
  by_cases hne : text = []
  · subst hne
    rw [placed_eq_untouched (.inl rfl)] at h
    have hnone : ∀ a ∈ arguments, a.key.toList ≠ [] := Filling.run_eq_self_iff.1.1 h
    refine ⟨List.not_mem_nil, fun _ => hnone, ?_⟩
    intro before a after hsplit hkey
    exact absurd hkey (hnone a (by rw [hsplit]; simp))
  · have hplain : '`' ∉ text := by
      obtain ⟨a, ha, hkey⟩ := hcovered hne
      have hsome : (arguments.find? (fun a => a.key.toList = text)).isSome = true :=
        List.find?_isSome.2 ⟨a, ha, by simpa using hkey⟩
      obtain ⟨b, hfound⟩ := Option.isSome_iff_exists.1 hsome
      have hb : b.key.toList = text := by simpa using List.find?_some hfound
      rw [placed, if_neg hne, hfound] at h
      obtain ⟨c, hc, hckey, hcname⟩ := Filling.exists_of_run_dollars
        (f := .untouched text) (congrArg Filling.dollars h)
      -- What was put in is the name of an argument for the escaped text.
      have hname : c.name = b.name := by
        rw [h] at hcname
        exact String.toList_inj.1 hcname.symm
      have hsame := hnamed.eq_of_name_eq hc (List.mem_of_find?_eq_some hfound) hname
      rw [hsame, hb] at hckey
      exact flatMap_pathChar_eq_self_iff.1 hckey.symm
    refine ⟨hplain, fun h => absurd h hne, ?_⟩
    intro before a after hsplit hkey hfirst
    rw [hsplit, Filling.run_untouched hplain hkey hfirst,
      placed_eq_ofArgument hne hkey hfirst] at h
    exact Filling.run_eq_self_iff.1.1 h

end

/-! ### Paths -/

/-- A token of a path is a slot with something in it. -/
theorem mem_pathTokens_iff {path token : String} :
    token ∈ Name.pathTokens path
      ↔ token.toList ≠ [] ∧ .slot token.toList ∈ PathPart.parts path.toList := by
  rw [Name.mem_pathTokens, Name.IsToken, and_assoc, PathPart.slot_mem_parts]

/-- Names of well-named arguments hold no braces. -/
theorem WellNamed.braceless {arguments : List Argument} (h : WellNamed arguments) :
    ∀ a ∈ arguments, Braceless a.name.toList := by
  intro a ha c hc
  have hchar := h.chars a ha c hc
  cases hbrace : Name.isBrace c with
  | false => rfl
  | true =>
    simp only [Name.isBrace, Bool.or_eq_true, beq_iff_eq] at hbrace
    rcases hbrace with rfl | rfl <;> exact absurd hchar (by decide)

/-- What belongs in slots holds no braces. -/
theorem bracelessFill_placed {arguments : List Argument}
    (hnames : ∀ a ∈ arguments, Braceless a.name.toList) (path : List Char) :
    BracelessFill (placed arguments) (PathPart.parts path) := by
  intro text htext
  unfold placed
  split
  · rename_i a hfound
    split at hfound
    · simp at hfound
    · exact hnames a (List.mem_of_find?_eq_some hfound)
  · exact bracelessFill_untouched path text htext

/-- Once all slots are filled as they should, the text on the way is a
    substitution. -/
theorem template_run_eq_substituted {before after : List Argument} {path : String}
    (h : ∀ text, .slot text ∈ PathPart.parts path.toList → Settles (before ++ after) text) :
    template (fun text => (Filling.untouched text).run before) (PathPart.parts path.toList)
      = substituted before path := by
  refine List.flatMap_congr fun part hpart => ?_
  cases part with
  | plain c => rfl
  | slot text =>
    show ((Filling.untouched text).run before).chars = (placed before text).chars
    rw [(h text hpart).of_append.run_eq_placed]

/-- Arguments are separable if they fill all slots as they should and none is
    found elsewhere on the way. -/
theorem separable_iff {arguments : List Argument} {path : String} :
    Separable arguments path
      ↔ (∀ text, .slot text ∈ PathPart.parts path.toList → Settles arguments text)
        ∧ Unbroken arguments Filling.untouched (PathPart.parts path.toList) := by
  have hway : (∀ text, .slot text ∈ PathPart.parts path.toList → Settles arguments text) →
      ∀ before a after, arguments = before ++ a :: after →
        template (fun text => (Filling.untouched text).run before) (PathPart.parts path.toList)
          = substituted before path := by
    intro hslots before a after hsplit
    exact template_run_eq_substituted (fun text htext => hsplit ▸ hslots text htext)
  constructor
  · intro h
    have hslots : ∀ text, .slot text ∈ PathPart.parts path.toList → Settles arguments text := by
      intro text htext
      have hempty : text = [] → ∀ a ∈ arguments, a.key.toList ≠ [] := by
        rintro rfl a ha hkey
        exact h.empty (PathPart.slot_mem_parts.1 htext).2 a ha (String.toList_eq_nil_iff.1 hkey)
      refine ⟨fun hmem => ?_, hempty, ?_⟩
      · have htoken : String.ofList text ∈ Name.pathTokens path := by
          rw [mem_pathTokens_iff, String.toList_ofList]
          exact ⟨List.ne_nil_of_mem hmem, htext⟩
        exact h.plain _ htoken (by rwa [String.toList_ofList])
      · rintro before a after hsplit rfl hfirst b hb hname
        have htoken : a.key ∈ Name.pathTokens path :=
          mem_pathTokens_iff.2 ⟨fun hnil => hempty hnil a (by rw [hsplit]; simp) hnil, htext⟩
        exact h.first before a after hsplit htoken
          (fun c hc heq => hfirst c hc (congrArg String.toList heq)) b hb
          (String.toList_inj.1 hname)
    refine ⟨hslots, fun before a after hsplit hkey => ?_⟩
    rw [hway hslots before a after hsplit]
    exact h.braces before a after hsplit hkey
  · rintro ⟨hslots, hbroken⟩
    refine ⟨?_, ?_, ?_, ?_⟩
    · intro token htoken
      exact (hslots _ (mem_pathTokens_iff.1 htoken).2).plain
    · intro before a after hsplit htoken hfirst b hb hname
      exact (hslots _ (mem_pathTokens_iff.1 htoken).2).first before a after hsplit rfl
        (fun c hc heq => hfirst c hc (String.toList_inj.1 heq)) b hb (congrArg String.toList hname)
    · intro hinfix a ha hkey
      exact (hslots [] (PathPart.slot_mem_parts.2 ⟨.nil, hinfix⟩)).empty rfl a ha
        (by rw [hkey]; rfl)
    · intro before a after hsplit hkey
      rw [← hway hslots before a after hsplit]
      exact hbroken before a after hsplit hkey

/-- **Replacing is substituting** exactly if the arguments are separable. -/
theorem foldl_placeArgument_eq_substituted_iff {arguments : List Argument} {path : String}
    (hnamed : WellNamed arguments)
    (hcovered : ∀ token ∈ Name.pathTokens path, ∃ a ∈ arguments, a.key = token) :
    arguments.foldl Endpoint.placeArgument (path.toList.flatMap Endpoint.pathChar)
        = substituted arguments path
      ↔ Separable arguments path := by
  have hparts := PathPart.settled_parts path.toList
  have huntouched := bracelessFill_untouched path.toList
  have hplaced := bracelessFill_placed hnamed.braceless path.toList
  rw [← template_untouched, separable_iff, substituted]
  constructor
  · intro h
    have hbroken : Unbroken arguments Filling.untouched (PathPart.parts path.toList) := by
      refine Classical.byContradiction fun hbroken => ?_
      have hfewer := countP_foldl_placeArgument_lt hparts huntouched hnamed.braceless hbroken
      rw [h, countP_template hplaced huntouched] at hfewer
      exact Nat.lt_irrefl _ hfewer
    rw [foldl_placeArgument hparts huntouched hnamed.braceless hbroken,
      template_eq_iff (huntouched.run hnamed.braceless) hplaced] at h
    refine ⟨fun text htext => Settles.of_run_eq hnamed (fun hne => ?_) (h text htext), hbroken⟩
    have htoken : String.ofList text ∈ Name.pathTokens path := by
      rw [mem_pathTokens_iff, String.toList_ofList]
      exact ⟨hne, htext⟩
    obtain ⟨a, ha, hkey⟩ := hcovered _ htoken
    exact ⟨a, ha, by rw [hkey, String.toList_ofList]⟩
  · rintro ⟨hslots, hbroken⟩
    rw [foldl_placeArgument hparts huntouched hnamed.braceless hbroken,
      template_eq_iff (huntouched.run hnamed.braceless) hplaced]
    exact fun text htext => (hslots text htext).run_eq_placed

/-! ### Endpoints of documents -/

/-- **URLs of endpoints**: every token of the path has an argument, and the path
    in the template of the URL is the substitution of all tokens at once exactly
    if the arguments are separable. -/
theorem Document.url_eq_substituted_iff {d : Document} {source : String} {e : Endpoint}
    (h : e ∈ (d.client source).value.endpoints) :
    (∀ token ∈ Name.pathTokens e.path, ∃ a ∈ e.pathArguments, a.key = token)
      ∧ (e.urlChars = substituted e.pathArguments e.path ++ Query.suffixChars e.queryArguments
          ↔ Separable e.pathArguments e.path) := by
  obtain ⟨site, -, name, -, rfl⟩ := exists_site h
  have hnamed : WellNamed (site.endpoint d.allDefinitions name).pathArguments :=
    (site.wellNamed_endpoint d.allDefinitions name).sublist List.filter_sublist
  have hcovered : ∀ token ∈ Name.pathTokens site.path,
      ∃ a ∈ (site.endpoint d.allDefinitions name).pathArguments, a.key = token :=
    fun token htoken => site.exists_key_of_mem_pathTokens d.allDefinitions name htoken
  refine ⟨hcovered, ?_⟩
  rw [Endpoint.urlChars, List.append_cancel_right_eq]
  exact foldl_placeArgument_eq_substituted_iff hnamed hcovered

/-- A document with one operation, which declares nothing, at a path. -/
def Document.ofPath (path : String) : Document :=
  { paths := [(path, { entries := [("get", .operation {})] })] }

/-- Two tokens whose identifiers are no tokens. -/
theorem Document.url_eq_substituted_sample :
    ∃ e ∈ ((ofPath "/teams/\x7bteam-id\x7d/\x7bid\x7d").client "").value.endpoints,
      Separable e.pathArguments e.path := by
  have hcomputed : ∃ e ∈ ((ofPath "/teams/\x7bteam-id\x7d/\x7bid\x7d").client "").value.endpoints,
      e.urlChars = substituted e.pathArguments e.path ++ Query.suffixChars e.queryArguments := by
    decide +kernel
  obtain ⟨e, he, hurl⟩ := hcomputed
  exact ⟨e, he, (url_eq_substituted_iff he).2.1 hurl⟩

-- The identifier of the first token is the second token: it is found in what the
-- first replacement has put in.
example : ((Document.ofPath "/a/\x7bx-y\x7d/\x7bxY\x7d").client "").value.endpoints.map
      (fun e => (e.urlChars, substituted e.pathArguments e.path))
    = [("/a/$$\x7bxY2\x7d/$\x7bxY2\x7d".toList, "/a/$\x7bxY\x7d/$\x7bxY2\x7d".toList)] := by
  decide +kernel

end TypedClient
