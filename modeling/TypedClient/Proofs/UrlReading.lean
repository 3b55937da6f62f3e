import TypedClient.Proofs.PlacedParts
import TypedClient.Proofs.SignatureNames
import TypedClient.Proofs.TemplateReading

/-! # Reading URLs

    What the language reads off the template of a URL, up to the query string.

    * **Expected**: the characters of the path, as they are, and the value of an
      argument in the place of each token.
    * **Replacing** does not bring about a reading that substitution does not: what
      the template of a URL has to bring for the expected parts, it has only if it is
      the substitution.
    * **Escapes**: the substitution in turn is read as expected exactly if no
      backslash, no carriage return and no dollar sign in front of an opening brace
      is left outside of the tokens, as only backticks are escaped.
-/

namespace TypedClient

/-! ### Expected parts -/

namespace Template

/-- What a part of a path stands for: a token for the first argument whose key it
    is. A slot without text is no token. -/
def ofPart (arguments : List Argument) : PathPart → List Part
  | .plain c => [.fixed c]
  | .slot text =>
    match (if text = [] then none else arguments.find? (fun a => a.key.toList = text)) with
    | some a => [.interpolated a.name.toList]
    | none => (braced text).map Part.fixed

/-- **What a path stands for**: its characters, and the arguments for its tokens. -/
def ofPath (arguments : List Argument) (path : String) : List Part :=
  (PathPart.parts path.toList).flatMap (ofPart arguments)

variable {arguments : List Argument} {path : String}

theorem written_map_fixed (s : List Char) :
    written (s.map Part.fixed) = s.flatMap Endpoint.pathChar := by
  rw [written, List.flatMap_map]
  rfl

/-- What a path stands for is written as the substitution. -/
theorem written_ofPath : written (ofPath arguments path) = substituted arguments path := by
  rw [written, ofPath, List.flatMap_assoc, substituted, template]
  refine List.flatMap_congr fun part _ => ?_
  cases part with
  | plain c => exact List.append_nil _
  | slot text =>
    show written (ofPart arguments (.slot text)) = (placed arguments text).chars
    rw [ofPart, placed]
    generalize (if text = [] then none else _ : Option Argument) = found
    cases found with
    | some a => simp [written, Part.chars, Filling.chars, Filling.ofArgument]
    | none =>
      rw [written_map_fixed]
      simp [braced, Filling.chars, Filling.untouched, Endpoint.pathChar]

theorem exists_of_interpolated_mem {name : List Char}
    (h : .interpolated name ∈ ofPath arguments path) : ∃ a ∈ arguments, name = a.name.toList := by
  obtain ⟨part, -, hmem⟩ := List.mem_flatMap.1 h
  cases part with
  | plain c => simp [ofPart] at hmem
  | slot text =>
    rw [ofPart] at hmem
    split at hmem
    · rename_i a hfound
      split at hfound
      · cases hfound
      · exact ⟨a, List.mem_of_find?_eq_some hfound, by simpa using hmem⟩
    · simp at hmem

end Template

/-! ### Characters of templates -/

/-- Each backtick of a text takes one character more. -/
theorem length_flatMap_pathChar (s : List Char) :
    (s.flatMap Endpoint.pathChar).length = s.length + s.count '`' := by
  induction s with
  | nil => rfl
  | cons c r ih =>
    rw [List.flatMap_cons, List.length_append, ih, List.length_cons, List.count_cons,
      Endpoint.pathChar]
    split
    · rename_i hc
      simp [hc]
      omega
    · rename_i hc
      simp [hc]
      omega

/-- Backticks stay where they are. -/
theorem backtick_mem_flatMap_pathChar {s : List Char} :
    '`' ∈ s.flatMap Endpoint.pathChar ↔ '`' ∈ s := by
  rw [List.mem_flatMap]
  constructor
  · rintro ⟨c, hc, hmem⟩
    unfold Endpoint.pathChar at hmem
    split at hmem
    · rename_i hc'
      rwa [← hc']
    · rw [List.mem_singleton.1 hmem]
      exact hc
  · exact fun h => ⟨'`', h, by decide⟩

namespace Filling

/-- A filling has its dollar signs, and those of its value. -/
theorem count_chars (f : Filling) : f.chars.count '$' = f.dollars + f.value.count '$' := by
  simp [chars, braced]

end Filling

/-- **Fewer dollar signs**: if the fillings of no slot have fewer dollar signs than
    others, the template has no fewer, and as many only if all fillings do. -/
theorem count_template_le {fill other : List Char → Filling} {parts : List PathPart}
    (h : ∀ text, .slot text ∈ parts → (fill text).chars.count '$' ≤ (other text).chars.count '$') :
    (template fill parts).count '$' ≤ (template other parts).count '$'
      ∧ ((template other parts).count '$' ≤ (template fill parts).count '$' →
          ∀ text, .slot text ∈ parts →
            (other text).chars.count '$' ≤ (fill text).chars.count '$') := by
  induction parts with
  | nil => exact ⟨Nat.le_refl _, fun _ _ htext => absurd htext List.not_mem_nil⟩
  | cons part rest ih =>
    obtain ⟨hle, hall⟩ := ih fun text htext => h text (List.mem_cons_of_mem part htext)
    cases part with
    | plain c =>
      rw [template_plain, template_plain, List.count_append, List.count_append]
      refine ⟨Nat.add_le_add_left hle _, fun hother text htext => ?_⟩
      exact hall (Nat.le_of_add_le_add_left hother) text (by simpa using htext)
    | slot text =>
      have hhere := h text List.mem_cons_self
      rw [template_slot, template_slot, List.count_append, List.count_append]
      refine ⟨Nat.add_le_add hhere hle, fun hother t ht => ?_⟩
      rcases List.mem_cons.1 ht with heq | ht
      · rw [PathPart.slot.inj heq]
        omega
      · exact hall (by omega) t ht

/-! ### Replacing -/

/-- **Fitting** arguments: they are well named, by usable names, and every token of
    the path is the key of one. -/
structure Fits (arguments : List Argument) (path : String) : Prop where
  named : WellNamed arguments
  usable : ∀ a ∈ arguments, Name.Usable a.name
  covered : ∀ token ∈ Name.pathTokens path, ∃ a ∈ arguments, a.key = token

/-- A path with all arguments in place, one after the other. -/
def replaced (arguments : List Argument) (path : String) : List Char :=
  arguments.foldl Endpoint.placeArgument (path.toList.flatMap Endpoint.pathChar)

namespace Fits

variable {arguments : List Argument} {path : String} {text v : List Char}

/-- A slot with a text is the key of an argument whose value is expected there. -/
theorem exists_argument (h : Fits arguments path) (htext : .slot text ∈ PathPart.parts path.toList)
    (hne : text ≠ []) :
    ∃ before a after, arguments = before ++ a :: after ∧ a.key.toList = text
      ∧ (∀ b ∈ before, b.key.toList ≠ text)
      ∧ .interpolated a.name.toList ∈ Template.ofPath arguments path := by
  have htoken : String.ofList text ∈ Name.pathTokens path := by
    rw [mem_pathTokens_iff, String.toList_ofList]
    exact ⟨hne, htext⟩
  obtain ⟨b, hb, hbkey⟩ := h.covered _ htoken
  have hsome : (arguments.find? (fun a => a.key.toList = text)).isSome = true :=
    List.find?_isSome.2 ⟨b, hb, by simp [hbkey]⟩
  obtain ⟨a, hfound⟩ := Option.isSome_iff_exists.1 hsome
  have hexpected : .interpolated a.name.toList ∈ Template.ofPath arguments path := by
    refine List.mem_flatMap.2 ⟨.slot text, htext, ?_⟩
    rw [Template.ofPart, if_neg hne, hfound]
    exact List.mem_singleton.2 rfl
  obtain ⟨hkey, before, after, hsplit, hfirst⟩ := List.find?_eq_some_iff_append.1 hfound
  exact ⟨before, a, after, hsplit, by simpa using hkey, fun b hb => by simpa using hfirst b hb,
    hexpected⟩

theorem exists_expected (h : Fits arguments path) (htext : .slot text ∈ PathPart.parts path.toList)
    (hne : text ≠ []) :
    ∃ a ∈ arguments, a.key.toList = text
      ∧ .interpolated a.name.toList ∈ Template.ofPath arguments path := by
  obtain ⟨before, a, after, hsplit, hkey, -, hexpected⟩ := h.exists_argument htext hne
  exact ⟨a, hsplit ▸ List.mem_append_cons_self, hkey, hexpected⟩

/-- A slot of the escaped path is one of the path, escaped. -/
theorem exists_slot_of_escaped
    (hv : .slot v ∈ PathPart.parts (path.toList.flatMap Endpoint.pathChar)) :
    ∃ text, .slot text ∈ PathPart.parts path.toList ∧ v = text.flatMap Endpoint.pathChar := by
  rw [← template_untouched] at hv
  exact slot_mem_parts_template (PathPart.settled_parts _) (bracelessFill_untouched _) hv

/-- Names hold letters, digits and underscores only. -/
theorem not_mem_name (h : Fits arguments path) {a : Argument} (ha : a ∈ arguments) {c : Char}
    (hc : Name.isParameterChar c = false) : c ∉ a.name.toList := by
  intro hmem
  rw [h.named.chars a ha c hmem] at hc
  cases hc

/-- A slot with a backtick in it stands in the text on the way only if it is another
    slot of the path, escaped. -/
theorem exists_shorter_of_backtick_mem (h : Fits arguments path) {before : List Argument}
    (hbefore : ∀ a ∈ before, a ∈ arguments) (hmem : '`' ∈ v)
    (hv : .slot v ∈ PathPart.parts
      (before.foldl Endpoint.placeArgument (path.toList.flatMap Endpoint.pathChar))) :
    ∃ text, .slot text ∈ PathPart.parts path.toList ∧ '`' ∈ text ∧ text.length < v.length := by
  have hnames : ∀ a ∈ before, Braceless a.name.toList := fun a ha =>
    h.named.braceless a (hbefore a ha)
  rcases of_slot_mem_foldl hnames hv with ⟨hstart, -⟩ | ⟨front, a, behind, hfront, hname, -⟩
  · obtain ⟨text, htext, rfl⟩ := exists_slot_of_escaped hstart
    have hbacktick := backtick_mem_flatMap_pathChar.1 hmem
    have hpos := List.count_pos_iff.2 hbacktick
    have hlength := length_flatMap_pathChar text
    exact ⟨text, htext, hbacktick, by omega⟩
  · have ha : a ∈ before := hfront ▸ List.mem_append_cons_self
    exact absurd (hname ▸ hmem) (h.not_mem_name (hbefore a ha) (by decide))

/-- If every expected name fills a slot, no slot of the path holds a backtick: the
    shortest one that does would have to be found to be filled, and it is not
    found, as it is escaped. -/
theorem backtick_not_mem (h : Fits arguments path)
    (hfilled : ∀ name, .interpolated name ∈ Template.ofPath arguments path →
      .slot name ∈ PathPart.parts (replaced arguments path))
    (htext : .slot text ∈ PathPart.parts path.toList) : '`' ∉ text := by
  have hnames := h.named.braceless
  induction hn : text.length using Nat.strongRecOn generalizing text with
  | ind n ih =>
    intro hmem
    obtain ⟨a, ha, hkey, hexpected⟩ := h.exists_expected htext (List.ne_nil_of_mem hmem)
    rcases of_slot_mem_foldl hnames (hfilled _ hexpected) with
      ⟨hstart, hnone⟩ | ⟨before, b, after, hsplit, hname, hfound⟩
    · -- The name is a token of its own, and that one would have been replaced.
      obtain ⟨u, hu, hname⟩ := exists_slot_of_escaped hstart
      have hplain : '`' ∉ u := by
        rw [← backtick_mem_flatMap_pathChar, ← hname]
        exact h.not_mem_name ha (by decide)
      rw [flatMap_pathChar_eq_self_iff.2 hplain] at hname
      have hne : u ≠ [] := by
        rw [← hname, Ne, String.toList_eq_nil_iff]
        exact (h.usable a ha).ne_empty
      obtain ⟨b, hb, hbkey, -⟩ := h.exists_expected hu hne
      exact hnone b hb (hbkey.trans hname.symm)
    · have hb : b ∈ arguments := hsplit ▸ List.mem_append_cons_self
      obtain rfl := h.named.eq_of_name_eq ha hb (String.toList_inj.1 hname)
      rw [hkey] at hfound
      have hslot := PathPart.slot_mem_parts.2 ⟨(PathPart.slot_mem_parts.1 htext).1, hfound⟩
      have hbefore : ∀ c ∈ before, c ∈ arguments := fun c hc => by
        rw [hsplit]
        exact List.mem_append_left _ hc
      obtain ⟨u, hu, hbacktick, hlt⟩ := h.exists_shorter_of_backtick_mem hbefore hmem hslot
      exact ih u.length (hn ▸ hlt) hu rfl hbacktick

/-- Slots at the end hold names or nothing, if no slot of the path holds a backtick. -/
theorem of_slot_mem_replaced (h : Fits arguments path)
    (hplain : ∀ text, .slot text ∈ PathPart.parts path.toList → '`' ∉ text)
    (hv : .slot v ∈ PathPart.parts (replaced arguments path)) :
    v = [] ∨ ∃ a ∈ arguments, v = a.name.toList := by
  rcases of_slot_mem_foldl h.named.braceless hv with
    ⟨hstart, hnone⟩ | ⟨before, a, after, hsplit, hname, -⟩
  · obtain ⟨u, hu, rfl⟩ := exists_slot_of_escaped hstart
    rw [flatMap_pathChar_eq_self_iff.2 (hplain u hu)] at hnone ⊢
    by_cases hne : u = []
    · exact .inl hne
    · obtain ⟨a, ha, hkey, -⟩ := h.exists_expected hu hne
      exact absurd hkey (hnone a ha)
  · exact .inr ⟨a, hsplit ▸ List.mem_append_cons_self, hname⟩

/-- **Backslashes**: outside of slots replacing adds none, and in slots there are
    none, so the substitution has as many at least. -/
theorem count_backslash_le (h : Fits arguments path)
    (hplain : ∀ text, .slot text ∈ PathPart.parts path.toList → '`' ∉ text) :
    (replaced arguments path).count '\\' ≤ (substituted arguments path).count '\\' := by
  have hparts := PathPart.settled_parts path.toList
  have huntouched := bracelessFill_untouched path.toList
  have hplaced := bracelessFill_placed h.named.braceless path.toList
  have hname : ∀ a ∈ arguments, '\\' ∉ a.name.toList := fun a ha => h.not_mem_name ha (by decide)
  have hreplaced : (replaced arguments path).count '\\'
      = (PathPart.parts (replaced arguments path)).count (.plain '\\') := by
    rw [← PathPart.count_flatMap_chars (by decide), PathPart.flatMap_chars_parts]
    intro v hv
    rcases h.of_slot_mem_replaced hplain hv with rfl | ⟨a, ha, rfl⟩
    · exact List.not_mem_nil
    · exact hname a ha
  have hsubstituted : (PathPart.parts (substituted arguments path)).count (.plain '\\')
      ≤ (substituted arguments path).count '\\' := by
    have hle := PathPart.count_plain_le (PathPart.parts (substituted arguments path)) '\\'
    rwa [PathPart.flatMap_chars_parts] at hle
  calc (replaced arguments path).count '\\'
      = (PathPart.parts (replaced arguments path)).count (.plain '\\') := hreplaced
    _ ≤ (PathPart.parts (path.toList.flatMap Endpoint.pathChar)).count (.plain '\\') :=
        count_parts_foldl_le h.named.braceless (by decide) _
    _ = (PathPart.parts (substituted arguments path)).count (.plain '\\') := by
        rw [← template_untouched]
        exact count_parts_template hparts huntouched hplaced (by decide)
    _ ≤ (substituted arguments path).count '\\' := hsubstituted

/-- **Slots**: the run of a slot goes through what belongs there, which holds no
    dollar sign of its own. -/
theorem exists_run_placed (h : Fits arguments path)
    (htext : .slot text ∈ PathPart.parts path.toList) (hplain : '`' ∉ text) :
    ∃ rest, (Filling.untouched text).run arguments = (placed arguments text).run rest
      ∧ '$' ∉ (placed arguments text).value := by
  by_cases hne : text = []
  · have huntouched : placed arguments text = .untouched text := placed_eq_untouched (.inl hne)
    refine ⟨arguments, by rw [huntouched], ?_⟩
    rw [huntouched, hne]
    exact List.not_mem_nil
  · obtain ⟨before, a, after, hsplit, hkey, hfirst, -⟩ := h.exists_argument htext hne
    have ha : a ∈ arguments := hsplit ▸ List.mem_append_cons_self
    have hplaced : placed arguments text = .ofArgument a := by
      rw [hsplit]
      exact placed_eq_ofArgument hne hkey hfirst
    refine ⟨after, ?_, ?_⟩
    · rw [hplaced, hsplit]
      exact Filling.run_untouched hplain hkey hfirst
    · rw [hplaced]
      exact h.not_mem_name ha (by decide)

/-- **No other reading**: the template of a URL is the substitution if it has what
    the expected parts take. -/
theorem replaced_eq_substituted (h : Fits arguments path)
    (hpays : Template.Pays (replaced arguments path) (Template.ofPath arguments path)) :
    replaced arguments path = substituted arguments path := by
  have hnames := h.named.braceless
  have hparts := PathPart.settled_parts path.toList
  have huntouched := bracelessFill_untouched path.toList
  have hplaced := bracelessFill_placed hnames path.toList
  have hplain : ∀ text, .slot text ∈ PathPart.parts path.toList → '`' ∉ text := by
    refine fun text htext => h.backtick_not_mem (fun name hname => ?_) htext
    obtain ⟨a, ha, rfl⟩ := Template.exists_of_interpolated_mem hname
    exact PathPart.slot_mem_parts.2
      ⟨hnames a ha, (List.suffix_cons _ _).isInfix.trans (hpays.names _ hname)⟩
  have hbroken : Unbroken arguments Filling.untouched (PathPart.parts path.toList) := by
    refine Classical.byContradiction fun hbroken => ?_
    have hfewer := countP_foldl_placeArgument_lt hparts huntouched hnames hbroken
    rw [countP_template huntouched hplaced, template_untouched] at hfewer
    have hbackslash := h.count_backslash_le hplain
    have hmarks := hpays.marks
    rw [Template.written_ofPath, Template.countP_isMark, Template.countP_isMark] at hmarks
    have hbraces : (replaced arguments path).countP Name.isBrace
        < (substituted arguments path).countP Name.isBrace := hfewer
    omega
  have hrun : replaced arguments path
      = template (fun text => (Filling.untouched text).run arguments)
          (PathPart.parts path.toList) := by
    rw [replaced, ← template_untouched]
    exact foldl_placeArgument hparts huntouched hnames hbroken
  -- No slot has gained a dollar sign, so each one holds what belongs there.
  have hslot : ∀ text, .slot text ∈ PathPart.parts path.toList →
      (placed arguments text).chars.count '$'
          ≤ ((Filling.untouched text).run arguments).chars.count '$'
        ∧ (((Filling.untouched text).run arguments).chars.count '$'
            ≤ (placed arguments text).chars.count '$' →
          (Filling.untouched text).run arguments = placed arguments text) := by
    intro text htext
    obtain ⟨rest, hrest, hvalue⟩ := h.exists_run_placed htext (hplain text htext)
    have hmore := Filling.dollars_le_run rest (placed arguments text)
    rw [hrest, Filling.count_chars, Filling.count_chars, List.count_eq_zero.2 hvalue]
    refine ⟨by omega, fun hle => Filling.run_eq_self_iff.2 ?_⟩
    omega
  obtain ⟨-, hsame⟩ := count_template_le fun text htext => (hslot text htext).1
  have hdollars := hpays.dollars
  rw [Template.written_ofPath, hrun, substituted] at hdollars
  rw [hrun, substituted, template_eq_iff (huntouched.run hnames) hplaced]
  exact fun text htext => (hslot text htext).2 (hsame hdollars text htext)

/-- **Reading the template**: it is read as expected exactly if the arguments are
    separable and the expected parts are read as they are written. -/
theorem reads_iff (h : Fits arguments path) {rest : List Char}
    (hrest : rest.head? ≠ some '\x7b') :
    Template.Reads (replaced arguments path ++ rest) (Template.ofPath arguments path) rest
      ↔ Separable arguments path ∧ Template.SelfReading (Template.ofPath arguments path) := by
  have hnamed : Template.Named (Template.ofPath arguments path) := by
    intro name hname
    obtain ⟨a, ha, rfl⟩ := Template.exists_of_interpolated_mem hname
    exact ⟨(h.usable a ha).plain, (h.usable a ha).notReserved⟩
  have hseparable := foldl_placeArgument_eq_substituted_iff h.named h.covered
  have hwritten := Template.reads_written_iff hrest hnamed
  rw [Template.written_ofPath] at hwritten
  constructor
  · intro hreads
    obtain ⟨taken, htaken, hpays⟩ := hreads.exists_taken
    obtain rfl := (List.append_left_inj rest).1 htaken
    have hsame := h.replaced_eq_substituted hpays
    rw [hsame] at hreads
    exact ⟨hseparable.1 hsame, hwritten.1 hreads⟩
  · rintro ⟨hseparate, hself⟩
    have hsame : replaced arguments path = substituted arguments path := hseparable.2 hseparate
    rw [hsame]
    exact hwritten.2 hself

end Fits

/-! ### Endpoints of documents -/

theorem OperationSite.fits_endpoint (site : OperationSite) (definitions : Definitions)
    (function : String) :
    Fits (site.endpoint definitions function).pathArguments site.path where
  named := (site.wellNamed_endpoint definitions function).sublist List.filter_sublist
  usable := by
    intro a ha
    refine site.usable_of_mem_boundNames definitions function ?_
    rw [Endpoint.boundNames_eq]
    exact List.mem_append_left _ (List.mem_map_of_mem (List.mem_of_mem_filter ha))
  covered := fun _ htoken => site.exists_key_of_mem_pathTokens definitions function htoken

/-- A query string starts as an interpolation, and the template ends with a
    backtick. -/
theorem head?_suffixChars (arguments : List Argument) (behind : List Char) :
    (Query.suffixChars arguments ++ '`' :: behind).head? ≠ some '\x7b' := by
  unfold Query.suffixChars
  split <;> simp

namespace Document

/-- **URLs as they are read**: the template of a URL, up to the query string, is
    read as the path with nothing but the arguments of its tokens interpolated
    exactly if the arguments are separable and, outside of the tokens, the path
    holds no backslash, no carriage return and no dollar sign in front of an
    opening brace. -/
theorem url_reads_iff {d : Document} {source : String} {e : Endpoint}
    (h : e ∈ (d.client source).value.endpoints) (behind : List Char) :
    Template.Reads (e.urlChars ++ '`' :: behind) (Template.ofPath e.pathArguments e.path)
        (Query.suffixChars e.queryArguments ++ '`' :: behind)
      ↔ Separable e.pathArguments e.path
        ∧ Template.SelfReading (Template.ofPath e.pathArguments e.path) := by
  obtain ⟨site, -, function, -, rfl⟩ := exists_site h
  have hfits := site.fits_endpoint d.allDefinitions function
  rw [Endpoint.urlChars, List.append_assoc]
  exact hfits.reads_iff (head?_suffixChars _ behind)

/-- A backslash in front of a name makes an escape of its first letters. -/
theorem not_url_reads_sample :
    ∃ e ∈ ((ofPath "/domain\\user/\x7bid\x7d").client "").value.endpoints,
      e.urlChars = "/domain\\user/$\x7bid\x7d".toList
        ∧ ¬ Template.Reads (e.urlChars ++ "`);".toList) (Template.ofPath e.pathArguments e.path)
            (Query.suffixChars e.queryArguments ++ "`);".toList) := by
  have hcomputed : ∃ e ∈ ((ofPath "/domain\\user/\x7bid\x7d").client "").value.endpoints,
      e.urlChars = "/domain\\user/$\x7bid\x7d".toList
        ∧ .fixed '\\' ∈ Template.ofPath e.pathArguments e.path := by
    decide +kernel
  obtain ⟨e, he, hurl, hbackslash⟩ := hcomputed
  refine ⟨e, he, hurl, fun hreads => ?_⟩
  exact ((url_reads_iff he ");".toList).1 hreads).2.backslash hbackslash

end Document

end TypedClient
