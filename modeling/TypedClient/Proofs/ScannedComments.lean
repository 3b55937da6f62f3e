import TypedClient.Proofs.ScannedFunctions

/-! # Comments in scanned code

    The scan of the functions reads their comments too. What it finds in a
    comment without quotes it finds there alone: a comment of that kind can be
    taken out of a text, and nothing else about the scan changes.

    * **Seals**: a text ends in a way that no name goes on behind it.
    * **Borders**: in front of every comment there is a brace at the end of a
      line. A literal that is still open there goes on behind the comment as if
      the comment were not there.
    * **The step** takes out one comment, **the run** all of them.
-/

namespace TypedClient

namespace Scan

/-! ### Seals -/

/-- All names of code, those behind colons last. -/
def allNames (code : List Char) : List String :=
  delimitedNames false code ++ namesBehindColons code

/-- No name of a text goes on behind it, and none behind it starts in it. -/
structure Sealed (code : List Char) : Prop where
  delimited : ∀ rest,
    delimitedNames false (code ++ rest) = delimitedNames false code ++ delimitedNames false rest
  /-- The same of names behind colons. -/
  colons : ∀ rest,
    namesBehindColons (code ++ rest) = namesBehindColons code ++ namesBehindColons rest

theorem Sealed.nil : Sealed [] :=
  ⟨fun _ => rfl, fun _ => rfl⟩

theorem Sealed.append {s t : List Char} (hs : Sealed s) (ht : Sealed t) : Sealed (s ++ t) where
  delimited := by
    intro rest
    rw [List.append_assoc, hs.delimited, ht.delimited, hs.delimited, List.append_assoc]
  colons := by
    intro rest
    rw [List.append_assoc, hs.colons, ht.colons, hs.colons, List.append_assoc]

theorem Sealed.feed : Sealed ['\n'] := by
  have hfeed : '\n'.isUpper = false ∧ Text.isWord '\n' = false ∧ '\n' ≠ ':' := by decide
  refine ⟨fun rest => ?_, fun rest => ?_⟩
  · simp [delimitedNames, hfeed]
  · simp [namesBehindColons, hfeed]

/-- A word ends in front of a character that is no letter or digit. -/
theorem word_append_cons {d : Char} (h : d.isAlphanum = false) (s rest : List Char) :
    word (s ++ d :: rest) = ((word s).1, (word s).2 ++ d :: rest) := by
  induction s with
  | nil => simp [word, h]
  | cons c r ih =>
    obtain ⟨hfirst, hsecond⟩ := Prod.mk.inj ih
    cases hc : c.isAlphanum with
    | false => simp [word, hc]
    | true => simp [word, hc] at hfirst hsecond ⊢; exact ⟨hfirst, hsecond⟩

/-- The delimited names on both sides of a line feed. -/
theorem delimitedNames_append_feed {inWord : Bool} (front rest : List Char) :
    delimitedNames inWord (front ++ '\n' :: rest)
      = delimitedNames inWord (front ++ ['\n']) ++ delimitedNames false rest := by
  have hfeed : '\n'.isAlphanum = false ∧ '\n'.isUpper = false ∧ Text.isWord '\n' = false
      ∧ isDelimiter '\n' = true := by
    decide
  induction front generalizing inWord with
  | nil => simp [delimitedNames, hfeed]
  | cons c r ih =>
    rw [List.cons_append, List.cons_append, delimitedNames, delimitedNames, ih,
      word_append_cons hfeed.1, word_append_cons hfeed.1, List.append_assoc]
    congr 1
    -- The character behind the word is the same, if there is one in front of the line feed.
    cases (word r).2 with
    | nil => rfl
    | cons d t => rfl

/-- The names behind colons on both sides of a character that they cannot
    reach over. -/
theorem namesBehindColons_append_cons {d : Char} (hblank : Text.isBlank d = false)
    (halnum : d.isAlphanum = false) (hcolon : d ≠ ':') (front rest : List Char) :
    namesBehindColons (front ++ d :: rest)
      = namesBehindColons (front ++ [d]) ++ namesBehindColons rest := by
  have hupper : d.isUpper = false := by
    cases h : d.isUpper with
    | false => rfl
    | true => rw [isAlphanum_of_isUpper h] at halnum; cases halnum
  have hdrop : ∀ s t : List Char, (s ++ d :: t).dropWhile Text.isBlank
      = s.dropWhile Text.isBlank ++ d :: t := by
    intro s t
    induction s with
    | nil => simp [hblank]
    | cons c r ih =>
      by_cases hc : Text.isBlank c = true
      · simp [hc, ih]
      · simp [hc]
  induction front with
  | nil => simp [namesBehindColons, hcolon]
  | cons c r ih =>
    rw [List.cons_append, List.cons_append, namesBehindColons, namesBehindColons, ih, hdrop, hdrop,
      List.append_assoc]
    congr 1
    cases r.dropWhile Text.isBlank with
    | nil => simp [hupper]
    | cons e t => simp [word_append_cons halnum]

/-- A text is sealed by a line feed behind something that is neither blank nor
    part of a name. -/
theorem Sealed.of_line {d : Char} (hblank : Text.isBlank d = false) (halnum : d.isAlphanum = false)
    (hcolon : d ≠ ':') (front : List Char) : Sealed (front ++ [d, '\n']) where
  delimited := by
    intro rest
    have hshape : front ++ [d, '\n'] ++ rest = (front ++ [d]) ++ '\n' :: rest := by simp
    rw [hshape, delimitedNames_append_feed, List.append_assoc]
    rfl
  colons := by
    intro rest
    have hsplit := namesBehindColons_append_cons hblank halnum hcolon front
    have hshape : front ++ [d, '\n'] ++ rest = front ++ d :: '\n' :: rest := by simp
    have hfeed := Sealed.feed.colons
    have hnone : namesBehindColons ['\n'] = [] := by decide
    rw [hshape, hsplit, hsplit ['\n'], hnone, List.append_nil]
    exact congrArg _ ((hfeed rest).trans (by rw [hnone, List.nil_append]))

/-- The names in three texts, the first two of them sealed. -/
theorem Sealed.filter_names {front comment : List Char} (hfront : Sealed front)
    (hcomment : Sealed comment) {p : String → Bool} (hnone : (allNames comment).filter p = [])
    (rest : List Char) :
    (allNames (front ++ (comment ++ rest))).filter p = (allNames (front ++ rest)).filter p := by
  rw [allNames, List.filter_append, List.append_eq_nil_iff] at hnone
  obtain ⟨hdelimited, hcolons⟩ := hnone
  simp only [allNames, hfront.delimited, hfront.colons, hcomment.delimited, hcomment.colons,
    List.filter_append, hdelimited, hcolons, List.nil_append]

/-! ### Borders -/

/-- A literal goes on in the same way in two texts. -/
def Alike (rest rest' : List Char) : Prop :=
  ∀ quote, quote = '\'' ∨ quote = '"' → behindLiteral quote rest = behindLiteral quote rest'

/-- Behind a text, two others keep pace: each is blanked out on its own, behind
    the same code, or else a literal that is still open reaches into both and
    makes no difference between them. -/
def KeepPace (P : List Char → Prop) (front rest rest' : List Char) : Prop :=
  blankLiterals (front ++ rest) = blankLiterals (front ++ rest')
    ∨ ∃ code, P code ∧ blankLiterals (front ++ rest) = code ++ blankLiterals rest
        ∧ blankLiterals (front ++ rest') = code ++ blankLiterals rest'

theorem KeepPace.prepend {P : List Char → Prop} (hP : ∀ before code, P code → P (before ++ code))
    {before front front' rest rest' : List Char}
    (hfront : ∀ t ∈ [rest, rest'], blankLiterals (front ++ t) = before ++ blankLiterals (front' ++ t))
    (h : KeepPace P front' rest rest') : KeepPace P front rest rest' := by
  have hone := hfront rest (by simp)
  have hother := hfront rest' (by simp)
  rcases h with hequal | ⟨code, hcode, hrest, hrest'⟩
  · refine .inl ?_
    rw [hone, hother, hequal]
  · refine .inr ⟨before ++ code, hP before code hcode, ?_, ?_⟩
    · rw [hone, hrest, List.append_assoc]
    · rw [hother, hrest', List.append_assoc]

/-- Where a literal leads that is open in front of a mark. -/
inductive Leads (quote : Char) (mark front : List Char) : Prop where
  /-- It is closed in front of the mark. -/
  | closed (behind : List Char) (shorter : behind.length ≤ front.length)
    (ends : ∀ rest, behindLiteral quote (front ++ mark ++ rest) = some (behind ++ mark ++ rest))
  /-- It goes on behind the mark. -/
  | goesOn (skips : Skips quote (front ++ mark))
  /-- It is never closed. -/
  | endless (never : ∀ rest, behindLiteral quote (front ++ mark ++ rest) = none)

theorem Leads.step {quote : Char} {mark front front' : List Char}
    (hlength : front'.length ≤ front.length)
    (hstep : ∀ rest, behindLiteral quote (front ++ mark ++ rest)
      = behindLiteral quote (front' ++ mark ++ rest))
    (h : Leads quote mark front') : Leads quote mark front := by
  cases h with
  | closed behind shorter ends =>
    exact .closed behind (Nat.le_trans shorter hlength) (fun rest => (hstep rest).trans (ends rest))
  | goesOn skips => exact .goesOn (fun rest => (hstep rest).trans (skips rest))
  | endless never => exact .endless (fun rest => (hstep rest).trans (never rest))

/-- A literal leads somewhere from any text, if the mark holds no quotes and no
    backslashes. -/
theorem Leads.of_plain {quote : Char} {mark : List Char} (hmark : mark ≠ [])
    (hplain : ∀ c ∈ mark, c ≠ quote ∧ c ≠ '\\') (front : List Char) : Leads quote mark front := by
  fun_induction behindLiteral quote front with
  | case1 => exact .goesOn (.of_plain hplain)
  | case2 =>
    obtain ⟨d, r, rfl⟩ := List.exists_cons_of_ne_nil hmark
    exact .closed [] (Nat.zero_le _) (fun rest => by simp [behindLiteral])
  | case3 c hc =>
    by_cases hb : c = '\\'
    · subst hb
      -- The backslash takes the first character of the mark with it.
      obtain ⟨d, r, rfl⟩ := List.exists_cons_of_ne_nil hmark
      obtain ⟨-, hr⟩ := List.forall_mem_cons.1 hplain
      by_cases hd : d = '\n'
      · exact .endless (fun rest => by simp [behindLiteral, hc, hd])
      · have hskips : Skips quote r := .of_plain hr
        refine .goesOn (fun rest => ?_)
        show behindLiteral quote ('\\' :: d :: (r ++ rest)) = _
        rw [behindLiteral, if_neg hc, if_pos rfl, if_neg hd, hskips]
    · exact .goesOn ((Skips.plain hc hb).append (.of_plain hplain))
  | case4 d r => exact .closed (d :: r) (by simp) (fun rest => by simp [behindLiteral])
  | case5 r hq => exact .endless (fun rest => by simp [behindLiteral, hq])
  | case6 d r hq hd ih =>
    refine ih.step (by simp; omega) (fun rest => ?_)
    simp only [List.cons_append]
    rw [behindLiteral, if_neg hq, if_pos rfl, if_neg hd]
  | case7 c d r hq hb ih =>
    refine ih.step (by simp) (fun rest => ?_)
    simp only [List.cons_append]
    rw [behindLiteral, if_neg hq, if_neg hb]

/-- Two texts in which a literal goes on in the same way keep pace behind a
    mark. -/
theorem keepPace_mark {mark rest rest' : List Char} (hmark : mark ≠ [])
    (hplain : ∀ c ∈ mark, (c ≠ '\'' ∧ c ≠ '"') ∧ c ≠ '\\') (halike : Alike rest rest')
    (front : List Char) : KeepPace (fun code => mark <:+ code) (front ++ mark) rest rest' := by
  -- By the length of the text, since a literal may swallow any part of it.
  induction hlength : front.length using Nat.strongRecOn generalizing front with
  | _ n ih =>
  have hstep : ∀ before front', front'.length < n →
      (∀ t ∈ [rest, rest'], blankLiterals (front ++ mark ++ t)
        = before ++ blankLiterals (front' ++ mark ++ t)) →
      KeepPace (fun code => mark <:+ code) (front ++ mark) rest rest' := by
    intro before front' hlt hfront
    have hpace := ih _ hlt front' rfl
    exact hpace.prepend (fun before _ hcode => hcode.trans (List.suffix_append before _)) hfront
  cases front with
  | nil =>
    have hquoteless : Quoteless mark := fun c hc => (hplain c hc).1
    have hneutral : Neutral mark := .of_quoteless hquoteless
    have hblank := blankLiterals_of_quoteless hquoteless
    refine .inr ⟨mark, List.suffix_refl mark, ?_, ?_⟩
    · rw [List.nil_append, hneutral, hblank]
    · rw [List.nil_append, hneutral, hblank]
  | cons c r =>
    have hr : r.length < n := by rw [← hlength]; exact Nat.lt_succ_self _
    by_cases hc : c = '\'' ∨ c = '"'
    · have hmarkc : ∀ d ∈ mark, d ≠ c ∧ d ≠ '\\' := by
        intro d hd
        obtain ⟨⟨hsingle, hdouble⟩, hb⟩ := hplain d hd
        rcases hc with rfl | rfl
        · exact ⟨hsingle, hb⟩
        · exact ⟨hdouble, hb⟩
      cases Leads.of_plain hmark hmarkc r with
      | closed behind shorter ends =>
        refine hstep ['\'', '\''] behind (by omega) (fun t _ => ?_)
        exact blankLiterals_of_some hc (ends t)
      | goesOn skips =>
        have hbehind : ∀ t, behindLiteral c (r ++ mark ++ t) = behindLiteral c t := skips
        -- Both texts close the literal at the same place, or neither does.
        cases hopen : behindLiteral c rest with
        | some behind =>
          have hrest := (hbehind rest).trans hopen
          have hrest' := (hbehind rest').trans ((halike c hc).symm.trans hopen)
          refine .inl ?_
          exact (blankLiterals_of_some hc hrest).trans (blankLiterals_of_some hc hrest').symm
        | none =>
          refine hstep [c] r hr (fun t ht => ?_)
          refine blankLiterals_of_none ((hbehind t).trans ?_)
          rcases List.mem_cons.1 ht with rfl | ht
          · exact hopen
          · rw [List.mem_singleton.1 ht]
            exact (halike c hc).symm.trans hopen
      | endless never =>
        refine hstep [c] r hr (fun t _ => ?_)
        exact blankLiterals_of_none (never t)
    · rw [not_or] at hc
      refine hstep [c] r hr (fun t _ => ?_)
      exact blankLiterals_cons hc _

/-- **Borders**: behind such a text, what begins alike keeps pace, and no name
    goes over it. -/
def Border (front : List Char) : Prop :=
  ∀ rest rest', Alike rest rest' → KeepPace Sealed front rest rest'

theorem Border.nil : Border [] := by
  intro rest rest' _
  exact .inr ⟨[], .nil, rfl, rfl⟩

/-- A text is as good a border with a line feed behind it. -/
theorem Border.append_feed {front : List Char} (h : Border front) : Border (front ++ ['\n']) := by
  intro rest rest' halike
  have hskips : ∀ quote, quote = '\'' ∨ quote = '"' → Skips quote ['\n'] := by
    rintro quote (rfl | rfl)
    · exact .plain (by decide) (by decide)
    · exact .plain (by decide) (by decide)
  have hfeed : Alike (['\n'] ++ rest) (['\n'] ++ rest') := by
    intro quote hquote
    rw [hskips quote hquote, hskips quote hquote]
    exact halike quote hquote
  have hneutral : Neutral ['\n'] := .of_quoteless (by decide)
  have hblank : blankLiterals ['\n'] = ['\n'] := blankLiterals_of_quoteless (by decide)
  rw [KeepPace, List.append_assoc, List.append_assoc]
  rcases h _ _ hfeed with hequal | ⟨code, hcode, hrest, hrest'⟩
  · exact .inl hequal
  · refine .inr ⟨code ++ ['\n'], hcode.append .feed, ?_, ?_⟩
    · rw [hrest, hneutral, hblank, List.append_assoc]
    · rw [hrest', hneutral, hblank, List.append_assoc]

/-- **Braces** at the end of a line are borders. -/
theorem Border.of_brace (front : List Char) : Border (front ++ ['\x7d', '\n']) := by
  intro rest rest' halike
  have hmark : ∀ c ∈ ['\x7d', '\n'], (c ≠ '\'' ∧ c ≠ '"') ∧ c ≠ '\\' := by decide
  rcases keepPace_mark (by simp) hmark halike front with hequal | ⟨_, ⟨code, rfl⟩, hpace⟩
  · exact .inl hequal
  · have hsealed : Sealed (code ++ ['\x7d', '\n']) :=
      .of_line (by decide) (by decide) (by decide) code
    exact .inr ⟨_, hsealed, hpace⟩

/-! ### Comments -/

/-- **The step**: a comment without quotes, in which no name counts, makes no
    difference to the names that count. -/
theorem Border.filter_names {front comment : List Char} (hfront : Border front)
    (hquoteless : Quoteless comment)
    (hskips : ∀ quote, quote = '\'' ∨ quote = '"' → Skips quote comment)
    (hsealed : Sealed comment) {p : String → Bool} (hnone : (allNames comment).filter p = [])
    (rest : List Char) :
    (allNames (blankLiterals (front ++ (comment ++ rest)))).filter p
      = (allNames (blankLiterals (front ++ rest))).filter p := by
  have halike : Alike (comment ++ rest) rest :=
    fun quote hquote => hskips quote hquote rest
  have hneutral : Neutral comment := .of_quoteless hquoteless
  rcases hfront _ _ halike with hequal | ⟨code, hcode, hwith, hwithout⟩
  · rw [hequal]
  · rw [hwith, hwithout, hneutral, blankLiterals_of_quoteless hquoteless]
    exact hcode.filter_names hsealed hnone _

end Scan

open Scan

/-- A text that neither opens nor closes a literal, and keeps no quote from
    doing so. -/
def Harmless (s : List Char) : Prop :=
  ∀ c ∈ s, c ≠ '\'' ∧ c ≠ '"' ∧ c ≠ '\\'

instance (s : List Char) : Decidable (Harmless s) :=
  decidableForallMemText (fun c => c ≠ '\'' ∧ c ≠ '"' ∧ c ≠ '\\') s

theorem Harmless.quoteless {s : List Char} (h : Harmless s) : Quoteless s :=
  fun c hc => ⟨(h c hc).1, (h c hc).2.1⟩

theorem Harmless.skips {s : List Char} (h : Harmless s) {quote : Char}
    (hquote : quote = '\'' ∨ quote = '"') : Skips quote s := by
  refine .of_plain (fun c hc => ?_)
  obtain ⟨hsingle, hdouble, hb⟩ := h c hc
  rcases hquote with rfl | rfl
  · exact ⟨hsingle, hb⟩
  · exact ⟨hdouble, hb⟩

namespace Comment

variable {lines : List (List Char)}

/-- The backslash that keeps a text from ending its comment stands in front of
    a slash, so that literals go on behind it. -/
theorem skips_safe {quote : Char} (hquote : quote = '\'' ∨ quote = '"') {s : List Char}
    (h : Harmless s) : Skips quote (safe s) := by
  fun_induction safe s with
  | case1 => exact .nil
  | case2 r ih =>
    have hr : Harmless r := fun c hc => h c (by simp [hc])
    have hstar : Skips quote ['*'] := Harmless.skips (by decide) hquote
    have hslash : Skips quote ['\\', '/'] := by
      rcases hquote with rfl | rfl
      · exact .escape (by decide) (by decide)
      · exact .escape (by decide) (by decide)
    exact (hstar.append hslash).append (ih hr)
  | case3 d r _ ih =>
    have hd : Harmless [d] := fun c hc => h c (by rw [List.mem_singleton.1 hc]; simp)
    have hr : Harmless r := fun c hc => h c (by simp [hc])
    exact (hd.skips hquote).append (ih hr)

theorem skips_block {quote : Char} (hquote : quote = '\'' ∨ quote = '"')
    (h : ∀ line ∈ lines, Harmless line) : Skips quote (block lines) := by
  cases lines with
  | nil => exact .nil
  | cons line rest =>
    have hopening : Skips quote "/**\n".toList := Harmless.skips (by decide) hquote
    have hclosing : Skips quote " */\n".toList := Harmless.skips (by decide) hquote
    have hstar : Skips quote " * ".toList := Harmless.skips (by decide) hquote
    have hfeed : Skips quote ['\n'] := Harmless.skips (by decide) hquote
    have hlines := Skips.flatMap (f := fun line => " * ".toList ++ safe line ++ ['\n'])
      (fun line hline => (hstar.append (skips_safe hquote (h line hline))).append hfeed)
    exact (hopening.append hlines).append hclosing

theorem sealed_block (lines : List (List Char)) : Sealed (block lines) := by
  cases lines with
  | nil => exact .nil
  | cons line rest =>
    have hclosing : " */\n".toList = " *".toList ++ ['/', '\n'] := by decide
    rw [block, hclosing, ← List.append_assoc]
    exact .of_line (by decide) (by decide) (by decide) _

end Comment

/-! ### Functions -/

namespace Endpoint

variable (clientName : String)

/-- **Quiet** endpoints: their prose is harmless, and what the scan finds in
    their comment does not count. -/
structure Quiet (p : String → Bool) (e : Endpoint) : Prop where
  summary : Harmless (e.summary.getD "").toList
  description : Harmless (e.description.getD "").toList
  /-- No name in the comment counts. -/
  names : (allNames (Comment.block e.docLines)).filter p = []

theorem harmless_docLines {e : Endpoint} (hsummary : Harmless (e.summary.getD "").toList)
    (hdescription : Harmless (e.description.getD "").toList) :
    ∀ line ∈ e.docLines, Harmless line := by
  intro line hline c hc
  rcases (of_mem_docLines hline hc).2 with hc | hc | hc
  · exact hsummary c hc
  · exact hdescription c hc
  · exact (by decide : Harmless "@deprecated".toList) c hc

/-- Taking out the comment of a quiet endpoint. -/
theorem Quiet.filter_names {p : String → Bool} {e : Endpoint} (h : e.Quiet p)
    {front : List Char} (hfront : Border front) (rest : List Char) :
    (allNames (blankLiterals (front ++ (Comment.block e.docLines ++ rest)))).filter p
      = (allNames (blankLiterals (front ++ rest))).filter p := by
  have hlines := harmless_docLines h.summary h.description
  have hquoteless : Quoteless (Comment.block e.docLines) :=
    Comment.quoteless_block (fun line hline => (hlines line hline).quoteless)
  exact hfront.filter_names hquoteless (fun quote hquote => Comment.skips_block hquote hlines)
    (Comment.sealed_block _) h.names rest

/-- **The run**: the comments of quiet endpoints make no difference to the names
    that count. -/
theorem filter_names_pieces {p : String → Bool} {endpoints : List Endpoint}
    (h : ∀ e ∈ endpoints, e.Quiet p) {front : List Char} (hfront : Border front) :
    (allNames (blankLiterals (front ++ Piece.concat false (pieces clientName endpoints)))).filter p
      = (allNames (blankLiterals
          (front ++ Piece.concat true (pieces clientName endpoints)))).filter p := by
  induction endpoints generalizing front with
  | nil => rfl
  | cons e rest ih =>
    obtain ⟨he, hrest⟩ := List.forall_mem_cons.1 h
    cases rest with
    | nil =>
      rw [concat_pieces_singleton, concat_pieces_singleton]
      exact he.filter_names hfront (e.functionChars clientName)
    | cons next more =>
      -- What is behind the function stands behind its brace and an empty line.
      obtain ⟨before, hbefore⟩ := e.exists_functionChars_eq clientName
      have hborder : Border (front ++ e.functionChars clientName ++ ['\n']) := by
        have hbrace := Border.of_brace (front ++ before ++ ['\n'])
        have hshape : front ++ e.functionChars clientName
            = front ++ before ++ ['\n'] ++ ['\x7d', '\n'] := by
          rw [hbefore]
          simp
        rw [hshape]
        exact hbrace.append_feed
      have hbehind := ih hrest hborder
      have hshape : ∀ text, front ++ (e.functionChars clientName ++ '\n' :: text)
          = front ++ e.functionChars clientName ++ ['\n'] ++ text := by
        intro text
        simp
      rw [concat_pieces_cons, concat_pieces_cons, chars_piece, chars_piece, List.append_assoc]
      refine (he.filter_names hfront _).trans ?_
      show _ = (allNames (blankLiterals (front ++ (e.functionChars clientName ++ _)))).filter p
      rw [hshape, hshape]
      exact hbehind

end Endpoint

end TypedClient
