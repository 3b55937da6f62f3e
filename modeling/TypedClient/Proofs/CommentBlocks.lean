import TypedClient.Package.Basic
import TypedClient.Proofs.FunctionText
import TypedClient.Proofs.Imports

/-! # Comment blocks

    The file of functions without its comments. They are taken out line by line:
    a stroke and two stars in a path or in a literal are no comment.

    * **Blocks**: an opening line, lines that start with a star, and a closing
      line. What is opened and not closed stays.
    * **Plain lines** belong to no block, so that the lines behind one are
      looked at on their own. Each function ends with one.
    * **Files**: given the imported names, the file of functions without its
      blocks does not depend on what stands in its comments, nor on whether
      they are written at all.
-/

namespace TypedClient

/-! ### Lines -/

namespace Text

variable {sep : Char} {s : List Char}

theorem cutAt_of_not_mem (h : sep ∉ s) : cutAt sep s = [s] := by
  induction s with
  | nil => rfl
  | cons c r ih =>
    have hc : c ≠ sep := fun e => h (e ▸ List.mem_cons_self)
    have hr : sep ∉ r := fun hmem => h (List.mem_cons_of_mem c hmem)
    rw [cutAt, if_neg hc, ih hr]

/-- A text is cut at a separator, and on both sides of it. -/
theorem cutAt_append_cons (sep : Char) (s t : List Char) :
    cutAt sep (s ++ sep :: t) = cutAt sep s ++ cutAt sep t := by
  induction s with
  | nil => simp [cutAt]
  | cons c r ih =>
    rw [List.cons_append, cutAt, cutAt]
    by_cases hc : c = sep
    · rw [if_pos hc, if_pos hc, ih, List.cons_append]
    · rw [if_neg hc, if_neg hc, ih]
      cases hcut : cutAt sep r with
      | nil => exact absurd hcut (cutAt_ne_nil sep r)
      | cons first pieces => rfl

/-- A line is cut off at its end. -/
theorem cutAt_line (h : sep ∉ s) (t : List Char) :
    cutAt sep (s ++ sep :: t) = s :: cutAt sep t := by
  rw [cutAt_append_cons, cutAt_of_not_mem h, List.singleton_append]

end Text

/-! ### Blocks -/

namespace Comment

open Text

/-- The line that opens a block. -/
def firstLine : List Char :=
  "/**".toList

/-- The line that closes a block. -/
def lastLine : List Char :=
  " */".toList

/-- Whether a line may stand inside a block. -/
def isInner (line : List Char) : Bool :=
  " * ".toList.isPrefixOf line

/-- Leaves out the blocks among lines. The lines of a block are held back until
    it is closed. -/
def withoutBlocks (held : List (List Char)) : List (List Char) → List (List Char)
  | [] => held
  | line :: rest =>
    if held ≠ [] ∧ isInner line then withoutBlocks (held ++ [line]) rest
    else if held ≠ [] ∧ line = lastLine then withoutBlocks [] rest
    else if line = firstLine then held ++ withoutBlocks [line] rest
    else held ++ line :: withoutBlocks [] rest

/-- The lines of a text that are in no block. -/
def bareLines (text : List Char) : List (List Char) :=
  withoutBlocks [] (cutAt '\n' text)

/-- A text without its blocks. -/
def strip (text : String) : String :=
  String.ofList (List.intercalate ['\n'] (bareLines text.toList))

/-- **Plain lines** belong to no block. -/
structure IsPlain (line : List Char) : Prop where
  notInner : isInner line = false
  notFirst : line ≠ firstLine
  notLast : line ≠ lastLine
  /-- It is one line. -/
  noFeed : '\n' ∉ line

theorem isPlain_nil : IsPlain [] :=
  ⟨by decide, by decide, by decide, by decide⟩

theorem isPlain_brace : IsPlain ['\x7d'] :=
  ⟨by decide, by decide, by decide, by decide⟩

variable {line : List Char} {held inner : List (List Char)}

/-- A plain line lets go of what is held back, and nothing in front of it
    matters to what is behind it. -/
theorem withoutBlocks_append_cons (h : IsPlain line) (front rest : List (List Char)) :
    withoutBlocks held (front ++ line :: rest)
      = withoutBlocks held (front ++ [line]) ++ withoutBlocks [] rest := by
  induction front generalizing held with
  | nil =>
    simp only [List.nil_append, withoutBlocks, h.notInner, h.notFirst, h.notLast,
      Bool.false_eq_true, and_false, if_false, List.append_assoc, List.cons_append]
  | cons first front ih =>
    simp only [List.cons_append, withoutBlocks]
    split
    · exact ih
    · split
      · exact ih
      · split
        · rw [ih, List.append_assoc]
        · rw [ih, List.append_assoc, List.cons_append]

/-- What is held back is left out when its block is closed. -/
theorem withoutBlocks_inner (hheld : held ≠ []) (hinner : ∀ l ∈ inner, isInner l = true)
    (rest : List (List Char)) :
    withoutBlocks held (inner ++ lastLine :: rest) = withoutBlocks [] rest := by
  induction inner generalizing held with
  | nil =>
    have hlast : isInner lastLine = false := by decide
    rw [List.nil_append, withoutBlocks, if_neg (by simp [hlast]), if_pos ⟨hheld, rfl⟩]
  | cons first inner ih =>
    obtain ⟨hfirst, hinner⟩ := List.forall_mem_cons.1 hinner
    rw [List.cons_append, withoutBlocks, if_pos ⟨hheld, hfirst⟩]
    exact ih (by simp) hinner

/-- The lines behind a plain line are looked at on their own. -/
theorem bareLines_line (h : IsPlain line) (text : List Char) :
    bareLines (line ++ '\n' :: text) = line :: bareLines text := by
  rw [bareLines, cutAt_line h.noFeed, withoutBlocks, if_neg (by simp), if_neg (by simp),
    if_neg h.notFirst]
  rfl

/-- The lines behind a plain line somewhere in a text are looked at on their
    own. -/
theorem bareLines_append (h : IsPlain line) (front text : List Char) :
    bareLines (front ++ '\n' :: line ++ '\n' :: text)
      = bareLines (front ++ '\n' :: line) ++ bareLines text := by
  have hfront : cutAt '\n' (front ++ '\n' :: line) = cutAt '\n' front ++ [line] := by
    rw [cutAt_append_cons, cutAt_of_not_mem h.noFeed]
  rw [bareLines, bareLines, bareLines, cutAt_append_cons, hfront, List.append_assoc,
    List.singleton_append]
  exact withoutBlocks_append_cons h _ _

/-- Keeping a text from ending its comment brings no line feeds into it. -/
theorem not_mem_safe {s : List Char} (h : '\n' ∉ s) : '\n' ∉ safe s := by
  intro hmem
  rcases mem_of_mem_safe hmem with heq | hmem
  · cases heq
  · exact h hmem

/-- The lines of a comment are those of the prose, with a star in front. -/
theorem cutAt_flatMap {lines : List (List Char)} (h : ∀ l ∈ lines, '\n' ∉ l) (text : List Char) :
    cutAt '\n' (lines.flatMap (fun l => " * ".toList ++ safe l ++ ['\n']) ++ text)
      = lines.map (fun l => " * ".toList ++ safe l) ++ cutAt '\n' text := by
  induction lines with
  | nil => rfl
  | cons l rest ih =>
    obtain ⟨hl, hrest⟩ := List.forall_mem_cons.1 h
    have hstar : '\n' ∉ " * ".toList := by decide
    have hline : '\n' ∉ " * ".toList ++ safe l := by
      rw [List.mem_append, not_or]
      exact ⟨hstar, not_mem_safe hl⟩
    rw [List.flatMap_cons, List.append_assoc, List.append_assoc, List.singleton_append,
      cutAt_line hline, ih hrest, List.map_cons, List.cons_append]

/-- **Blocks** are left out as a whole. -/
theorem bareLines_block {lines : List (List Char)} (h : ∀ l ∈ lines, '\n' ∉ l) (text : List Char) :
    bareLines (block lines ++ text) = bareLines text := by
  cases lines with
  | nil => rfl
  | cons l rest =>
    have hopening : "/**\n".toList = firstLine ++ ['\n'] := by decide
    have hclosing : " */\n".toList = lastLine ++ ['\n'] := by decide
    have hfirst : '\n' ∉ firstLine := by decide
    have hlast : '\n' ∉ lastLine := by decide
    have hinner : ∀ line ∈ (l :: rest).map (fun l => " * ".toList ++ safe l),
        isInner line = true := by
      intro line hline
      obtain ⟨l, -, rfl⟩ := List.mem_map.1 hline
      exact List.isPrefixOf_iff_prefix.2 (List.prefix_append _ _)
    have hlines : cutAt '\n' (block (l :: rest) ++ text)
        = firstLine :: ((l :: rest).map (fun l => " * ".toList ++ safe l)
            ++ lastLine :: cutAt '\n' text) := by
      rw [block, hopening, hclosing]
      have hshape : ∀ front body behind : List Char,
          front ++ ['\n'] ++ body ++ (behind ++ ['\n']) ++ text
            = front ++ '\n' :: (body ++ (behind ++ '\n' :: text)) := by
        intros
        simp only [List.append_assoc, List.cons_append, List.nil_append]
      rw [hshape, cutAt_line hfirst, cutAt_flatMap h, cutAt_line hlast]
    have hopen : [firstLine] ≠ [] := List.cons_ne_nil _ _
    rw [bareLines, hlines, withoutBlocks, if_neg (fun hnone => hnone.1 rfl),
      if_neg (fun hnone => hnone.1 rfl), if_pos rfl]
    exact withoutBlocks_inner hopen hinner _

-- What is opened in the last line is not closed, so it stays.
example : strip "a\n/**\n * b\n */\nc\n/** d\n" = "a\nc\n/** d\n" := by
  decide +kernel

end Comment

/-! ### Functions -/

namespace Endpoint

open Comment

variable (clientName : String) (withoutComments : Bool)

/-- A comment in front of a text is left out as a block. -/
theorem bareLines_piece (e : Endpoint) (text : List Char) :
    bareLines ((e.piece clientName).chars withoutComments ++ text)
      = bareLines (e.functionChars clientName ++ text) := by
  rw [chars_piece, List.append_assoc]
  cases withoutComments with
  | true => rfl
  | false =>
    have hlines : ∀ line ∈ e.docLines, '\n' ∉ line :=
      fun _ hline hmem => (of_mem_docLines hline hmem).1 rfl
    exact bareLines_block hlines _

/-- **Functions**: without their blocks, functions read as if no comments had
    been written. -/
theorem bareLines_pieces (endpoints : List Endpoint) :
    bareLines (Piece.concat withoutComments (pieces clientName endpoints))
      = bareLines (Piece.concat true (pieces clientName endpoints)) := by
  induction endpoints with
  | nil => rfl
  | cons e rest ih =>
    cases rest with
    | nil =>
      have hpiece := fun without => bareLines_piece clientName without e []
      simp only [List.append_nil] at hpiece
      rw [concat_pieces_singleton, concat_pieces_singleton, hpiece, hpiece]
    | cons next more =>
      obtain ⟨front, hfront⟩ := e.exists_functionChars_eq clientName
      -- What is behind the brace is looked at on its own, after an empty line.
      have hsplit : ∀ text, bareLines (e.functionChars clientName ++ '\n' :: text)
          = bareLines (front ++ '\n' :: ['\x7d']) ++ [] :: bareLines text := by
        intro text
        have hbrace := bareLines_append isPlain_brace front ('\n' :: text)
        have hempty := bareLines_line isPlain_nil text
        rw [List.nil_append] at hempty
        rw [hempty] at hbrace
        rw [hfront, ← hbrace]
        simp only [List.append_assoc, List.cons_append, List.nil_append]
      rw [concat_pieces_cons, concat_pieces_cons, bareLines_piece, bareLines_piece, hsplit, hsplit,
        ih]

end Endpoint

/-! ### The file of functions -/

namespace Client

open Comment

/-- What stands in front of the functions. -/
def preamble (c : Client) (options : PackageOptions) (imported : List String) : List Char :=
  Comment.header c.source ++ "\n\nimport ".toList ++ options.clientName.toList
    ++ " from '".toList ++ options.clientModule.toList ++ "';\n".toList
    ++ importTypes options.typesModule imported

/-- An import ends a line, where there is one. -/
theorem importTypes_eq_nil_or_suffix (typesModule : String) (names : List String) :
    importTypes typesModule names = [] ∨ ['\n'] <:+ importTypes typesModule names := by
  have hend : ['\n'] <:+ "';\n".toList := by decide
  unfold importTypes
  split
  · exact .inl rfl
  · exact .inr (hend.trans (List.suffix_append _ _))

/-- What stands in front of the functions ends a line. -/
theorem exists_preamble_eq (c : Client) (options : PackageOptions) (imported : List String) :
    ∃ front, c.preamble options imported = front ++ ['\n'] := by
  have hend : ['\n'] <:+ "';\n".toList := by decide
  have hsuffix : ['\n'] <:+ c.preamble options imported := by
    unfold preamble
    rcases importTypes_eq_nil_or_suffix options.typesModule imported with hnone | himport
    · rw [hnone, List.append_nil]
      exact hend.trans (List.suffix_append _ _)
    · exact himport.trans (List.suffix_append _ _)
  obtain ⟨front, hfront⟩ := hsuffix
  exact ⟨front, hfront.symm⟩

/-- The file of functions: what stands in front of them, an empty line, and
    they. -/
theorem toList_apiFile {c : Client} (h : c.endpoints ≠ []) (options : PackageOptions)
    (imported : List String) :
    (c.apiFile options imported).toList
      = c.preamble options imported ++ '\n' :: c.functions options := by
  obtain ⟨front, hfront⟩ :=
    Endpoint.exists_concat_pieces_eq options.clientName options.withoutComments h
  have hfunctions : c.functions options = (front ++ ['\n']) ++ ['\x7d', '\n'] := by
    rw [List.append_assoc]
    exact hfront
  have htrim : Text.trimEnd ['\x7d', '\n'] = ['\x7d'] := by decide
  have hkept : ∀ s, Text.trimEnd (s ++ ['\x7d', '\n']) = s ++ ['\x7d'] := by
    intro s
    rw [Text.trimEnd_append (by rw [htrim]; simp), htrim]
  have hsection : functionsSection (c.functions options) = '\n' :: c.functions options := by
    unfold functionsSection
    rw [hfunctions, hkept]
    cases front <;> simp
  rw [apiFile, finished, String.toList_ofList, hsection, ← preamble, hfunctions]
  have hshape : ∀ body, c.preamble options imported ++ '\n' :: (body ++ ['\x7d', '\n'])
      = (c.preamble options imported ++ '\n' :: body) ++ ['\x7d', '\n'] := by
    intro body
    rw [List.append_assoc, List.cons_append]
  rw [hshape, hkept, List.append_assoc]
  rfl

/-- **Files**: without its blocks, the file of functions reads as if no comments
    had been written. -/
theorem strip_apiFile (c : Client) (options : PackageOptions) (imported : List String) :
    strip (c.apiFile options imported)
      = strip (c.apiFile { options with withoutComments := true } imported) := by
  by_cases h : c.endpoints = []
  · have hfunctions : ∀ o : PackageOptions, c.functions o = [] := by
      intro o
      rw [functions, h]
      rfl
    rw [apiFile, apiFile, hfunctions, hfunctions]
  · obtain ⟨front, hfront⟩ := c.exists_preamble_eq options imported
    have hsplit : ∀ text, bareLines (c.preamble options imported ++ '\n' :: text)
        = bareLines (front ++ ['\n']) ++ bareLines text := by
      intro text
      have hempty := bareLines_append isPlain_nil front text
      rw [hfront]
      exact hempty
    have hbare :=
      Endpoint.bareLines_pieces options.clientName options.withoutComments c.endpoints
    rw [strip, strip, toList_apiFile h, toList_apiFile h, hsplit]
    show _ = String.ofList (List.intercalate ['\n'] (bareLines (c.preamble options imported ++ _)))
    rw [hsplit, functions, functions, hbare]

end Client

end TypedClient
