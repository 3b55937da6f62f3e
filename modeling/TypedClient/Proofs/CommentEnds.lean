import Mathlib.Data.List.Forall2
import TypedClient.Proofs.CommentBlocks

/-! # Where comments end

    Texts of the document stand in comments of the generated files. Read from
    its opening, every comment ends at its own last characters.

    * **Reading**: a comment goes from a slash and a star to the first star and
      slash behind them.
    * **Inner texts** hold no such end, and have none together with what is put
      behind them, unless that is a slash.
    * **Files** are taken apart into the pieces that they are written from, so
      that each comment is read with all that follows it.
-/

namespace TypedClient

namespace Comment

/-! ### Reading comments -/

/-- What stands behind the first star and slash; `none` where there are none. -/
def behindEnd? : List Char → Option (List Char)
  | [] => none
  | '*' :: '/' :: r => some r
  | _ :: r => behindEnd? r

/-- What stands behind the comment that a text starts with. -/
def behind? : List Char → Option (List Char)
  | '/' :: '*' :: r => behindEnd? r
  | _ => none

/-- A character other than the star ends no comment. -/
theorem behindEnd?_cons_of_ne {c : Char} (h : c ≠ '*') (r : List Char) :
    behindEnd? (c :: r) = behindEnd? r := by
  rw [behindEnd?]
  rintro _ rfl
  exact absurd rfl h

/-- Nor does a star without a slash behind it. -/
theorem behindEnd?_star {d : Char} (h : d ≠ '/') (r : List Char) :
    behindEnd? ('*' :: d :: r) = behindEnd? (d :: r) := by
  rw [behindEnd?]
  rintro _ - heq
  exact h (List.cons.inj heq).1

/-! ### Inner texts -/

/-- **Inner texts** are passed over in the search for the end of a comment, unless
    a slash follows them. -/
def IsInside (s : List Char) : Prop :=
  ∀ c r, c ≠ '/' → behindEnd? (s ++ c :: r) = behindEnd? (c :: r)

theorem isInside_nil : IsInside [] :=
  fun _ _ _ => rfl

/-- Behind an inner text, another one that starts with no slash is inner too. -/
theorem IsInside.append {s t : List Char} (hs : IsInside s) (ht : IsInside t)
    (h : t.head? ≠ some '/') : IsInside (s ++ t) := by
  intro c r hc
  cases t with
  | nil => rw [List.append_nil]; exact hs c r hc
  | cons d t =>
    have hd : d ≠ '/' := fun e => h (congrArg some e)
    rw [List.append_assoc, List.cons_append, hs d _ hd]
    exact ht c r hc

/-- A character that is part of no end separates inner texts. -/
theorem IsInside.append_cons {s t : List Char} {c : Char} (hs : IsInside s) (hstar : c ≠ '*')
    (hslash : c ≠ '/') (ht : IsInside t) : IsInside (s ++ c :: t) := by
  intro d r hd
  rw [List.append_assoc, List.cons_append, hs c _ hslash, behindEnd?_cons_of_ne hstar]
  exact ht d r hd

/-- Keeping a text from ending its comment leaves its first character. -/
theorem head?_safe (s : List Char) : (safe s).head? = s.head? := by
  fun_cases safe s <;> rfl

/-- **Texts of the document** are inner ones once they are kept from ending their
    comment. -/
theorem isInside_safe (s : List Char) : IsInside (safe s) := by
  fun_induction safe s with
  | case1 => exact isInside_nil
  | case2 r ih =>
    intro c rest hc
    show behindEnd? ('*' :: '\\' :: '/' :: (safe r ++ c :: rest)) = _
    rw [behindEnd?_star (by decide), behindEnd?_cons_of_ne (by decide),
      behindEnd?_cons_of_ne (by decide)]
    exact ih c rest hc
  | case3 d r hopen ih =>
    intro c rest hc
    rw [List.cons_append]
    by_cases hd : d = '*'
    · -- What follows the star is the first character of `r`, or else `c`.
      subst hd
      have hnext : ∀ e t, safe r ++ c :: rest = e :: t → e ≠ '/' := by
        intro e t heq he
        cases hr : r with
        | nil =>
          rw [hr] at heq
          exact hc ((List.cons.inj heq).1.trans he)
        | cons x y =>
          have hhead : (safe r ++ c :: rest).head? = some x := by
            rw [List.head?_append, head?_safe, hr]
            rfl
          rw [heq, he] at hhead
          exact hopen y rfl (by rw [hr, ← Option.some.inj hhead])
      cases hbehind : safe r ++ c :: rest with
      | nil => simp at hbehind
      | cons e t => rw [behindEnd?_star (hnext e t hbehind), ← hbehind, ih c rest hc]
    · rw [behindEnd?_cons_of_ne hd, ih c rest hc]

/-- Texts without stars and slashes to each other are inner ones. -/
theorem isInside_of_safe_eq {s : List Char} (h : safe s = s) : IsInside s :=
  h ▸ isInside_safe s

/-- The lines of a comment are inner texts. -/
theorem isInside_line (line : List Char) : IsInside (" * ".toList ++ safe line ++ ['\n']) := by
  have hstar : IsInside [' ', '*'] := isInside_of_safe_eq rfl
  have hend := (isInside_safe line).append_cons (c := '\n') (by decide) (by decide) isInside_nil
  rw [List.append_assoc]
  exact hstar.append_cons (c := ' ') (by decide) (by decide) hend

theorem isInside_lines (lines : List (List Char)) :
    IsInside (lines.flatMap (fun line => " * ".toList ++ safe line ++ ['\n'])) := by
  induction lines with
  | nil => exact isInside_nil
  | cons line rest ih =>
    rw [List.flatMap_cons]
    refine (isInside_line line).append ih ?_
    cases rest <;> simp

/-! ### Comments that end themselves -/

/-- **Ending itself**: behind blanks, a comment that ends with its own last
    characters whatever follows, and then a line feed at most. -/
def EndsItself (comment : List Char) : Prop :=
  ∃ blanks own feed, comment = blanks ++ own ++ feed ∧ (∀ c ∈ blanks, c = ' ')
    ∧ (feed = [] ∨ feed = ['\n']) ∧ ∀ rest, behind? (own ++ rest) = some rest

/-- A comment around an inner text ends where it is closed. -/
theorem behind?_of_isInside {s : List Char} (h : IsInside s) (rest : List Char) :
    behind? ('/' :: '*' :: s ++ " */".toList ++ rest) = some rest := by
  rw [List.append_assoc]
  exact h ' ' ('*' :: '/' :: rest) (by decide)

/-- **Headers** end themselves, whatever the source is. -/
theorem endsItself_header (source : String) : EndsItself (header source) := by
  have hlead : IsInside "*\n * THIS FILE IS AUTOMATICALLY GENERATED FROM:".toList :=
    isInside_of_safe_eq (by decide +kernel)
  have hnote : IsInside " * DO NOT EDIT MANUALLY\n".toList :=
    isInside_of_safe_eq (by decide +kernel)
  have hfirst : "/**\n * THIS FILE IS AUTOMATICALLY GENERATED FROM: ".toList
      = '/' :: '*' :: ("*\n * THIS FILE IS AUTOMATICALLY GENERATED FROM:".toList ++ [' ']) := by
    decide
  have hlast : "\n * DO NOT EDIT MANUALLY\n */".toList
      = '\n' :: (" * DO NOT EDIT MANUALLY\n".toList ++ " */".toList) := by decide
  have hframed : ∀ first lead last note, first = '/' :: '*' :: (lead ++ [' ']) →
      last = '\n' :: (note ++ " */".toList) → IsInside lead → IsInside note →
      EndsItself (first ++ safe source.toList ++ last) := by
    rintro _ lead _ note rfl rfl hlead hnote
    have hsource := (isInside_safe source.toList).append_cons (c := '\n') (by decide) (by decide)
      hnote
    have hinside := hlead.append_cons (c := ' ') (by decide) (by decide) hsource
    refine ⟨[], _, [], ?_, by simp, .inl rfl, behind?_of_isInside hinside⟩
    simp only [List.cons_append, List.append_assoc, List.nil_append, List.append_nil]
  exact hframed _ _ _ _ hfirst hlast hlead hnote

/-- A header ends with the end of its comment. -/
theorem suffix_header (source : String) : ['/'] <:+ header source := by
  have hslash : ['/'] <:+ "\n * DO NOT EDIT MANUALLY\n */".toList := by decide
  exact hslash.trans (List.suffix_append _ _)

/-- **Blocks** end themselves, whatever their lines are. -/
theorem endsItself_block {lines : List (List Char)} (h : block lines ≠ []) :
    EndsItself (block lines) := by
  cases lines with
  | nil => exact absurd rfl h
  | cons line rest =>
    have hstar : IsInside ['*'] := isInside_of_safe_eq rfl
    have hinside := hstar.append_cons (c := '\n') (by decide) (by decide)
      (isInside_lines (line :: rest))
    have hfirst : "/**\n".toList = ['/', '*', '*', '\n'] := by decide
    have hlast : " */\n".toList = " */".toList ++ ['\n'] := by decide
    refine ⟨[], _, ['\n'], ?_, by simp, .inr rfl, behind?_of_isInside hinside⟩
    rw [block, hfirst, hlast]
    simp only [List.cons_append, List.append_assoc, List.nil_append]

/-- **Comments of fields** end themselves, whatever the description is. -/
theorem endsItself_ofField {description : Option String} (h : ofField description ≠ []) :
    EndsItself (ofField description) := by
  unfold ofField at h ⊢
  split at h
  · exact absurd rfl h
  · rename_i c r _
    have hstar : IsInside ['*'] := isInside_of_safe_eq rfl
    have hinside := hstar.append_cons (c := ' ') (by decide) (by decide) (isInside_safe (c :: r))
    have hfirst : "  /** ".toList = [' ', ' ', '/', '*', '*', ' '] := by decide
    have hlast : " */\n".toList = " */".toList ++ ['\n'] := by decide
    refine ⟨[' ', ' '], _, ['\n'], ?_, by simp, .inr rfl, behind?_of_isInside hinside⟩
    rw [hfirst, hlast]
    simp only [List.cons_append, List.append_assoc, List.nil_append]

end Comment

/-! ### The pieces of a file -/

namespace Piece

/-- A piece whose comment is left out where comments are. -/
def kept (withoutComments : Bool) (p : Piece) : Piece :=
  ⟨if withoutComments then [] else p.comment, p.code⟩

theorem concat_append (withoutComments : Bool) (ps qs : List Piece) :
    concat withoutComments (ps ++ qs) = concat withoutComments ps ++ concat withoutComments qs :=
  List.flatMap_append

/-- Leaving comments out piece by piece leaves them out of the text. -/
theorem concat_map_kept (withoutComments : Bool) (ps : List Piece) :
    concat false (ps.map (kept withoutComments)) = concat withoutComments ps := by
  rw [concat, List.flatMap_map]
  rfl

end Piece

/-- A text that ends with a line feed, and with something in front of it, is
    finished as it is. -/
theorem toList_finished {text : List Char} {c : Char} (hc : Text.isBlank c = false)
    (h : [c, '\n'] <:+ text) : (finished text).toList = text := by
  obtain ⟨front, rfl⟩ := h
  have hlast : Text.trimEnd [c, '\n'] = [c] := by
    have hfeed : Text.trimEnd ['\n'] = [] := by decide
    rw [Text.trimEnd, hfeed]
    simp [hc]
  rw [finished, String.toList_ofList, Text.trimEnd_append (by rw [hlast]; simp), hlast,
    List.append_assoc]
  rfl

/-- An interface ends with its closing brace on a line of its own. -/
theorem Declaration.suffix_concat_pieces (d : Declaration) (withoutComments : Bool) :
    ['\x7d', '\n'] <:+ Piece.concat withoutComments d.pieces := by
  have hlast : Piece.concat withoutComments [⟨[], "\x7d\n".toList⟩] = ['\x7d', '\n'] := by
    cases withoutComments <;> decide
  rw [pieces, Piece.concat_append, hlast]
  exact List.suffix_append _ _

namespace Client

/-- The pieces of the file of declarations. -/
def interfacesPieces (c : Client) (options : PackageOptions) : List Piece :=
  ⟨Comment.header c.source, ['\n']⟩
    :: (c.declarations.flatMap Declaration.pieces).map (Piece.kept options.withoutComments)

/-- The pieces of the file of functions, given the imported names. -/
def apiPieces (c : Client) (options : PackageOptions) (imported : List String) : List Piece :=
  ⟨Comment.header c.source, "\n\nimport ".toList ++ options.clientName.toList ++ " from '".toList
      ++ options.clientModule.toList ++ "';\n".toList ++ importTypes options.typesModule imported⟩
    :: (if c.endpoints.isEmpty then []
        else ⟨[], ['\n']⟩
          :: (Endpoint.pieces options.clientName c.endpoints).map
              (Piece.kept options.withoutComments))

/-- The pieces of the file that exports the two others. -/
def indexPieces (c : Client) (options : PackageOptions) : List Piece :=
  [⟨Comment.header c.source, "\n\nexport * from './".toList ++ options.typesModule.toList
    ++ "';\nexport * from './api';\n".toList⟩]

/-- The pieces of the three files of a package. -/
def filePieces (c : Client) (options : PackageOptions) : List (List Piece) :=
  [c.interfacesPieces options, c.apiPieces options (c.imports options).1, c.indexPieces options]

variable (c : Client) (options : PackageOptions)

theorem toList_interfacesFile :
    (c.interfacesFile options).toList = Piece.concat false (c.interfacesPieces options) := by
  have hshape : Piece.concat false (c.interfacesPieces options)
      = Comment.header c.source ++ ['\n']
        ++ Piece.concat options.withoutComments (c.declarations.flatMap Declaration.pieces) := by
    rw [← Piece.concat_map_kept options.withoutComments]
    rfl
  rw [hshape, interfacesFile]
  rcases List.eq_nil_or_concat c.declarations with hnone | ⟨front, last, hlast⟩
  · -- Without declarations, the file is the header.
    obtain ⟨text, htext⟩ := Comment.suffix_header c.source
    rw [hnone, List.flatMap_nil, Piece.concat, List.flatMap_nil, List.append_nil, ← htext]
    exact toList_finished (c := '/') (by decide) ⟨text, by rw [List.append_assoc]; rfl⟩
  · have hend := last.suffix_concat_pieces options.withoutComments
    rw [hlast, List.concat_eq_append, List.flatMap_append, Piece.concat_append,
      List.flatMap_singleton, ← List.append_assoc]
    exact toList_finished (by decide) (hend.trans (List.suffix_append _ _))

/-- What stands in front of the functions ends with the last import. -/
theorem suffix_preamble (imported : List String) :
    [';', '\n'] <:+ c.preamble options imported := by
  have hend : [';', '\n'] <:+ "';\n".toList := by decide
  unfold preamble importTypes
  split
  · rw [List.append_nil]
    exact hend.trans (List.suffix_append _ _)
  · exact (hend.trans (List.suffix_append _ _)).trans (List.suffix_append _ _)

theorem toList_apiFile_eq (imported : List String) :
    (c.apiFile options imported).toList = Piece.concat false (c.apiPieces options imported) := by
  have hshape : Piece.concat false (c.apiPieces options imported)
      = c.preamble options imported
        ++ (if c.endpoints.isEmpty then [] else '\n' :: c.functions options) := by
    rw [functions, ← Piece.concat_map_kept options.withoutComments, apiPieces, preamble]
    cases c.endpoints.isEmpty <;>
      simp [Piece.concat, Piece.chars, List.append_assoc]
  rw [hshape]
  by_cases h : c.endpoints = []
  · -- Without endpoints, the imports end the file.
    have hfunctions : functionsSection (c.functions options) = [] := by
      rw [functions, h]
      rfl
    rw [apiFile, hfunctions, List.append_nil, if_pos (by simp [h]), List.append_nil]
    exact toList_finished (by decide) (c.suffix_preamble options imported)
  · rw [toList_apiFile h, if_neg (by simpa using h)]

theorem toList_indexFile :
    (c.indexFile options).toList = Piece.concat false (c.indexPieces options) := by
  have hshape : Piece.concat false (c.indexPieces options)
      = Comment.header c.source ++ "\n\nexport * from './".toList
        ++ options.typesModule.toList ++ "';\nexport * from './api';\n".toList := by
    simp only [Piece.concat, indexPieces, List.flatMap_cons, List.flatMap_nil, Piece.chars,
      Bool.false_eq_true, if_false, List.append_nil, List.append_assoc]
  have hend : [';', '\n'] <:+ "';\nexport * from './api';\n".toList := by decide
  rw [hshape, indexFile]
  exact toList_finished (by decide) (hend.trans (List.suffix_append _ _))

end Client

/-! ### Comments of a file -/

/-- **Each comment ends itself**: a file is the text of its pieces, and the comment
    in front of a piece, read from its opening with all that follows it, ends
    where its own characters do. -/
structure Comment.EachEnds (content : String) (pieces : List Piece) : Prop where
  toList_eq : content.toList = Piece.concat false pieces
  behind_eq : ∀ front p back, pieces = front ++ p :: back → p.comment ≠ [] →
    ∃ blanks own feed, p.comment = blanks ++ own ++ feed ∧ (∀ c ∈ blanks, c = ' ')
      ∧ (feed = [] ∨ feed = ['\n'])
      ∧ content.toList = Piece.concat false front ++ blanks
          ++ (own ++ (feed ++ p.code ++ Piece.concat false back))
      ∧ behind? (own ++ (feed ++ p.code ++ Piece.concat false back))
          = some (feed ++ p.code ++ Piece.concat false back)

/-- A file does so if the comments of its pieces end themselves. -/
theorem Comment.EachEnds.of_forall {content : String} {pieces : List Piece}
    (h : content.toList = Piece.concat false pieces)
    (hends : ∀ p ∈ pieces, p.comment ≠ [] → EndsItself p.comment) : EachEnds content pieces := by
  refine ⟨h, ?_⟩
  rintro front p back rfl hcomment
  obtain ⟨blanks, own, feed, hsplit, hblanks, hfeed, hown⟩ :=
    hends p (List.mem_append_right front List.mem_cons_self) hcomment
  refine ⟨blanks, own, feed, hsplit, hblanks, hfeed, ?_, hown _⟩
  have hpiece : Piece.concat false (p :: back) = p.comment ++ p.code ++ Piece.concat false back :=
    List.flatMap_cons
  rw [h, Piece.concat_append, hpiece, hsplit]
  simp only [List.append_assoc]

theorem Piece.endsItself_kept {ps : List Piece}
    (h : ∀ p ∈ ps, p.comment ≠ [] → Comment.EndsItself p.comment) (withoutComments : Bool) :
    ∀ p ∈ ps.map (kept withoutComments), p.comment ≠ [] → Comment.EndsItself p.comment := by
  intro p hp hcomment
  obtain ⟨q, hq, rfl⟩ := List.mem_map.1 hp
  cases withoutComments with
  | true => exact absurd rfl hcomment
  | false => exact h q hq hcomment

/-- The comments of an interface and of its fields end themselves. -/
theorem Declaration.endsItself_pieces (d : Declaration) :
    ∀ p ∈ d.pieces, p.comment ≠ [] → Comment.EndsItself p.comment := by
  intro p hp hcomment
  have hmembers : p ∈ d.members → Comment.EndsItself p.comment := by
    intro hp
    unfold members at hp
    split at hp
    · obtain ⟨f, -, rfl⟩ := List.mem_map.1 hp
      exact Comment.endsItself_ofField hcomment
    · rw [List.mem_singleton.1 hp] at hcomment
      exact absurd rfl hcomment
  simp only [pieces, List.cons_append, List.mem_cons, List.mem_append, List.not_mem_nil,
    or_false] at hp
  rcases hp with rfl | rfl | hp | rfl
  · exact absurd rfl hcomment
  · exact Comment.endsItself_block hcomment
  · exact hmembers hp
  · exact absurd rfl hcomment

/-- The comments of functions end themselves. -/
theorem Endpoint.endsItself_pieces (clientName : String) (endpoints : List Endpoint) :
    ∀ p ∈ pieces clientName endpoints, p.comment ≠ [] → Comment.EndsItself p.comment := by
  intro p hp hcomment
  induction endpoints with
  | nil => simp [pieces] at hp
  | cons e rest ih =>
    cases rest with
    | nil =>
      rw [List.mem_singleton.1 hp] at hcomment ⊢
      exact Comment.endsItself_block hcomment
    | cons next more =>
      simp only [pieces, List.mem_cons] at hp
      rcases hp with rfl | rfl | hp
      · exact Comment.endsItself_block hcomment
      · exact absurd rfl hcomment
      · exact ih hp

namespace Client

variable (c : Client) (options : PackageOptions)

theorem eachEnds_interfacesFile :
    Comment.EachEnds (c.interfacesFile options) (c.interfacesPieces options) := by
  have hdeclared : ∀ p ∈ c.declarations.flatMap Declaration.pieces, p.comment ≠ [] →
      Comment.EndsItself p.comment := by
    intro p hp
    obtain ⟨d, -, hp⟩ := List.mem_flatMap.1 hp
    exact d.endsItself_pieces p hp
  refine .of_forall (c.toList_interfacesFile options) (List.forall_mem_cons.2 ⟨fun _ => ?_, ?_⟩)
  · exact Comment.endsItself_header c.source
  · exact Piece.endsItself_kept hdeclared options.withoutComments

theorem eachEnds_apiFile (imported : List String) :
    Comment.EachEnds (c.apiFile options imported) (c.apiPieces options imported) := by
  refine .of_forall (c.toList_apiFile_eq options imported)
    (List.forall_mem_cons.2 ⟨fun _ => ?_, ?_⟩)
  · exact Comment.endsItself_header c.source
  · intro p hp
    split at hp
    · exact absurd hp List.not_mem_nil
    · rcases List.mem_cons.1 hp with rfl | hp
      · exact fun h => absurd rfl h
      · exact Piece.endsItself_kept
          (Endpoint.endsItself_pieces options.clientName c.endpoints) options.withoutComments p hp

theorem eachEnds_indexFile :
    Comment.EachEnds (c.indexFile options) (c.indexPieces options) := by
  refine .of_forall (c.toList_indexFile options) (List.forall_mem_cons.2 ⟨fun _ => ?_, ?_⟩)
  · exact Comment.endsItself_header c.source
  · exact fun _ hp => absurd hp List.not_mem_nil

/-- **Comments stay closed**: in each of the three files of a package, whatever
    texts the client holds, every comment ends with its own last characters. -/
theorem comments_end :
    List.Forall₂ Comment.EachEnds ((c.package options).value.files.map (·.content))
      (c.filePieces options) :=
  .cons (c.eachEnds_interfacesFile options)
    (.cons (c.eachEnds_apiFile options _) (.cons (c.eachEnds_indexFile options) .nil))

end Client

-- The end that the source tries to bring in is torn apart.
example : Comment.behind? (Comment.header "a*/ b **/" ++ ['c']) = some ['c'] := by
  decide +kernel

end TypedClient
