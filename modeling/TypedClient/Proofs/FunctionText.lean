import TypedClient.Package.Function

/-! # The text of functions

    What holds of the text of functions whatever they do, for those that read it
    again.

    * **Prose** reaches a comment line by line, and a line holds no character
      that the prose does not.
    * **Order**: the functions follow each other with an empty line in between,
      and each ends with its closing brace on a line of its own.
-/

namespace TypedClient

/-! ### Prose -/

namespace Text

/-- Trimming the end of a text leaves characters of it. -/
theorem mem_of_mem_trimEnd {s : List Char} {c : Char} (h : c ∈ trimEnd s) : c ∈ s := by
  induction s with
  | nil => exact h
  | cons d r ih =>
    rw [trimEnd] at h
    split at h
    · split at h
      · simp at h
      · exact List.mem_cons.2 (.inl (List.mem_singleton.1 h))
    · rcases List.mem_cons.1 h with rfl | h
      · exact List.mem_cons_self
      · exact List.mem_cons_of_mem d (ih h)

/-- A piece of a text that is cut holds characters of it, but no separator. -/
theorem of_mem_cutAt {sep : Char} {s piece : List Char} (h : piece ∈ cutAt sep s) {c : Char}
    (hc : c ∈ piece) : c ≠ sep ∧ c ∈ s := by
  induction s generalizing piece with
  | nil =>
    rw [cutAt, List.mem_singleton] at h
    rw [h] at hc
    simp at hc
  | cons d r ih =>
    have hbehind : ∀ p ∈ cutAt sep r, c ∈ p → c ≠ sep ∧ c ∈ d :: r := by
      intro p hp hcp
      obtain ⟨hne, hmem⟩ := ih hp hcp
      exact ⟨hne, List.mem_cons_of_mem d hmem⟩
    rw [cutAt] at h
    split at h
    · rcases List.mem_cons.1 h with rfl | h
      · simp at hc
      · exact hbehind piece h hc
    · rename_i hd
      split at h
      · rw [List.mem_singleton.1 h, List.mem_singleton] at hc
        rw [hc]
        exact ⟨hd, List.mem_cons_self⟩
      · rename_i first pieces hcut
        rcases List.mem_cons.1 h with rfl | h
        · rcases List.mem_cons.1 hc with rfl | hc
          · exact ⟨hd, List.mem_cons_self⟩
          · exact hbehind first (hcut ▸ List.mem_cons_self) hc
        · exact hbehind piece (hcut ▸ List.mem_cons_of_mem first h) hc

theorem of_mem_docLines {text line : List Char} (h : line ∈ docLines text) {c : Char}
    (hc : c ∈ line) : c ≠ '\n' ∧ c ∈ text := by
  obtain ⟨piece, hpiece, rfl⟩ := List.mem_map.1 (List.mem_filter.1 h).1
  exact of_mem_cutAt hpiece (mem_of_mem_trimEnd hc)

end Text

/-- Keeping a text from ending its comment puts backslashes in, and nothing else. -/
theorem Comment.mem_of_mem_safe {s : List Char} {c : Char} (h : c ∈ safe s) :
    c = '\\' ∨ c ∈ s := by
  fun_induction safe s with
  | case1 => exact .inr h
  | case2 r ih =>
    simp only [List.mem_cons] at h ⊢
    rcases h with rfl | rfl | rfl | h
    · exact .inr (.inl rfl)
    · exact .inl rfl
    · exact .inr (.inr (.inl rfl))
    · rcases ih h with hslash | hmem
      · exact .inl hslash
      · exact .inr (.inr (.inr hmem))
  | case3 d r _ ih =>
    rcases List.mem_cons.1 h with rfl | h
    · exact .inr List.mem_cons_self
    · rcases ih h with hslash | hmem
      · exact .inl hslash
      · exact .inr (List.mem_cons_of_mem d hmem)

namespace Endpoint

/-- The characters of the comment of a function come from its prose, or from its
    mark. -/
theorem of_mem_docLines {e : Endpoint} {line : List Char} (h : line ∈ e.docLines) {c : Char}
    (hc : c ∈ line) :
    c ≠ '\n' ∧ (c ∈ (e.summary.getD "").toList ∨ c ∈ (e.description.getD "").toList
      ∨ c ∈ "@deprecated".toList) := by
  rcases List.mem_append.1 h with h | h
  · rcases List.mem_append.1 h with h | h
    · obtain ⟨hne, hmem⟩ := Text.of_mem_docLines h hc
      exact ⟨hne, .inl hmem⟩
    · obtain ⟨hne, hmem⟩ := Text.of_mem_docLines h hc
      exact ⟨hne, .inr (.inl hmem)⟩
  · split at h
    · have hmark : ∀ c ∈ "@deprecated".toList, c ≠ '\n' := by decide
      rw [List.mem_singleton.1 h] at hc
      exact ⟨hmark c hc, .inr (.inr hc)⟩
    · simp at h

/-! ### Order -/

variable (clientName : String) (withoutComments : Bool)

theorem chars_piece (e : Endpoint) :
    (e.piece clientName).chars withoutComments
      = (if withoutComments then [] else Comment.block e.docLines) ++ e.functionChars clientName :=
  rfl

theorem concat_pieces_singleton (e : Endpoint) :
    Piece.concat withoutComments (pieces clientName [e])
      = (e.piece clientName).chars withoutComments :=
  List.append_nil _

/-- An empty line stands between each two functions. -/
theorem concat_pieces_cons (e next : Endpoint) (rest : List Endpoint) :
    Piece.concat withoutComments (pieces clientName (e :: next :: rest))
      = (e.piece clientName).chars withoutComments
        ++ ('\n' :: Piece.concat withoutComments (pieces clientName (next :: rest))) := by
  have hfeed : Piece.chars withoutComments ⟨[], ['\n']⟩ = ['\n'] := by
    cases withoutComments <;> rfl
  show _ ++ (Piece.chars withoutComments ⟨[], ['\n']⟩ ++ _) = _
  rw [hfeed]
  rfl

/-- A function ends with a line that holds its closing brace. -/
theorem exists_functionChars_eq (e : Endpoint) :
    ∃ front, e.functionChars clientName = front ++ ['\n', '\x7d', '\n'] := by
  have hend : ");\n  return response.data;\n\x7d\n".toList
      = ");\n  return response.data;".toList ++ ['\n', '\x7d', '\n'] := by
    decide
  have hsuffix : ['\n', '\x7d', '\n'] <:+ e.functionChars clientName := by
    unfold functionChars
    rw [hend]
    exact (List.suffix_append _ _).trans (List.suffix_append _ _)
  obtain ⟨front, hfront⟩ := hsuffix
  exact ⟨front, hfront.symm⟩

/-- So does the text of all functions. -/
theorem exists_concat_pieces_eq {endpoints : List Endpoint} (h : endpoints ≠ []) :
    ∃ front, Piece.concat withoutComments (pieces clientName endpoints)
      = front ++ ['\n', '\x7d', '\n'] := by
  induction endpoints with
  | nil => exact absurd rfl h
  | cons e rest ih =>
    cases rest with
    | nil =>
      obtain ⟨front, hfront⟩ := e.exists_functionChars_eq clientName
      rw [concat_pieces_singleton, chars_piece, hfront, ← List.append_assoc]
      exact ⟨_, rfl⟩
    | cons next more =>
      obtain ⟨front, hfront⟩ := ih (List.cons_ne_nil next more)
      rw [concat_pieces_cons, hfront, ← List.cons_append, ← List.append_assoc]
      exact ⟨_, rfl⟩

end Endpoint

end TypedClient
