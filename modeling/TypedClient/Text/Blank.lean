/-! # White space and lines

    The `White_Space` property of Unicode, which decides where a line of prose
    ends and what a documentation comment leaves out:

    * **Trimming**: `trimEnd` removes exactly the blank characters at the end.
    * **Lines**: `docLines` cuts prose at line feeds and keeps the lines that
      have something on them.
-/

namespace TypedClient.Text

/-- The characters with the `White_Space` property. -/
def isBlank (c : Char) : Bool :=
  (0x09 ≤ c.val && c.val ≤ 0x0D) || c.val == 0x20 || c.val == 0x85 || c.val == 0xA0 ||
    c.val == 0x1680 || (0x2000 ≤ c.val && c.val ≤ 0x200A) || c.val == 0x2028 ||
    c.val == 0x2029 || c.val == 0x202F || c.val == 0x205F || c.val == 0x3000

/-- Removes the blank characters at the end of a text. -/
def trimEnd : List Char → List Char
  | [] => []
  | c :: r =>
    match trimEnd r with
    | [] => if isBlank c then [] else [c]
    | t => c :: t

/-- Cuts a text at every occurrence of `sep`; there is always a last piece. -/
def cutAt (sep : Char) : List Char → List (List Char)
  | [] => [[]]
  | c :: r =>
    if c = sep then [] :: cutAt sep r
    else
      match cutAt sep r with
      | [] => [[c]]
      | piece :: pieces => (c :: piece) :: pieces

/-- The lines of a piece of prose, without the blanks at their ends and
    without the lines that hold nothing else. -/
def docLines (text : List Char) : List (List Char) :=
  ((cutAt '\n' text).map trimEnd).filter (fun line => !line.isEmpty)

/-- Cutting never returns the empty list of pieces. -/
theorem cutAt_ne_nil (sep : Char) (s : List Char) : cutAt sep s ≠ [] := by
  cases s with
  | nil => simp [cutAt]
  | cons c r =>
    rw [cutAt]
    split
    · simp
    · split <;> simp

end TypedClient.Text
