import TypedClient.Text.Digit

/-! # Places in a YAML text

    * **Characters**: line breaks are five, blanks are two, and some controls
      may not stand in a text at all.
    * **Marks** count lines and columns from zero, and bytes.
    * **Cursors** are a mark with the rest of the text behind it.
-/

namespace TypedClient.Yaml

/-- Whether a character may stand in a text. -/
def isAllowed (c : Char) : Bool :=
  c == '\t' || c == '\n' || c == '\r' || (0x20 ≤ c.val && c.val ≤ 0x7E) || c.val == 0x85 ||
    (0xA0 ≤ c.val && c.val ≤ 0xD7FF) || (0xE000 ≤ c.val && c.val ≤ 0xFFFD) || 0x10000 ≤ c.val

/-- The line and paragraph separators, which are kept where other breaks turn
    into line feeds. -/
def isSeparator (c : Char) : Bool :=
  c.val == 0x2028 || c.val == 0x2029

def isBreak (c : Char) : Bool :=
  c == '\n' || c == '\r' || c.val == 0x85 || isSeparator c

def isBlank (c : Char) : Bool :=
  c == ' ' || c == '\t'

/-- The characters of anchors and of handles. -/
def isNameChar (c : Char) : Bool :=
  c.isAlphanum || c == '_' || c == '-'

def byteOrderMark : Char :=
  '\ufeff'

/-- Whether a text starts with a blank or a line break. -/
def startsBlank : List Char → Bool
  | [] => false
  | c :: _ => isBlank c || isBreak c

/-- Whether a blank, a line break or the end of the text is next. -/
def atGap (s : List Char) : Bool :=
  s.isEmpty || startsBlank s

/-- A place in a text. -/
structure Mark where
  /-- The bytes before it. -/
  index : Nat
  /-- The lines before it. -/
  line : Nat
  /-- The characters before it in its line. -/
  column : Nat
  deriving DecidableEq, Repr

namespace Mark

/-- The start of a text. -/
def start : Mark :=
  ⟨0, 0, 0⟩

/-- The place behind a character inside a line. -/
def right (m : Mark) (c : Char) : Mark :=
  ⟨m.index + c.utf8Size, m.line, m.column + 1⟩

/-- The place behind a run of characters inside a line. -/
def past (m : Mark) (run : List Char) : Mark :=
  run.foldl right m

/-- The place behind a line break of some bytes. -/
def nextLine (m : Mark) (bytes : Nat) : Mark :=
  ⟨m.index + bytes, m.line + 1, 0⟩

end Mark

/-- The text of a line break. -/
def breakText (c : Char) : List Char :=
  if isSeparator c then [c] else ['\n']

/-- The rest of a text and where it starts. -/
structure Cursor where
  /-- The rest. -/
  rest : List Char
  /-- Its place. -/
  mark : Mark

namespace Cursor

/-- Passes over a character inside a line. -/
def skip (c : Cursor) : Cursor :=
  match c.rest with
  | [] => c
  | d :: r => ⟨r, c.mark.right d⟩

/-- Passes over several characters inside a line. -/
def skipMany (n : Nat) (c : Cursor) : Cursor :=
  ⟨c.rest.drop n, c.mark.past (c.rest.take n)⟩

/-- Splits off the characters of a kind. -/
def takeWhile (p : Char → Bool) (c : Cursor) : List Char × Cursor :=
  let run := c.rest.takeWhile p
  (run, ⟨c.rest.dropWhile p, c.mark.past run⟩)

/-- Passes over the characters of a kind. -/
def skipWhile (p : Char → Bool) (c : Cursor) : Cursor :=
  (c.takeWhile p).2

/-- Splits off the text of a line break, if one is next. -/
def takeBreak (c : Cursor) : List Char × Cursor :=
  match c.rest with
  | '\r' :: '\n' :: r => (['\n'], ⟨r, c.mark.nextLine 2⟩)
  | d :: r => if isBreak d then (breakText d, ⟨r, c.mark.nextLine d.utf8Size⟩) else ([], c)
  | [] => ([], c)

/-- Passes over blanks, and a comment if one is next. -/
def skipComment (c : Cursor) : Cursor :=
  let c := c.skipWhile isBlank
  match c.rest with
  | '#' :: _ => c.skipWhile (fun d => !isBreak d)
  | _ => c

/-- Passes over the blanks, the comment and the break that end a line; `none`
    if there is anything else on it. -/
def endLine? (c : Cursor) : Option Cursor :=
  let c := c.skipComment
  match c.rest with
  | [] => some c
  | d :: _ => if isBreak d then some c.takeBreak.2 else none

/-- Whether three characters stand at the start of a line, alone or before a gap. -/
def atMarker (marker : Char) (c : Cursor) : Bool :=
  c.mark.column == 0 &&
    match c.rest with
    | x :: y :: z :: r => x == marker && y == marker && z == marker && atGap r
    | _ => false

/-- Whether a line starts that ends a document or starts the next one. -/
def atBoundary (c : Cursor) : Bool :=
  c.atMarker '-' || c.atMarker '.'

end Cursor

end TypedClient.Yaml
