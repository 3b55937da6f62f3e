import TypedClient.Yaml.Cursor

/-! # Block scalars

    Scalars that are told from the rest by their indentation.

    * **Header**: behind the indicator the line breaks to keep at the end and
      the indentation may be given, in either order.
    * **Folded** scalars join lines that start with no blank.
-/

namespace TypedClient.Yaml.Block

/-- Which line breaks at the end of a scalar belong to it. -/
inductive Chomping where
  /-- None. -/
  | strip
  /-- The first. -/
  | clip
  /-- All. -/
  | keep

/-- What a header says. -/
structure Header where
  /-- Which line breaks at the end count. -/
  chomping : Chomping := .clip
  /-- The indentation relative to the surrounding block; zero if not given. -/
  increment : Nat := 0

def increment? (c : Cursor) : Option (Nat × Cursor) :=
  match c.rest with
  | d :: _ =>
    if d = '0' then none
    else if d.isDigit then some (Digit.decimal d, c.skip)
    else some (0, c)
  | [] => some (0, c)

/-- Reads what is said about line breaks at the end. -/
def chomping (c : Cursor) : Chomping × Cursor :=
  match c.rest with
  | '+' :: _ => (.keep, c.skip)
  | '-' :: _ => (.strip, c.skip)
  | _ => (.clip, c)

/-- Reads a header behind the indicator. -/
def header? (c : Cursor) : Option (Header × Cursor) :=
  match c.rest with
  | '+' :: _ | '-' :: _ => do
    let (chomp, c) := chomping c
    let (increment, c) ← increment? c
    return (⟨chomp, increment⟩, c)
  | _ => do
    let (increment, c) ← increment? c
    if increment = 0 then return ({}, c)
    else
      let (chomp, c) := chomping c
      return (⟨chomp, increment⟩, c)

/-- The empty lines before a line of text. -/
structure Margin where
  /-- Their line breaks. -/
  breaks : List Char
  /-- The widest indentation among them and that line. -/
  widest : Nat
  /-- What follows. -/
  next : Cursor

/-- Passes over indentation up to a column, and over line breaks. The column
    zero stands for an indentation yet to be found. -/
def margin (indent : Nat) (breaks : List Char) (widest : Nat) (m : Mark) :
    List Char → Option Margin
  | [] => some ⟨breaks, max widest m.column, ⟨[], m⟩⟩
  | '\r' :: '\n' :: r =>
    margin indent (breaks ++ ['\n']) (max widest m.column) (m.nextLine 2) r
  | c :: r =>
    let before := indent = 0 ∨ m.column < indent
    if c = ' ' ∧ before then margin indent breaks widest (m.right c) r
    else if c = '\t' ∧ before then none
    else if isBreak c then
      margin indent (breaks ++ breakText c) (max widest m.column) (m.nextLine c.utf8Size) r
    else some ⟨breaks, max widest m.column, ⟨c :: r, m⟩⟩

/-- Passes over the margin at a cursor. -/
def marginAt (indent : Nat) (c : Cursor) : Option Margin :=
  margin indent [] 0 c.mark c.rest

/-- What has been read of a scalar. -/
structure Progress where
  /-- Its text, last first. -/
  text : List Char := []
  /-- The break behind the last line of text. -/
  lastBreak : List Char := []
  /-- The breaks of the empty lines behind that. -/
  breaks : List Char := []
  /-- Whether that line starts with a blank. -/
  blankBefore : Bool := false

/-- What stands for the break between two lines of text. -/
def glue (literal : Bool) (p : Progress) (blankBehind : Bool) : List Char :=
  if !literal && p.lastBreak.head? == some '\n' && !p.blankBefore && !blankBehind then
    (if p.breaks.isEmpty then [' '] else [])
  else p.lastBreak

/-- Reads the lines that start at a column. -/
def lines (literal : Bool) (indent : Nat) :
    Nat → Progress → Cursor → Option (Progress × Cursor)
  | 0, _, _ => none
  | fuel + 1, p, c =>
    match c.rest with
    | [] => some (p, c)
    | d :: _ =>
      if c.mark.column = indent then do
        -- The text of the break before this line, and of the empty lines.
        let joint := glue literal p (isBlank d) ++ p.breaks
        let (line, behind) := c.takeWhile (fun d => !isBreak d)
        let (lastBreak, behind) := behind.takeBreak
        let m ← marginAt indent behind
        lines literal indent fuel
          { text := line.reverse ++ joint.reverse ++ p.text
            lastBreak
            breaks := m.breaks
            blankBefore := isBlank d } m.next
      else some (p, c)

/-- The line breaks at the end that belong to a scalar. -/
def tail (chomping : Chomping) (p : Progress) : List Char :=
  match chomping with
  | .strip => []
  | .clip => p.lastBreak
  | .keep => p.lastBreak ++ p.breaks

/-- Reads a block scalar from its indicator, inside a block at column `parent`;
    outside of all blocks that is -1. The number of `steps` is more than the
    length of the rest of the text. -/
def read (steps : Nat) (literal : Bool) (parent : Int) (c : Cursor) :
    Option (List Char × Cursor) := do
  let (h, c) ← header? c.skip
  let c ← c.endLine?
  -- A given indentation is relative to the block around the scalar.
  let given := if h.increment = 0 then 0 else parent.toNat + h.increment
  let m ← marginAt given c
  -- Without one, the first line that is not empty decides.
  let indent := if given = 0 then max (max m.widest (parent + 1).toNat) 1 else given
  let (p, c) ← lines literal indent steps { breaks := m.breaks } m.next
  return (p.text.reverse ++ tail h.chomping p, c)

end TypedClient.Yaml.Block
