import TypedClient.Yaml.Folding

/-! # Plain scalars

    Scalars without quotes. They end at a colon before a gap, at a comment, at
    a line that is not indented enough and, inside brackets, at every bracket
    and comma.
-/

namespace TypedClient.Yaml.Plain

/-- The characters that structure lists and maps in brackets. -/
def isFlowIndicator (c : Char) : Bool :=
  c == ',' || c == '[' || c == ']' || c == '\x7b' || c == '\x7d'

/-- Whether a bracket, a comma or a question mark is next. -/
def startsIndicator : List Char → Bool
  | [] => false
  | c :: _ => isFlowIndicator c || c == '?'

/-- Splits off the characters up to a gap or to the end of the scalar. -/
def run (inFlow : Bool) : List Char → Option (List Char × List Char)
  | [] => some ([], [])
  | c :: r =>
    if isBlank c || isBreak c then some ([], c :: r)
    -- Between brackets such a colon could be meant either way.
    else if inFlow && c == ':' && startsIndicator r then none
    else if (c == ':' && atGap r) || (inFlow && isFlowIndicator c) then some ([], c :: r)
    else (run inFlow r).map (fun found => (c :: found.1, found.2))

/-- A plain scalar that has been read. -/
structure Result where
  /-- Its text. -/
  text : List Char
  /-- Whether line breaks stand behind it. -/
  broken : Bool
  /-- What follows. -/
  next : Cursor

/-- Goes on with a scalar behind a gap; its text so far comes last first. -/
def go (inFlow : Bool) (indent : Nat) :
    Nat → List Char → Gap → Cursor → Option Result
  | 0, _, _, _ => none
  | fuel + 1, text, gap, c =>
    if c.atBoundary || c.rest.head? == some '#' then some ⟨text.reverse, gap.broken, c⟩
    else do
      let (word, rest) ← run inFlow c.rest
      -- The gap counts only once a word stands behind it.
      let (text, gap) :=
        if word.isEmpty then (text, gap)
        else (word.reverse ++ gap.text.reverse ++ text, ({} : Gap))
      let mark := c.mark.past word
      if startsBlank rest then
        let (gap, next) ← gap.gather indent mark rest
        -- A line that is not indented belongs to the block around the scalar.
        if !inFlow && next.mark.column < indent then some ⟨text.reverse, gap.broken, next⟩
        else go inFlow indent fuel text gap next
      else some ⟨text.reverse, gap.broken, ⟨rest, mark⟩⟩

/-- Reads a plain scalar, the lines of which start at column `indent` or behind;
    `steps` is more than the length of the rest of the text. -/
def read (steps : Nat) (inFlow : Bool) (indent : Nat) (c : Cursor) : Option Result :=
  go inFlow indent steps [] {} c

end TypedClient.Yaml.Plain
