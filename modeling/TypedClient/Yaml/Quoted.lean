import TypedClient.Yaml.Folding

/-! # Quoted scalars

    * **Single quotes**: a quote inside is written twice.
    * **Double quotes**: a backslash starts an escape; before a line break it
      joins the lines without a blank.
-/

namespace TypedClient.Yaml.Quoted

/-- Characters up to a gap or to the quote. -/
structure Run where
  /-- The text they stand for. -/
  text : List Char
  /-- Whether they end with an escaped line break. -/
  joined : Bool
  /-- What follows. -/
  next : Cursor

/-- Puts characters before a run. -/
def Run.cons (c : Char) (r : Run) : Run :=
  { r with text := c :: r.text }

/-- Reads characters between single quotes. -/
def singleRun (m : Mark) : List Char → Run
  | [] => ⟨[], false, ⟨[], m⟩⟩
  | '\'' :: '\'' :: r => (singleRun ((m.right '\'').right '\'') r).cons '\''
  | c :: r =>
    if c = '\'' || isBlank c || isBreak c then ⟨[], false, ⟨c :: r, m⟩⟩
    else (singleRun (m.right c) r).cons c

/-- The character that a short escape stands for. -/
def shortEscape? (c : Char) : Option Char :=
  match c with
  | '0' => some '\x00'
  | 'a' => some '\x07'
  | 'b' => some '\x08'
  | 't' => some '\t'
  | '\t' => some '\t'
  | 'n' => some '\n'
  | 'v' => some '\x0b'
  | 'f' => some '\x0c'
  | 'r' => some '\r'
  | 'e' => some '\x1b'
  | ' ' => some ' '
  | '"' => some '"'
  | '/' => some '/'
  | '\\' => some '\\'
  | 'N' => some '\u0085'
  | '_' => some '\u00a0'
  | 'L' => some '\u2028'
  | 'P' => some '\u2029'
  | _ => none

/-- The number of digits of a numeric escape. -/
def escapeDigits? (c : Char) : Option Nat :=
  match c with
  | 'x' => some 2
  | 'u' => some 4
  | 'U' => some 8
  | _ => none

/-- The character of a number, which may be no surrogate. -/
def character? (n : Nat) : Option Char :=
  if n.isValidChar then some (Char.ofNat n) else none

/-- Reads characters between double quotes. -/
def doubleRun : Nat → Cursor → Option Run
  | 0, _ => none
  | fuel + 1, c =>
    match c.rest with
    | [] => some ⟨[], false, c⟩
    | [d] =>
      if d = '\\' then none
      else if d = '"' || isBlank d || isBreak d then some ⟨[], false, c⟩
      else (doubleRun fuel c.skip).map (Run.cons d)
    | d :: e :: r =>
      if d = '\\' then
        -- An escaped break stands for nothing, and the gap behind it is dropped.
        if isBreak e then some ⟨[], true, c.skip.takeBreak.2⟩
        else
          match shortEscape? e with
          | some f => (doubleRun fuel (c.skipMany 2)).map (Run.cons f)
          | none => do
            let count ← escapeDigits? e
            let digits := r.take count
            let f ← if digits.length = count then (Digit.number? 16 digits).bind character? else none
            let run ← doubleRun fuel (c.skipMany (2 + count))
            return run.cons f
      else if d = '"' || isBlank d || isBreak d then some ⟨[], false, c⟩
      else (doubleRun fuel c.skip).map (Run.cons d)

/-- Reads characters between quotes of either kind. -/
def run? (steps : Nat) (quote : Char) (c : Cursor) : Option Run :=
  if quote = '\'' then some (singleRun c.mark c.rest) else doubleRun steps c

/-- Goes on with a scalar; its text so far comes last first. -/
def go (steps : Nat) (quote : Char) : Nat → List Char → Cursor → Option (List Char × Cursor)
  | 0, _, _ => none
  | fuel + 1, text, c =>
    -- A document must not end inside a scalar.
    if c.atBoundary || c.rest.isEmpty then none
    else do
      let run ← run? steps quote c
      let text := run.text.reverse ++ text
      if run.next.rest.head? == some quote then some (text.reverse, run.next.skip)
      else
        let (gap, next) ← Gap.gather 0 { broken := run.joined } run.next.mark run.next.rest
        go steps quote fuel (gap.text.reverse ++ text) next

/-- Reads a quoted scalar from its opening quote; `steps` is more than the
    length of the rest of the text. -/
def read (steps : Nat) (quote : Char) (c : Cursor) : Option (List Char × Cursor) :=
  go steps quote steps [] c.skip

end TypedClient.Yaml.Quoted
