import TypedClient.Yaml.Plain
import TypedClient.Yaml.Block
import TypedClient.Yaml.Directive

/-! # Splitting a YAML text into tokens

    * **Blocks** open where something starts further to the right than the
      surrounding block, and close where something starts further to the left.
    * **Possible keys**: whether a scalar or a collection is a key shows at the
      colon behind it, which has to follow on the same line within 1024 bytes.
      Each bracket level remembers one possible key; at the colon a token is
      put in front of it.
    * **Required keys** are those at the very column of the block: without
      their colon the text is refused.
-/

namespace TypedClient.Yaml

/-- Something that is a key if a colon follows. -/
structure PossibleKey where
  /-- Whether a colon has to follow. -/
  required : Bool
  /-- The number of tokens before it. -/
  number : Nat
  /-- Its place. -/
  mark : Mark

/-- How far the splitting has got. -/
structure Scanning where
  /-- What is left. -/
  cursor : Cursor
  /-- The column of the innermost block; -1 outside of all blocks. -/
  indent : Int := -1
  /-- The columns of the blocks around it. -/
  indents : List Int := []
  /-- Whether a key may start here. -/
  keyAllowed : Bool := true
  /-- The possible key of the innermost bracket level. -/
  key : Option PossibleKey := none
  /-- The possible keys of the levels around it. -/
  outerKeys : List (Option PossibleKey) := []
  /-- The tokens so far, last first. -/
  tokens : List Token := []
  /-- Their number. -/
  count : Nat := 0

namespace Scanning

/-- Whether a bracket is open. -/
def inFlow (s : Scanning) : Bool :=
  !s.outerKeys.isEmpty

/-- The place of the cursor. -/
def mark (s : Scanning) : Mark :=
  s.cursor.mark

/-- Adds a token at the end. -/
def emit (s : Scanning) (kind : TokenKind) (start stop : Mark) : Scanning :=
  { s with tokens := ⟨kind, start, stop⟩ :: s.tokens, count := s.count + 1 }

/-- Adds a token behind the first `number` ones. -/
def emitBehind (s : Scanning) (number : Nat) (kind : TokenKind) (mark : Mark) : Scanning :=
  { s with
    tokens := s.tokens.insertIdx (s.count - number) ⟨kind, mark, mark⟩
    count := s.count + 1 }

/-- Adds the token of what a reader has read, and goes on behind it. -/
def emitRead (s : Scanning) (kind : TokenKind) (next : Cursor) : Scanning :=
  { s.emit kind s.mark next.mark with cursor := next }

/-- Adds a token of a few characters. -/
def emitOver (s : Scanning) (characters : Nat) (kind : TokenKind) : Scanning :=
  s.emitRead kind (s.cursor.skipMany characters)

/-! ### Possible keys -/

/-- Whether the colon of a possible key can no longer follow. -/
def isStale (m : Mark) (k : PossibleKey) : Bool :=
  k.mark.line < m.line || k.mark.index + 1024 < m.index

/-- Gives up a possible key whose colon can no longer follow. -/
def refreshKey (m : Mark) : Option PossibleKey → Option (Option PossibleKey)
  | none => some none
  | some k => if isStale m k then (if k.required then none else some none) else some (some k)

/-- Gives up all possible keys whose colons can no longer follow. -/
def refreshKeys (s : Scanning) : Option Scanning := do
  let key ← refreshKey s.mark s.key
  let outerKeys ← s.outerKeys.mapM (refreshKey s.mark)
  return { s with key, outerKeys }

/-- Gives up the possible key of the innermost level. -/
def dropKey (s : Scanning) : Option Scanning :=
  match s.key with
  | some k => if k.required then none else some { s with key := none }
  | none => some s

/-- Remembers the next token as a possible key, if one may start here. -/
def saveKey (s : Scanning) : Option Scanning :=
  if s.keyAllowed then do
    -- At the column of its block nothing but a key can stand.
    let required := !s.inFlow && s.indent == (s.mark.column : Int)
    let dropped ← s.dropKey
    return { dropped with key := some ⟨required, s.count, s.mark⟩ }
  else some s

/-! ### Blocks -/

/-- Opens a block at a column if that is further to the right, with a token
    behind the first `number` ones. -/
def openBlock (s : Scanning) (number : Nat) (kind : TokenKind) (m : Mark) : Scanning :=
  if !s.inFlow && s.indent < m.column then
    { s.emitBehind number kind m with indent := m.column, indents := s.indent :: s.indents }
  else s

/-- Closes the blocks that are further to the right than a column. -/
def closeBlocksFrom (column : Int) (m : Mark) : List Int → Scanning → Scanning
  | [], s => s
  | outer :: rest, s =>
    if column < s.indent then
      closeBlocksFrom column m rest
        { s.emit .blockEnd m m with indent := outer, indents := rest }
    else s

/-- Closes the blocks that are further to the right than a column. -/
def closeBlocks (s : Scanning) (column : Int) : Scanning :=
  if s.inFlow then s else closeBlocksFrom column s.mark s.indents s

/-! ### Tokens -/

/-- Passes over blanks, comments and line breaks, and over a byte order mark
    at the start of the text. A break outside of brackets lets a key start;
    where one may start, tabs are no blanks. -/
def toToken (inFlow : Bool) : (inComment keyAllowed : Bool) → Mark → List Char → Cursor × Bool
  | _, keyAllowed, m, [] => (⟨[], m⟩, keyAllowed)
  | _, keyAllowed, m, '\r' :: '\n' :: r =>
    toToken inFlow false (keyAllowed || !inFlow) (m.nextLine 2) r
  | inComment, keyAllowed, m, c :: r =>
    if isBreak c then toToken inFlow false (keyAllowed || !inFlow) (m.nextLine c.utf8Size) r
    else if inComment then toToken inFlow true keyAllowed (m.right c) r
    -- The mark counts as a column, so what follows it is indented.
    else if c = byteOrderMark ∧ m.index = 0 then toToken inFlow false keyAllowed (m.right c) r
    -- Where a key may start, a tab would have to be indentation.
    else if c = ' ' ∨ (c = '\t' ∧ (inFlow = true ∨ keyAllowed = false)) then
      toToken inFlow false keyAllowed (m.right c) r
    else if c = '#' then toToken inFlow true keyAllowed (m.right c) r
    else (⟨c :: r, m⟩, keyAllowed)

/-- Goes to the start of the next token. -/
def advance (s : Scanning) : Option Scanning := do
  let (cursor, keyAllowed) := toToken s.inFlow false s.keyAllowed s.mark s.cursor.rest
  -- Passing over a break may rule out keys, and its column may close blocks.
  let s ← { s with cursor, keyAllowed }.refreshKeys
  return s.closeBlocks s.mark.column

/-- Leaves all blocks, and lets no key start. -/
def leaveBlocks (s : Scanning) : Option Scanning := do
  let s ← (s.closeBlocks (-1)).dropKey
  return { s with keyAllowed := false }

def directive (steps : Nat) (s : Scanning) : Option Scanning := do
  let s ← s.leaveBlocks
  let (kind, next) ← Directive.read steps s.cursor
  return s.emitRead kind next

/-- A line that starts or ends a document. -/
def boundary (s : Scanning) (kind : TokenKind) : Option Scanning := do
  let s ← s.leaveBlocks
  return s.emitOver 3 kind

def openFlow (s : Scanning) (kind : TokenKind) : Option Scanning := do
  let s ← s.saveKey
  return { s.emitOver 1 kind with
    key := none, outerKeys := s.key :: s.outerKeys, keyAllowed := true }

def closeFlow (s : Scanning) (kind : TokenKind) : Option Scanning := do
  let s ← s.dropKey
  let s := { s.emitOver 1 kind with keyAllowed := false }
  match s.outerKeys with
  | [] => return s
  | key :: outerKeys => return { s with key, outerKeys }

def flowEntry (s : Scanning) : Option Scanning := do
  let s ← s.dropKey
  return { s.emitOver 1 .flowEntry with keyAllowed := true }

/-- Opens a block for an indicator, which has to be where a key may start. -/
def enterBlock (s : Scanning) (kind : TokenKind) : Option Scanning :=
  if s.inFlow then some s
  else if s.keyAllowed then some (s.openBlock s.count kind s.mark)
  else none

def blockEntry (s : Scanning) : Option Scanning := do
  let s ← s.enterBlock .blockSequence
  let s ← s.dropKey
  return { s.emitOver 1 .blockEntry with keyAllowed := true }

def explicitKey (s : Scanning) : Option Scanning := do
  let s ← s.enterBlock .blockMapping
  let s ← s.dropKey
  return { s.emitOver 1 .key with keyAllowed := !s.inFlow }

/-- A colon, behind a possible key or on its own. -/
def value (s : Scanning) : Option Scanning :=
  match s.key with
  | some k =>
    -- What has been read as a scalar or collection turns out to be a key.
    let s := s.emitBehind k.number .key k.mark
    let s := s.openBlock k.number .blockMapping k.mark
    some { s.emitOver 1 .value with key := none, keyAllowed := false }
  | none => do
    let s ← s.enterBlock .blockMapping
    return { s.emitOver 1 .value with keyAllowed := !s.inFlow }

/-- The name of an anchor or alias. -/
def name (s : Scanning) (kind : List Char → TokenKind) : Option Scanning := do
  let s ← s.saveKey
  let (name, next) := s.cursor.skip.takeWhile isNameChar
  let follows := atGap next.rest || "?:,]\x7d%@`".toList.contains (next.rest.headD ' ')
  if name.isEmpty || !follows then none
  else return { s.emitRead (kind name) next with keyAllowed := false }

def tag (steps : Nat) (s : Scanning) : Option Scanning := do
  let s ← s.saveKey
  let (tag, next) ← Tag.read steps s.inFlow s.cursor
  return { s.emitRead (.tag tag) next with keyAllowed := false }

def blockScalar (steps : Nat) (s : Scanning) (style : ScalarStyle) : Option Scanning := do
  let s ← s.dropKey
  let (text, next) ← Block.read steps (style == .literal) s.indent s.cursor
  return { s.emitRead (.scalar style text) next with keyAllowed := true }

def quotedScalar (steps : Nat) (s : Scanning) (quote : Char) (style : ScalarStyle) :
    Option Scanning := do
  let s ← s.saveKey
  let (text, next) ← Quoted.read steps quote s.cursor
  return { s.emitRead (.scalar style text) next with keyAllowed := false }

def plainScalar (steps : Nat) (s : Scanning) : Option Scanning := do
  let s ← s.saveKey
  let found ← Plain.read steps s.inFlow (s.indent + 1).toNat s.cursor
  return { s.emitRead (.scalar .plain found.text) found.next with keyAllowed := found.broken }

/-- Whether a plain scalar may start with these characters. -/
def startsPlain (inFlow : Bool) (c : Char) (r : List Char) : Bool :=
  !(isBlank c || "-?:,[]\x7b\x7d#&*!|>'\"%@`".toList.contains c) || c == '-' ||
    (!inFlow && (c == '?' || c == ':') && !atGap r)

/-- Splits off the token at the cursor; `steps` is more than the length of the
    rest of the text. -/
def token (steps : Nat) (s : Scanning) : Option Scanning :=
  match s.cursor.rest with
  | [] => none
  | c :: r =>
    -- What structures documents comes first, then brackets, then blocks,
    -- and what starts a node last.
    if s.mark.column == 0 && c == '%' then s.directive steps
    else if s.cursor.atMarker '-' then s.boundary .documentStart
    else if s.cursor.atMarker '.' then s.boundary .documentEnd
    else if c == '[' then s.openFlow .flowSequence
    else if c == '\x7b' then s.openFlow .flowMapping
    else if c == ']' then s.closeFlow .flowSequenceEnd
    else if c == '\x7d' then s.closeFlow .flowMappingEnd
    else if c == ',' then s.flowEntry
    else if c == '-' && atGap r then s.blockEntry
    else if c == '?' && (s.inFlow || atGap r) then s.explicitKey
    else if c == ':' && (s.inFlow || atGap r) then s.value
    else if c == '*' then s.name .alias
    else if c == '&' then s.name .anchor
    else if c == '!' then s.tag steps
    else if c == '|' && !s.inFlow then s.blockScalar steps .literal
    else if c == '>' && !s.inFlow then s.blockScalar steps .folded
    else if c == '\'' then s.quotedScalar steps '\'' .singleQuoted
    else if c == '"' then s.quotedScalar steps '"' .doubleQuoted
    else if startsPlain s.inFlow c r then s.plainScalar steps
    else none

/-- Leaves all blocks at the end of the text. -/
def finish (s : Scanning) : Option (List Token) := do
  let m := s.mark
  -- The text ends as if a line break stood at its end.
  let stop := if m.column = 0 then m else ⟨m.index, m.line + 1, 0⟩
  let s ← { s with cursor := ⟨[], stop⟩ }.leaveBlocks
  return (s.emit .done stop stop).tokens.reverse

/-- Splits off tokens up to the end of the text, none of which takes more than
    `steps` steps. -/
def run (steps : Nat) : Nat → Scanning → Option (List Token)
  | 0, _ => none
  | fuel + 1, s => do
    let s ← s.advance
    if s.cursor.rest.isEmpty then s.finish
    else
      let s ← s.token steps
      run steps fuel s

end Scanning

/-- The tokens of a text; `none` if it cannot be split. -/
def tokens? (text : List Char) : Option (List Token) :=
  if text.all isAllowed then
    let steps := text.length + 1
    Scanning.run steps steps { cursor := ⟨text, .start⟩ }
  else none

end TypedClient.Yaml
