import TypedClient.Yaml.Quoted

/-! # Tags

    A tag says what a value is, in one of three forms: verbatim between angle
    brackets, behind a handle that a directive declares, or local to the
    application.

    * **Escapes**: a percent sign and two digits stand for one byte of a
      character.
-/

namespace TypedClient.Yaml

/-- A tag as it is written. -/
structure WrittenTag where
  /-- The handle; empty where the rest is the whole tag. -/
  handle : List Char
  /-- The rest. -/
  suffix : List Char

namespace Tag

/-- The characters of a tag. Between angle brackets there are some more. -/
def isTagChar (verbatim : Bool) (c : Char) : Bool :=
  isNameChar c || ";/?:@&=+$.%!~*'()".toList.contains c ||
    (verbatim && (c == ',' || c == '[' || c == ']'))

/-- The byte of an escape. -/
def escapedByte? : List Char → Option Nat
  | '%' :: a :: b :: _ => do
    let high ← Digit.value? 16 a
    let low ← Digit.value? 16 b
    return high * 16 + low
  | _ => none

/-- The number of bytes of a character, by its first byte. -/
def byteCount? (byte : Nat) : Option Nat :=
  if byte < 0x80 then some 1
  else if byte < 0xC0 then none
  else if byte < 0xE0 then some 2
  else if byte < 0xF0 then some 3
  else if byte < 0xF8 then some 4
  else none

/-- The number that further bytes of a character add up to. -/
def furtherBytes? : Nat → Nat → List Char → Option Nat
  | 0, value, _ => some value
  | count + 1, value, s => do
    let byte ← escapedByte? s
    if byte / 0x40 = 2 then furtherBytes? count (value * 0x40 + byte % 0x40) (s.drop 3)
    else none

/-- Reads the escapes of a character: the character, and how many there are. -/
def escaped? (s : List Char) : Option (Char × Nat) := do
  let byte ← escapedByte? s
  let count ← byteCount? byte
  let lead :=
    match count with
    | 1 => byte
    | 2 => byte % 0x20
    | 3 => byte % 0x10
    | _ => byte % 8
  let value ← furtherBytes? (count - 1) lead (s.drop 3)
  return (Char.ofNat value, count)

/-- Reads the characters of a tag. -/
def characters (verbatim : Bool) : Nat → Cursor → Option (List Char × Cursor)
  | 0, _ => none
  | fuel + 1, c =>
    match c.rest with
    | [] => some ([], c)
    | d :: _ =>
      if d = '%' then do
        let (decoded, count) ← escaped? c.rest
        let (text, next) ← characters verbatim fuel (c.skipMany (3 * count))
        return (decoded :: text, next)
      else if isTagChar verbatim d then do
        let (text, next) ← characters verbatim fuel c.skip
        return (d :: text, next)
      else some ([], c)

/-- Reads the characters of a tag, of which there has to be one unless some
    were read before; `steps` is more than the length of the rest of the text. -/
def text (steps : Nat) (verbatim : Bool) (before : List Char) (c : Cursor) :
    Option (List Char × Cursor) := do
  let (found, next) ← characters verbatim steps c
  if before.isEmpty && next.mark.index == c.mark.index then none
  else return (before.drop 1 ++ found, next)

/-- Reads a handle, or what looks like the start of one. -/
def handle (c : Cursor) : Option (List Char × Cursor) :=
  match c.rest with
  | '!' :: _ =>
    let (name, c) := c.skip.takeWhile isNameChar
    match c.rest with
    | '!' :: _ => some ('!' :: name ++ ['!'], c.skip)
    | _ => some ('!' :: name, c)
  | _ => none

/-- Whether a text is a handle with something between or two marks. -/
def isHandle (s : List Char) : Bool :=
  2 ≤ s.length && s.getLast? == some '!'

/-- Reads a tag between angle brackets, behind the opening one. -/
def verbatim (steps : Nat) (c : Cursor) : Option (WrittenTag × Cursor) := do
  let (suffix, c) ← text steps true [] c
  match c.rest with
  | '>' :: _ => return (⟨[], suffix⟩, c.skip)
  | _ => none

/-- Reads a tag that does not start with an angle bracket. -/
def shorthand (steps : Nat) (c : Cursor) : Option (WrittenTag × Cursor) := do
  let (start, behind) ← handle c
  if isHandle start then
    let (suffix, c) ← text steps false [] behind
    return (⟨start, suffix⟩, c)
  else
    let (suffix, c) ← text steps false start behind
    return (if suffix.isEmpty then ⟨[], ['!']⟩ else ⟨['!'], suffix⟩, c)

/-- Reads a tag from its exclamation mark. A gap has to follow, or a comma
    inside brackets. -/
def read (steps : Nat) (inFlow : Bool) (c : Cursor) : Option (WrittenTag × Cursor) := do
  let (tag, c) ←
    match c.rest with
    | _ :: '<' :: _ => verbatim steps (c.skipMany 2)
    | _ => shorthand steps c
  if atGap c.rest || (inFlow && c.rest.head? == some ',') then return (tag, c) else none

end Tag

end TypedClient.Yaml
