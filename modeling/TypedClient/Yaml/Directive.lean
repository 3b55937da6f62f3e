import TypedClient.Yaml.Token

/-! # Directives

    Lines that start with a percent sign: the version of the language, and
    handles for tags.
-/

namespace TypedClient.Yaml.Directive

/-- Reads a part of a version, of at most nine digits. -/
def number (c : Cursor) : Option (Nat × Cursor) :=
  let (digits, next) := c.takeWhile Char.isDigit
  if digits.isEmpty || 9 < digits.length then none
  else some ((Digit.number? 10 digits).getD 0, next)

def version (c : Cursor) : Option (TokenKind × Cursor) := do
  let (major, c) ← number (c.skipWhile isBlank)
  match c.rest with
  | '.' :: _ =>
    let (minor, c) ← number c.skip
    return (.version major minor, c)
  | _ => none

/-- Reads a handle and what it stands for; `steps` is more than the length of
    the rest of the text. -/
def handle (steps : Nat) (c : Cursor) : Option (TokenKind × Cursor) := do
  let (name, c) ← Tag.handle (c.skipWhile isBlank)
  if name.length = 1 || Tag.isHandle name then
    match c.rest with
    | d :: _ =>
      if isBlank d then
        let (target, c) ← Tag.text steps true [] (c.skipWhile isBlank)
        if atGap c.rest then return (.handle name target, c) else none
      else none
    | [] => none
  else none

/-- Reads a directive from its percent sign to the end of its line. -/
def read (steps : Nat) (c : Cursor) : Option (TokenKind × Cursor) := do
  let (name, c) := c.skip.takeWhile isNameChar
  if !atGap c.rest then none
  else
    let (kind, c) ←
      if name = "YAML".toList then version c
      else if name = "TAG".toList then handle steps c
      else none
    let c ← c.endLine?
    return (kind, c)

end TypedClient.Yaml.Directive
