import TypedClient.Mismatch

/-! # Places and faults in a JSON text

    * **Places** count lines from one and, inside a line, the bytes before the
      place.
    * **Flaws** are the ways in which a text fails to be JSON.
    * **Faults** are a cause with the place where it shows.
-/

namespace TypedClient.Json

/-- A place in a text: its line, from one, and the number of bytes before it
    in that line. -/
structure Position where
  line : Nat
  /-- The bytes of the line before the place. -/
  column : Nat
  deriving DecidableEq, Repr

/-- The place behind a character. -/
def Position.after (p : Position) (c : Char) : Position :=
  if c = '\n' then ⟨p.line + 1, 0⟩ else ⟨p.line, p.column + c.utf8Size⟩

/-- The place behind the first byte of what follows, if anything follows. -/
def Position.ahead (p : Position) : List Char → Position
  | [] => p
  | c :: _ => if c = '\n' then ⟨p.line + 1, 0⟩ else ⟨p.line, p.column + 1⟩

/-- The place a number of bytes further on, at most the end of the text. -/
def Position.forward (p : Position) : Nat → List Char → Position
  | _, [] => p
  | n, c :: r =>
    if n = 0 then p
    else if c = '\n' then Position.forward (p.after c) (n - 1) r
    else if c.utf8Size ≤ n then Position.forward (p.after c) (n - c.utf8Size) r
    else ⟨p.line, p.column + n⟩

/-- A way to fail to be JSON. -/
inductive Flaw where
  /-- The text ends inside a list. -/
  | endInList
  /-- The text ends inside an object. -/
  | endInObject
  /-- The text ends inside a string. -/
  | endInString
  /-- The text ends where a value is due. -/
  | endInValue
  /-- A name is not followed by a colon. -/
  | colonDue
  /-- An item is followed by neither a comma nor a closing bracket. -/
  | listGoesWrong
  /-- A member is followed by neither a comma nor a closing brace. -/
  | objectGoesWrong
  /-- A word other than the three known ones. -/
  | unknownWord
  | valueDue
  | badEscape
  | badNumber
  /-- A number beyond the doubles. -/
  | hugeNumber
  /-- A raw control character in a string. -/
  | controlCharacter
  /-- A member without a quoted name. -/
  | nameDue
  /-- Half of a surrogate pair. -/
  | loneSurrogate
  /-- A comma before a closing bracket. -/
  | trailingComma
  /-- More text behind the value. -/
  | trailingText
  /-- The first half of a surrogate pair with nothing behind it. -/
  | escapeCutShort
  /-- Too many brackets inside each other. -/
  | tooDeep
  deriving DecidableEq, Repr

/-- The wording of a flaw. -/
def Flaw.message : Flaw → String
  | .endInList => "EOF while parsing a list"
  | .endInObject => "EOF while parsing an object"
  | .endInString => "EOF while parsing a string"
  | .endInValue => "EOF while parsing a value"
  | .colonDue => "expected `:`"
  | .listGoesWrong => "expected `,` or `]`"
  | .objectGoesWrong => "expected `,` or `\x7d`"
  | .unknownWord => "expected ident"
  | .valueDue => "expected value"
  | .badEscape => "invalid escape"
  | .badNumber => "invalid number"
  | .hugeNumber => "number out of range"
  | .controlCharacter => "control character (\\u0000-\\u001F) found while parsing a string"
  | .nameDue => "key must be a string"
  | .loneSurrogate => "lone leading surrogate in hex escape"
  | .trailingComma => "trailing comma"
  | .trailingText => "trailing characters"
  | .escapeCutShort => "unexpected end of hex escape"
  | .tooDeep => "recursion limit exceeded"

/-- Why a text is refused. -/
inductive Cause where
  | flaw (flaw : Flaw)
  /-- It is JSON of another shape. -/
  | mismatch (mismatch : Mismatch)

/-- A flaw and its place. -/
structure Fault where
  flaw : Flaw
  place : Position

/-- The words of JSON for what it finds. -/
def wording : Wording :=
  ⟨"null", Decimal.dataText⟩

/-- Why a text is refused, and where that shows. -/
structure Error where
  cause : Cause
  place : Position

/-- The wording of a cause. -/
def Cause.message : Cause → String
  | .flaw f => f.message
  | .mismatch m => m.message wording

/-- The wording of an error. -/
def Error.message (e : Error) : String :=
  e.cause.message ++ " at line " ++ String.ofList (Decimal.natChars e.place.line)
    ++ " column " ++ String.ofList (Decimal.natChars e.place.column)

end TypedClient.Json
