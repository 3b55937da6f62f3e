import TypedClient.Json.Value
import TypedClient.Text.Printable

/-! # Writing JSON

    Two layouts of a value: `compact` without any blanks, and `pretty` with one
    member or item a line, indented by two blanks a level.

    * **Strings** escape the quotation mark, the backslash and the characters
      below the blank, and nothing else.
-/

namespace TypedClient.Json

/-- How a character stands inside a string. -/
def escaped (c : Char) : List Char :=
  match c with
  | '"' => ['\\', '"']
  | '\\' => ['\\', '\\']
  | '\n' => ['\\', 'n']
  | '\r' => ['\\', 'r']
  | '\t' => ['\\', 't']
  | '\x08' => ['\\', 'b']
  | '\x0c' => ['\\', 'f']
  | c =>
    if c.val < 0x20 then
      ['\\', 'u', '0', '0', Digit.lower (c.toNat / 16), Digit.lower (c.toNat % 16)]
    else [c]

/-- A text as a JSON string. -/
def stringChars (s : String) : List Char :=
  '"' :: s.toList.flatMap escaped ++ ['"']

mutual

/-- A value without any blanks. -/
def compactChars : Json → List Char
  | .null => "null".toList
  | .bool true => "true".toList
  | .bool false => "false".toList
  | .number n => n.chars
  | .string s => stringChars s
  | .array items => '[' :: compactItems items ++ [']']
  | .object members => '\x7b' :: compactMembers members ++ ['\x7d']

/-- Items with a comma between each two. -/
def compactItems : List Json → List Char
  | [] => []
  | [item] => compactChars item
  | item :: next :: rest => compactChars item ++ ',' :: compactItems (next :: rest)

/-- Members with a comma between each two. -/
def compactMembers : List (String × Json) → List Char
  | [] => []
  | [(name, value)] => stringChars name ++ ':' :: compactChars value
  | (name, value) :: next :: rest =>
    stringChars name ++ ':' :: compactChars value ++ ',' :: compactMembers (next :: rest)

end

/-- A value without any blanks. -/
def compact (value : Json) : String :=
  String.ofList (compactChars value)

/-- A line break and the indentation of a level. -/
def lineBreak (level : Nat) : List Char :=
  '\n' :: List.replicate (2 * level) ' '

mutual

/-- A value with one item or member a line, starting at an indentation level. -/
def prettyChars (level : Nat) : Json → List Char
  | .null => "null".toList
  | .bool true => "true".toList
  | .bool false => "false".toList
  | .number n => n.chars
  | .string s => stringChars s
  | .array [] => "[]".toList
  | .array (item :: items) =>
    '[' :: prettyItems (level + 1) (item :: items) ++ lineBreak level ++ [']']
  | .object [] => ['\x7b', '\x7d']
  | .object (member :: members) =>
    '\x7b' :: prettyMembers (level + 1) (member :: members) ++ lineBreak level ++ ['\x7d']

/-- Items, each on a line of its own. -/
def prettyItems (level : Nat) : List Json → List Char
  | [] => []
  | [item] => lineBreak level ++ prettyChars level item
  | item :: next :: rest =>
    lineBreak level ++ prettyChars level item ++ ',' :: prettyItems level (next :: rest)

/-- Members, each on a line of its own. -/
def prettyMembers (level : Nat) : List (String × Json) → List Char
  | [] => []
  | [(name, value)] => lineBreak level ++ stringChars name ++ ": ".toList ++ prettyChars level value
  | (name, value) :: next :: rest =>
    lineBreak level ++ stringChars name ++ ": ".toList ++ prettyChars level value
      ++ ',' :: prettyMembers level (next :: rest)

end

/-- A value with one item or member a line. -/
def pretty (value : Json) : String :=
  String.ofList (prettyChars 0 value)

end TypedClient.Json
