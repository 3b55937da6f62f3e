import TypedClient.Json.Value
import TypedClient.Text.Printable
import TypedClient.Yaml.Resolution

/-! # Writing YAML

    A value in block style, one item or member a line. Members are indented by
    two blanks a level, items stand right under the key of their list, and what
    is empty is written in flow style.

    * **Styles**: a text is written plainly where it can be, between single
      quotes where it would be read as something else, and between double
      quotes where it holds what cannot be shown. A text of several lines is
      written as a literal.
    * **Literals** say how they are indented when they start with a blank, and
      what becomes of the line breaks at their end.
    * **Keys** are never written as literals.
-/

namespace TypedClient.Yaml

/-- A style that a text can be written in. -/
inductive WrittenStyle where
  /-- As it is. -/
  | plain
  /-- Between single quotes. -/
  | single
  /-- Between double quotes, with escapes. -/
  | double
  /-- As lines behind a bar. -/
  | literal
  deriving DecidableEq, Repr

namespace Writing

/-- Whether a character can be shown. -/
def isShown (c : Char) : Bool :=
  c == '\n' || (0x20 ≤ c.val && c.val ≤ 0x7E) ||
    (0xA0 ≤ c.val && c.val != 0xFEFF && c.val != 0xFFFE && c.val != 0xFFFF)

/-- Whether a character ends a line. -/
def endsLine (c : Char) : Bool :=
  c == '\n' || c == '\r' || c == '\u0085' || c == '\u2028' || c == '\u2029'

/-- Whether a character separates words. -/
def isGap (c : Char) : Bool :=
  c == ' ' || c == '\t' || c == '\x00' || endsLine c

/-- Whether a word ends in front of a text. -/
def isWordEnd : List Char → Bool
  | [] => true
  | c :: _ => isGap c

/-- The characters that mean something else at the start of a text. -/
def indicators : List Char :=
  "#,[]\x7b\x7d&*!|>'\"%@\x60".toList

/-- Whether a character that starts a text means something else. -/
def misleadsFirst (c : Char) (rest : List Char) : Bool :=
  indicators.contains c || ((c == '?' || c == ':' || c == '-') && isWordEnd rest)

/-- Whether a character inside a text means something else. -/
def misleads (before c : Char) (rest : List Char) : Bool :=
  (c == ':' && isWordEnd rest) || (c == '#' && isGap before)

/-- Whether a character behind the first one means something else. -/
def hasMisleading (before : Char) : List Char → Bool
  | [] => false
  | c :: r => misleads before c r || hasMisleading c r

/-- Whether a text looks like a part of the document around it. -/
def looksStructural (s : List Char) : Bool :=
  match s with
  | [] => false
  | c :: r =>
    "---".toList.isPrefixOf s || "...".toList.isPrefixOf s || misleadsFirst c r ||
      hasMisleading c r

/-- Whether two characters stand side by side that fulfil two conditions. -/
def hasPair (first second : Char → Bool) : List Char → Bool
  | a :: b :: r => (first a && second b) || hasPair first second (b :: r)
  | _ => false

/-- Whether a character is a blank. -/
def isSpace (c : Char) : Bool :=
  c == ' '

/-- Whether a text starts with a character of a kind. -/
def startsWith (kind : Char → Bool) (s : List Char) : Bool :=
  s.head?.any kind

/-- Whether a text ends with a character of a kind. -/
def endsWith (kind : Char → Bool) (s : List Char) : Bool :=
  s.getLast?.any kind

/-- Whether a text holds what only double quotes can hold. -/
def needsEscapes (s : List Char) : Bool :=
  s.any (fun c => !isShown c) || hasPair isSpace endsLine s

/-- Whether single quotes can hold a text. -/
def singleAllowed (s : List Char) : Bool :=
  !needsEscapes s && !hasPair endsLine isSpace s

/-- Whether a literal can hold a text. -/
def literalAllowed (s : List Char) : Bool :=
  !s.isEmpty && !needsEscapes s && !endsWith isSpace s

/-- Whether a text can be written as it is. -/
def plainAllowed (s : List Char) : Bool :=
  !needsEscapes s && !s.any endsLine && !startsWith isSpace s && !endsWith isSpace s &&
    !looksStructural s

/-- Whether a text would be read as something else. -/
def isAmbiguous (s : List Char) : Bool :=
  match Resolve.plain s with
  | .text => Resolve.hasLeadingZero s
  | _ => true

/-- The style of a text that has no line feed. -/
def lineStyle (s : List Char) : WrittenStyle :=
  if !isAmbiguous s && plainAllowed s then .plain
  else if singleAllowed s then .single
  else .double

/-- The style of a value. -/
def valueStyle (s : List Char) : WrittenStyle :=
  if s.contains '\n' then (if literalAllowed s then .literal else .double) else lineStyle s

/-- The style of a key. -/
def keyStyle (s : List Char) : WrittenStyle :=
  if s.any endsLine then .double else lineStyle s

def blanks (n : Nat) : List Char :=
  List.replicate n ' '

/-- Characters between single quotes. Lines are indented. -/
def singleChars (indent : Nat) (afterBreak : Bool) : List Char → List Char
  | [] => if afterBreak then blanks indent else []
  | c :: r =>
    if endsLine c then c :: singleChars indent true r
    else
      (if afterBreak then blanks indent else []) ++ (if c = '\'' then ['\'', '\''] else [c])
        ++ singleChars indent false r

/-- The digits of a number in base sixteen, at least as many as asked for. -/
def hexChars (value : Nat) : Nat → List Char
  | 0 => []
  | width + 1 => hexChars (value / 16) width ++ [(Digit.lower (value % 16)).toUpper]

/-- How a character stands between double quotes. -/
def escaped (c : Char) : List Char :=
  match c with
  | '\x00' => ['\\', '0']
  | '\x07' => ['\\', 'a']
  | '\x08' => ['\\', 'b']
  | '\t' => ['\\', 't']
  | '\n' => ['\\', 'n']
  | '\x0b' => ['\\', 'v']
  | '\x0c' => ['\\', 'f']
  | '\r' => ['\\', 'r']
  | '\x1b' => ['\\', 'e']
  | '"' => ['\\', '"']
  | '\\' => ['\\', '\\']
  | '\u0085' => ['\\', 'N']
  | '\u2028' => ['\\', 'L']
  | '\u2029' => ['\\', 'P']
  | c =>
    if isShown c then [c]
    else if c.val ≤ 0xFF then ['\\', 'x'] ++ hexChars c.toNat 2
    else ['\\', 'u'] ++ hexChars c.toNat 4

/-- The lines of a literal, each indented unless it is empty. -/
def literalLines (indent : Nat) (afterBreak : Bool) : List Char → List Char
  | [] => if afterBreak then [] else ['\n']
  | c :: r =>
    if endsLine c then c :: literalLines indent true r
    else (if afterBreak then blanks indent else []) ++ c :: literalLines indent false r

/-- What a literal says about its indentation. -/
def indentationHint (s : List Char) : List Char :=
  if startsWith (fun c => isSpace c || endsLine c) s then ['2'] else []

/-- What a literal says about the line breaks at its end: that there is none,
    or that there are several, or that there is nothing else. -/
def endingHint (s : List Char) : List Char :=
  match s.reverse with
  | [] => ['-']
  | [c] => if endsLine c then ['+'] else ['-']
  | c :: d :: _ => if !endsLine c then ['-'] else if endsLine d then ['+'] else []

/-- A text in a style, with the end of its last line. -/
def styled (indent : Nat) (s : List Char) : WrittenStyle → List Char
  | .plain => s ++ ['\n']
  | .single => '\'' :: singleChars indent false s ++ ['\'', '\n']
  | .double => '"' :: s.flatMap escaped ++ ['"', '\n']
  | .literal => '|' :: indentationHint s ++ endingHint s ++ '\n' :: literalLines indent true s

/-- A key in its style. -/
def keyChars (s : String) : List Char :=
  (styled 0 s.toList (keyStyle s.toList)).dropLast

mutual

/-- A value behind the mark of an item, in a list at a level of indentation. -/
def itemChars (level : Nat) : Json → List Char
  | .array (item :: items) =>
    '-' :: ' ' :: itemChars (level + 2) item ++ itemsChars (level + 2) items
  | .object ((key, value) :: members) =>
    keyChars key ++ ':' :: memberChars (level + 2) value ++ membersChars (level + 2) members
  | value => leafChars (level + 2) value

/-- A value behind a key, in a map at a level of indentation. -/
def memberChars (level : Nat) : Json → List Char
  | .array (item :: items) => '\n' :: itemsChars level (item :: items)
  | .object (member :: members) => '\n' :: membersChars (level + 2) (member :: members)
  | value => ' ' :: leafChars (level + 2) value

/-- Items, each on a line of its own. -/
def itemsChars (level : Nat) : List Json → List Char
  | [] => []
  | item :: items =>
    blanks level ++ '-' :: ' ' :: itemChars level item ++ itemsChars level items

/-- Members, each on a line of its own. -/
def membersChars (level : Nat) : List (String × Json) → List Char
  | [] => []
  | (key, value) :: members =>
    blanks level ++ keyChars key ++ ':' :: memberChars level value ++ membersChars level members

/-- A value without parts, and the end of its line. -/
def leafChars (indent : Nat) : Json → List Char
  | .null => "null\n".toList
  | .bool true => "true\n".toList
  | .bool false => "false\n".toList
  | .number n => n.chars ++ ['\n']
  | .string s => styled indent s.toList (valueStyle s.toList)
  | .array _ => "[]\n".toList
  | .object _ => "\x7b\x7d\n".toList

end

def valueChars : Json → List Char
  | .array (item :: items) => itemsChars 0 (item :: items)
  | .object (member :: members) => membersChars 0 (member :: members)
  | value => leafChars 2 value

end Writing

/-- A value as a YAML text. -/
def print (value : Json) : String :=
  String.ofList (Writing.valueChars value)

end TypedClient.Yaml
