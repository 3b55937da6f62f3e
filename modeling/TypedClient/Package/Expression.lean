import TypedClient.Text.Blank

/-! # Expressions of the generated code

    The few forms of expressions that query strings are built with, as trees,
    and how they are written.

    * **Literals** hold their text as it stands between the single quotes.
    * **No brackets** are written: the forms are only nested where the
      language reads them back in the same way.
-/

namespace TypedClient

/-- An expression of the generated code. -/
inductive Expression where
  | null
  /-- A text, as it stands between single quotes. -/
  | literal (body : List Char)
  /-- The value of a name. -/
  | name (text : List Char)
  /-- A function of one argument, applied. -/
  | call (function : List Char) (argument : Expression)
  /-- One of two values, by a test. -/
  | conditional (test whenTrue whenFalse : Expression)
  | both (left right : Expression)
  /-- Whether there is a value. -/
  | isGiven (operand : Expression)
  | differs (left right : Expression)
  /-- Whether a list has items. -/
  | hasItems (operand : Expression)
  /-- Two texts behind each other. -/
  | append (left right : Expression)
  | list (items : List Expression)
  /-- The list of what each item is turned into, the item being called `bound`. -/
  | mapItems (operand : Expression) (bound : List Char) (body : Expression)
  /-- The items that count as true. -/
  | onlyTrue (operand : Expression)
  /-- The items in one text, with a literal between each two. -/
  | joinItems (operand : Expression) (separator : List Char)
  /-- The value of an expression in which a name has a given value. -/
  | binding (bound : List Char) (value body : Expression)

namespace Expression

mutual

/-- The text of an expression. -/
def chars : Expression → List Char
  | .null => "null".toList
  | .literal body => '\'' :: body ++ ['\'']
  | .name text => text
  | .call function argument => function ++ '(' :: argument.chars ++ [')']
  | .conditional test whenTrue whenFalse =>
    test.chars ++ " ? ".toList ++ whenTrue.chars ++ " : ".toList ++ whenFalse.chars
  | .both left right => left.chars ++ " && ".toList ++ right.chars
  | .isGiven operand => operand.chars ++ " != null".toList
  | .differs left right => left.chars ++ " !== ".toList ++ right.chars
  | .hasItems operand => operand.chars ++ ".length > 0".toList
  | .append left right => left.chars ++ " + ".toList ++ right.chars
  | .list items => '[' :: listChars items ++ [']']
  | .mapItems operand bound body =>
    operand.chars ++ ".map((".toList ++ bound ++ ") => ".toList ++ body.chars ++ [')']
  | .onlyTrue operand => operand.chars ++ ".filter(Boolean)".toList
  | .joinItems operand separator => operand.chars ++ ".join('".toList ++ separator ++ "')".toList
  | .binding bound value body =>
    "(() => \x7b const ".toList ++ bound ++ " = ".toList ++ value.chars ++ "; return ".toList
      ++ body.chars ++ "; \x7d)()".toList

/-- The texts of the items of a list, with commas between them. -/
def listChars : List Expression → List Char
  | [] => []
  | [item] => item.chars
  | item :: next :: rest => item.chars ++ ", ".toList ++ listChars (next :: rest)

end

end Expression

end TypedClient
