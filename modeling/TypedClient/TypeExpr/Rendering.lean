import TypedClient.TypeExpr.Basic
import TypedClient.Name.Identifier
import TypedClient.Text.Literal

/-! # Writing types

    The text of a type:

    * **Brackets** stand around an item type with a `|` or `&` of its own, and
      around a union inside an intersection.
    * **Objects** have one field a line, indented by two blanks a level.
    * **Keys** are bare where they can be, else literals.
-/

namespace TypedClient

/-- A key of an object, bare or as a literal. -/
def keyChars (name : String) : List Char :=
  if Name.isPlain name then name.toList else Text.literalChars name.toList

/-- A key of an object, bare or as a literal. -/
def propertyKey (name : String) : String :=
  String.ofList (keyChars name)

/-- The indentation of a level. -/
def indentation (level : Nat) : List Char :=
  List.replicate (2 * level) ' '

namespace TypeExpr

mutual

/-- The text of a type that starts at an indentation level. -/
def chars (level : Nat) : TypeExpr → List Char
  | .string => "string".toList
  | .number => "number".toList
  | .boolean => "boolean".toList
  | .unknown => "unknown".toList
  | .any => "any".toList
  | .stringLiteral text => Text.literalChars text.toList
  | .literal text => text.toList
  | .ref name => name.toList
  | .array item =>
    -- The brackets of a list bind tighter than `|` and `&`.
    if item.isCompound then '(' :: item.chars level ++ ")[]".toList
    else item.chars level ++ "[]".toList
  | .record value => "Record<string, ".toList ++ value.chars level ++ ['>']
  | .object [] => ['\x7b', '\x7d']
  | .object (field :: fields) =>
    '\x7b' :: '\n' :: fieldsChars (level + 1) (field :: fields) ++ indentation level ++ ['\x7d']
  | .union [] => "never".toList
  | .union (member :: members) => unionChars level (member :: members)
  | .intersection [] => "never".toList
  | .intersection (member :: members) => intersectionChars level (member :: members)

def fieldsChars (level : Nat) : List Field → List Char
  | [] => []
  | { name, type, required, .. } :: rest =>
    indentation level ++ keyChars name ++ (if required then [] else ['?']) ++ ": ".toList
      ++ type.chars level ++ ";\n".toList ++ fieldsChars level rest

/-- The members of a union. -/
def unionChars (level : Nat) : List TypeExpr → List Char
  | [] => []
  | [member] => member.chars level
  | member :: next :: rest =>
    member.chars level ++ " | ".toList ++ unionChars level (next :: rest)

/-- The members of an intersection. -/
def intersectionChars (level : Nat) : List TypeExpr → List Char
  | [] => []
  | [member] =>
    -- `&` binds tighter than `|`.
    if member.isUnion then '(' :: member.chars level ++ [')'] else member.chars level
  | member :: next :: rest =>
    (if member.isUnion then '(' :: member.chars level ++ [')'] else member.chars level)
      ++ " & ".toList ++ intersectionChars level (next :: rest)

end

/-- The text of a type. -/
def render (type : TypeExpr) : String :=
  String.ofList (type.chars 0)

end TypeExpr

/-- The line of a field that stands at an indentation level, without the
    indentation. -/
def Field.lineChars (level : Nat) (f : Field) : List Char :=
  keyChars f.name ++ (if f.required then [] else ['?']) ++ ": ".toList ++ f.type.chars level ++ [';']

/-- The line of a field that stands at an indentation level. -/
def Field.line (level : Nat) (f : Field) : String :=
  String.ofList (f.lineChars level)

end TypedClient
