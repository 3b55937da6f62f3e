/-! # String literals of the generated code

    A text between single quotes, on one line: the quote, the backslash and
    the four line terminators are escaped, all else stands for itself.
-/

namespace TypedClient.Text

/-- How a character stands inside a literal. -/
def literalChar (c : Char) : List Char :=
  match c with
  | '\\' => ['\\', '\\']
  | '\'' => ['\\', '\'']
  | '\n' => ['\\', 'n']
  | '\r' => ['\\', 'r']
  | '\u2028' => "\\u2028".toList
  | '\u2029' => "\\u2029".toList
  | c => [c]

/-- A text as a literal. -/
def literalChars (s : List Char) : List Char :=
  '\'' :: s.flatMap literalChar ++ ['\'']

/-- A text as a literal. -/
def literal (s : String) : String :=
  String.ofList (literalChars s.toList)

end TypedClient.Text
