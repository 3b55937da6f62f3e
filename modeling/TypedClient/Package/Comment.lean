import TypedClient.Text.Blank

/-! # Comments of the generated code

    Texts of the document end up in comments, where they must not end the
    comment: a star and a slash get a backslash between them.
-/

namespace TypedClient.Comment

/-- A text that does not end the comment around it. -/
def safe : List Char → List Char
  | [] => []
  | '*' :: '/' :: r => '*' :: '\\' :: '/' :: safe r
  | c :: r => c :: safe r

/-- A comment of several lines; none at all without lines. -/
def block : List (List Char) → List Char
  | [] => []
  | line :: lines =>
    "/**\n".toList
      ++ (line :: lines).flatMap (fun line => " * ".toList ++ safe line ++ ['\n'])
      ++ " */\n".toList

/-- The comment in front of a field; none at all without text. -/
def ofField (description : Option String) : List Char :=
  match List.intercalate [' '] (Text.docLines ((description.getD "").toList)) with
  | [] => []
  | c :: r => "  /** ".toList ++ safe (c :: r) ++ " */\n".toList

/-- The comment at the start of every file, which names the source. -/
def header (source : String) : List Char :=
  "/**\n * THIS FILE IS AUTOMATICALLY GENERATED FROM: ".toList ++ safe source.toList
    ++ "\n * DO NOT EDIT MANUALLY\n */".toList

end TypedClient.Comment
