import TypedClient.Client.Declaration
import TypedClient.Package.Comment
import TypedClient.Package.Piece
import TypedClient.TypeExpr.Rendering

/-! # Interfaces of the generated code

    One exported interface for each declaration, with an empty line in front.
    A declaration without fields of its own allows any key.
-/

namespace TypedClient

/-- The line of a field, with its comment. -/
def Field.piece (f : Field) : Piece :=
  ⟨Comment.ofField f.description, "  ".toList ++ f.lineChars 1 ++ ['\n']⟩

namespace Declaration

/-- The first line of an interface. -/
def opening (d : Declaration) : List Char :=
  "export interface ".toList ++ d.name.pascal.toList ++ " \x7b\n".toList

/-- The comment of an interface. -/
def comment (d : Declaration) : List Char :=
  Comment.block (Text.docLines (d.description.getD "").toList)

/-- What stands between the braces of an interface. -/
def members (d : Declaration) : List Piece :=
  match d.fields with
  | some fields => fields.map Field.piece
  | none => [⟨[], "  [key: string]: any;\n".toList⟩]

def pieces (d : Declaration) : List Piece :=
  ⟨[], ['\n']⟩ :: ⟨d.comment, d.opening⟩ :: d.members ++ [⟨[], "\x7d\n".toList⟩]

end Declaration

end TypedClient
