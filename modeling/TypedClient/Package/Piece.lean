import TypedClient.Text.Blank

/-! # Pieces of a file

    The text of a file in pieces, so that the comments can be told apart from
    the code behind them.
-/

namespace TypedClient

/-- A stretch of code with the comment in front of it. -/
structure Piece where
  comment : List Char := []
  code : List Char

namespace Piece

/-- The text of a piece, with or without its comment. -/
def chars (withoutComments : Bool) (p : Piece) : List Char :=
  (if withoutComments then [] else p.comment) ++ p.code

def concat (withoutComments : Bool) (pieces : List Piece) : List Char :=
  pieces.flatMap (chars withoutComments)

end Piece

/-- The text of a file: no blanks at the end but one line feed. -/
def finished (text : List Char) : String :=
  String.ofList (Text.trimEnd text ++ ['\n'])

end TypedClient
