/-! # Tokens of a URL path

    A token is a text without braces between two braces, as `id` in
    `/players/{id}`. Tokens are listed in the order of their first occurrence.
-/

namespace TypedClient.Name

/-- Whether a character is one of the two braces. -/
def isBrace (c : Char) : Bool :=
  c == '\x7b' || c == '\x7d'

/-- Reads a token from behind its opening brace: the text up to the closing one. -/
def tokenBehind (s : List Char) : Option (List Char) :=
  match s.takeWhile (fun c => !isBrace c), s.dropWhile (fun c => !isBrace c) with
  | c :: token, '\x7d' :: _ => some (c :: token)
  | _, _ => none

/-- Every token of a path, repeats included. -/
def tokenOccurrences : List Char → List (List Char)
  | [] => []
  | c :: r =>
    if c = '\x7b' then
      match tokenBehind r with
      | some token => token :: tokenOccurrences r
      | none => tokenOccurrences r
    else tokenOccurrences r

/-- Keeps the first of equal elements. -/
def distinct {α : Type} [DecidableEq α] : List α → List α
  | [] => []
  | a :: r => a :: (distinct r).filter (fun b => b ≠ a)

/-- The tokens of a path, as characters. -/
def pathTokenChars (path : List Char) : List (List Char) :=
  distinct (tokenOccurrences path)

/-- The tokens of a path, in order and without repeats. -/
def pathTokens (path : String) : List String :=
  (pathTokenChars path.toList).map String.ofList

end TypedClient.Name
