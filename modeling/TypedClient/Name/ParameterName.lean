import TypedClient.Name.Identifier

/-! # Names of parameters

    A parameter keeps its name as far as an identifier can hold it: `[]` is
    dropped, every other foreign character counts as an underscore, and an
    underscore before a small letter turns into a capital
    (`x-request-id` gives `xRequestId`).
-/

namespace TypedClient.Name

/-- Drops every `[]`, from left to right. -/
def dropBrackets : List Char → List Char
  | [] => []
  | '[' :: ']' :: r => dropBrackets r
  | c :: r => c :: dropBrackets r

/-- Puts an underscore for every character that is no letter, digit or underscore. -/
def underscored (s : List Char) : List Char :=
  s.map (fun c => if c.isAlphanum || c == '_' then c else '_')

/-- Drops the underscores at the end. -/
def dropUnderscoresEnd : List Char → List Char
  | [] => []
  | c :: r =>
    match dropUnderscoresEnd r with
    | [] => if c = '_' then [] else [c]
    | t => c :: t

/-- Drops the underscores at both ends. -/
def trimUnderscores (s : List Char) : List Char :=
  dropUnderscoresEnd (s.dropWhile (· == '_'))

/-- Turns an underscore and the small letter behind it into a capital. -/
def contract : List Char → List Char
  | [] => []
  | [c] => [c]
  | c :: d :: r =>
    if c = '_' ∧ d.isLower = true then d.toUpper :: contract r
    else c :: contract (d :: r)

/-- Puts an underscore before a name that could not stand as it is. -/
def guardName : List Char → List Char
  | [] => "param".toList
  | c :: r => if c.isDigit || isReserved (c :: r) then '_' :: c :: r else c :: r

/-- The identifier of a parameter, as characters. -/
def parameterChars (s : List Char) : List Char :=
  guardName (contract (trimUnderscores (underscored (dropBrackets s))))

/-- The identifier of a parameter: `filter[name]` gives `filterName`. -/
def parameterName (s : String) : String :=
  String.ofList (parameterChars s.toList)

end TypedClient.Name
