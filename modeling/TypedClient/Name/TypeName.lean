import TypedClient.Name.Identifier

/-! # Names of types and functions

    A name from a document becomes a type name by cutting it into words and
    capitalizing each one:

    * **Words** are the runs of ASCII letters and digits, cut once more where
      an upper-case letter follows a lower-case letter or a digit.
    * **Two passes**: a word of one letter is glued to the capital after it
      (`a_b` gives `AB`), so the pass is applied twice; after that it changes
      nothing any more.
    * **Function names** are type names with a small first letter.
-/

namespace TypedClient.Name

/-- Where a pass over a name stands: between words, or inside one behind a
    character after which a capital does, or does not, start a new word. -/
inductive Boundary where
  | between
  /-- The last character is a lower-case letter or a digit. -/
  | afterSmall
  /-- The last character is an upper-case letter. -/
  | afterCapital
  deriving DecidableEq, Repr

/-- Where a pass stands behind a letter or digit. -/
def Boundary.after (c : Char) : Boundary :=
  if c.isUpper then .afterCapital else .afterSmall

/-- Capitalizes every word of a name and drops what lies between words. -/
def capitalizeWords : Boundary → List Char → List Char
  | _, [] => []
  | state, c :: r =>
    if c.isAlphanum then
      let opens := state == .between || (state == .afterSmall && c.isUpper)
      (if opens then c.toUpper else c.toLower) :: capitalizeWords (.after c) r
    else capitalizeWords .between r

/-- One pass over a whole name. -/
def pascalPass (s : List Char) : List Char :=
  capitalizeWords .between s

/-- The type name of a text, as characters. A text without letters and digits
    is `Unnamed`; a leading digit is kept behind an underscore. -/
def typeChars (s : List Char) : List Char :=
  match pascalPass (pascalPass s) with
  | [] => "Unnamed".toList
  | c :: r => if c.isDigit then '_' :: c :: r else c :: r

/-- Makes the first letter small. -/
def decapitalize : List Char → List Char
  | [] => []
  | c :: r => c.toLower :: r

/-- The type name of a text: `player_stats` gives `PlayerStats`. -/
def typeName (s : String) : String :=
  String.ofList (typeChars s.toList)

/-- The function name of a text: `get_/players/{id}` gives `getPlayersId`. -/
def functionName (s : String) : String :=
  String.ofList (decapitalize (typeChars s.toList))

/-- A name of a document together with the type name it gets. -/
structure Normalized where
  /-- The name as written in the document. -/
  given : String
  pascal : String
  deriving DecidableEq, Repr

/-- Pairs a name with its type name. -/
def normalize (s : String) : Normalized :=
  ⟨s, typeName s⟩

end TypedClient.Name
