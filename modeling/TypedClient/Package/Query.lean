import TypedClient.Client.Endpoint
import TypedClient.Package.Expression

/-! # Query strings

    The code that builds the part of a URL behind its question mark, from
    the arguments at the time of the call.

    * **Alone**: a single optional argument that is no list gives one
      condition.
    * **Several** arguments give a list of contributions, those that are
      missing left out; a list argument repeats its key for each item.
-/

namespace TypedClient

namespace Query

/-- A key inside a literal: the backslash and the quote are escaped. -/
def keyChar (c : Char) : List Char :=
  match c with
  | '\\' => ['\\', '\\']
  | '\'' => ['\\', '\'']
  | c => [c]

/-- A key inside a literal. -/
def key (a : Argument) : List Char :=
  a.key.toList.flatMap keyChar

/-- The value of an argument. -/
def value (a : Argument) : Expression :=
  .name a.name.toList

/-- The text of a value. -/
def textOf (e : Expression) : Expression :=
  .call "String".toList e

/-- The text of a value as it may stand in a URL. -/
def encoded (e : Expression) : Expression :=
  .call "encodeURIComponent".toList (textOf e)

/-- What an argument contributes behind its key: its value, or those of its
    items with the key in between. -/
def encodedValue (a : Argument) : Expression :=
  if a.isArray then
    .joinItems (.mapItems (value a) ['v'] (encoded (.name ['v']))) ('&' :: key a ++ ['='])
  else encoded (value a)

/-- Whether an optional argument contributes. -/
def presence (a : Argument) : Expression :=
  .both (.isGiven (value a))
    (if a.isArray then .hasItems (value a) else .differs (textOf (value a)) (.literal []))

/-- The contribution of an argument that is there, behind a lead. -/
def pair (lead : List Char) (a : Argument) : Expression :=
  .append (.literal (lead ++ key a ++ ['='])) (encodedValue a)

/-- The contribution of an argument; none if it is missing. -/
def contribution (a : Argument) : Expression :=
  if a.required then pair [] a else .conditional (presence a) (pair [] a) .null

/-- The name of the list of contributions. -/
def partsName : List Char :=
  "parts".toList

/-- The contributions, joined behind a question mark if there are any. -/
def joined (arguments : List Argument) : Expression :=
  .binding partsName (.onlyTrue (.list (arguments.map contribution)))
    (.conditional (.hasItems (.name partsName))
      (.append (.literal ['?']) (.joinItems (.name partsName) ['&']))
      (.literal []))

/-- The expression for the query string; `none` without arguments. -/
def expression? : List Argument → Option Expression
  | [] => none
  | [only] =>
    -- A single optional value needs no list of contributions.
    if only.required || only.isArray then some (joined [only])
    else some (.conditional (presence only) (pair ['?'] only) (.literal []))
  | arguments => some (joined arguments)

/-- What stands behind the path in the URL template. -/
def suffixChars (arguments : List Argument) : List Char :=
  match expression? arguments with
  | none => []
  | some expression => '$' :: '\x7b' :: expression.chars ++ ['\x7d']

/-- What stands behind the path in the URL template. -/
def suffix (arguments : List Argument) : String :=
  String.ofList (suffixChars arguments)

end Query

end TypedClient
