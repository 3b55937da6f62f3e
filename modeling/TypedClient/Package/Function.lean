import TypedClient.Package.Comment
import TypedClient.Package.Piece
import TypedClient.Package.Query
import TypedClient.Text.Replace
import TypedClient.TypeExpr.Rendering

/-! # Functions of the generated code

    One asynchronous function for each endpoint.

    * **Signatures**: an optional argument in front of a required one cannot
      be left out, so it allows `undefined` instead.
    * **URLs** are templates: the tokens of the path are replaced one argument
      after the other, the query string stands behind.
    * **Bodies** are an argument of their own, except that `get` and `delete`
      take them as part of their configuration.
-/

namespace TypedClient

/-- An argument in a signature. -/
structure SignatureEntry where
  name : String
  type : TypeExpr
  /-- Whether it has to be given. -/
  required : Bool

namespace SignatureEntry

/-- The text of an entry, which depends on what comes behind it. -/
def chars (requiredBehind : Bool) (e : SignatureEntry) : List Char :=
  if e.required then e.name.toList ++ ": ".toList ++ e.type.chars 0
  -- A question mark is not allowed in front of a required argument.
  else if requiredBehind then
    e.name.toList ++ ": ".toList ++ e.type.chars 0 ++ " | undefined".toList
  else e.name.toList ++ "?: ".toList ++ e.type.chars 0

def texts : List SignatureEntry → List (List Char)
  | [] => []
  | e :: rest => e.chars (rest.any (·.required)) :: texts rest

end SignatureEntry

namespace Endpoint

/-- The entries of the signature: the arguments in order, then the body. -/
def entries (e : Endpoint) : List SignatureEntry :=
  e.arguments.map (fun a => ⟨a.name, a.type, a.required⟩)
    ++ (e.body.map (fun b => ⟨b.name, b.type, true⟩)).toList

/-- The signature between its brackets. -/
def signatureChars (e : Endpoint) : List Char :=
  List.intercalate ", ".toList (SignatureEntry.texts e.entries)

/-- The signature between its brackets. -/
def signature (e : Endpoint) : String :=
  String.ofList (e.signatureChars)

/-- A character of a path inside a template. -/
def pathChar (c : Char) : List Char :=
  if c = '`' then ['\\', '`'] else [c]

/-- Puts an argument in the place of its token. -/
def placeArgument (url : List Char) (a : Argument) : List Char :=
  Text.replaceAll ('\x7b' :: a.key.toList ++ ['\x7d'])
    ('$' :: '\x7b' :: a.name.toList ++ ['\x7d']) url

/-- The part of the template for the path. -/
def pathTemplate (e : Endpoint) : List Char :=
  e.pathArguments.foldl placeArgument (e.path.toList.flatMap pathChar)

/-- The template of the URL. -/
def urlChars (e : Endpoint) : List Char :=
  e.pathTemplate ++ Query.suffixChars e.queryArguments

/-- The template of the URL. -/
def url (e : Endpoint) : String :=
  String.ofList e.urlChars

/-- How a body stands among the arguments of the call. -/
def bodyArgument (method : Method) (name : String) : List Char :=
  match method with
  | .get | .delete =>
    if name = "data" then ", \x7b data \x7d".toList
    else ", \x7b data: ".toList ++ name.toList ++ " \x7d".toList
  | _ => ", ".toList ++ name.toList

/-- What stands behind the URL in the call. -/
def callArguments (e : Endpoint) : List Char :=
  match e.body with
  | none => []
  | some body => bodyArgument e.method body.name

/-- The lines of the comment of a function. -/
def docLines (e : Endpoint) : List (List Char) :=
  Text.docLines (e.summary.getD "").toList
    ++ Text.docLines (e.description.getD "").toList
    ++ (if e.deprecated then ["@deprecated".toList] else [])

/-- The code of a function. -/
def functionChars (clientName : String) (e : Endpoint) : List Char :=
  "export async function ".toList ++ e.name.toList ++ '(' :: e.signatureChars
    ++ "): Promise<".toList ++ e.returns.chars 0 ++ "> \x7b\n  const response = await ".toList
    ++ clientName.toList ++ '.' :: e.method.lower.toList ++ "(`".toList ++ e.urlChars ++ ['`']
    ++ e.callArguments ++ ");\n  return response.data;\n\x7d\n".toList

/-- The function of an endpoint. -/
def piece (clientName : String) (e : Endpoint) : Piece :=
  ⟨Comment.block e.docLines, e.functionChars clientName⟩

/-- The functions of endpoints, with an empty line between each two. -/
def pieces (clientName : String) : List Endpoint → List Piece
  | [] => []
  | [e] => [e.piece clientName]
  | e :: next :: rest => e.piece clientName :: ⟨[], ['\n']⟩ :: pieces clientName (next :: rest)

end Endpoint

end TypedClient
