import TypedClient.Decimal.Text
import TypedClient.Url.Host

/-! # URLs

    A URL is read far enough to know whether a request can be made for it, and
    how it is written when it cannot.

    * **Around it**, blanks and controls are dropped; tabs and line breaks are
      dropped everywhere.
    * **Special** schemes have a host behind any number of slashes, in which a
      backslash counts as a slash. Other schemes have one behind two slashes.
    * **The rest** is a path without dot segments, a query and a fragment;
      where there is neither a host nor a slash, it is kept as it is.
-/

namespace TypedClient

/-- A URL, as far as it matters. -/
structure Url where
  /-- The scheme, in lower case. -/
  scheme : String
  /-- The whole text in its usual form. -/
  text : String
  deriving DecidableEq, Repr

namespace Url

/-- The characters of a URL that count. -/
def relevant (s : String) : List Char :=
  let outer (c : Char) : Bool := c.val ≤ 0x20
  (((s.toList.dropWhile outer).reverse.dropWhile outer).reverse).filter
    (fun c => c != '\t' && c != '\n' && c != '\r')

/-- Whether a character may stand in a scheme. -/
def isSchemeChar (c : Char) : Bool :=
  c.isAlphanum || c == '+' || c == '-' || c == '.'

/-- The scheme in front of the first colon, in lower case, and the rest. -/
def cutScheme? (s : List Char) : Option (List Char × List Char) :=
  match s.takeWhile isSchemeChar, s.dropWhile isSchemeChar with
  | c :: name, ':' :: rest =>
    if c.isAlpha then some ((c :: name).map Char.toLower, rest) else none
  | _, _ => none

/-- The schemes that always have a host, with their usual numbers. -/
def special : List (String × Nat) :=
  [("http", 80), ("https", 443), ("ws", 80), ("wss", 443), ("ftp", 21)]

/-- Whether a character ends a host. -/
def endsHost (isSpecial : Bool) (c : Char) : Bool :=
  c == '/' || c == '?' || c == '#' || (isSpecial && c == '\\')

/-- The characters that are encoded in a path, besides controls. -/
def encodedInPath : List Char :=
  " \"<>\x60#?\x7b\x7d".toList

/-- The characters that are encoded in a query, besides controls. -/
def encodedInQuery (isSpecial : Bool) : List Char :=
  if isSpecial then " \"#<>'".toList else " \"#<>".toList

/-- The characters that are encoded in a fragment, besides controls. -/
def encodedInFragment : List Char :=
  " \"<>\x60".toList

/-- Whether a segment of a path stands for its folder. -/
def isDot (s : List Char) : Bool :=
  [".", "%2e"].contains (String.ofList (s.map Char.toLower))

/-- Whether a segment of a path stands for the folder around its folder. -/
def isDoubleDot (s : List Char) : Bool :=
  ["..", ".%2e", "%2e.", "%2e%2e"].contains (String.ofList (s.map Char.toLower))

/-- The segments of a path without dot segments; `done` holds those before
    them, last first. -/
def withoutDots (done : List (List Char)) : List (List Char) → List (List Char)
  | [] => done.reverse
  | [last] =>
    if isDoubleDot last then ([] :: done.drop 1).reverse
    else if isDot last then ([] :: done).reverse
    else (last :: done).reverse
  | segment :: rest =>
    if isDoubleDot segment then withoutDots (done.drop 1) rest
    else if isDot segment then withoutDots done rest
    else withoutDots (segment :: done) rest

/-- A path that starts with a slash, in its usual form. -/
def pathText (isSpecial : Bool) (s : List Char) : List Char :=
  let slashes := if isSpecial then s.map (fun c => if c = '\\' then '/' else c) else s
  (withoutDots [] (Text.cutAt '/' slashes)).flatMap (fun segment =>
    '/' :: Text.percentEncode encodedInPath segment)

/-- The query and the fragment behind a path. -/
def tailText (isSpecial : Bool) (s : List Char) : List Char :=
  let beforeFragment := s.takeWhile (· != '#')
  let query :=
    match beforeFragment with
    | '?' :: r => '?' :: Text.percentEncode (encodedInQuery isSpecial) r
    | _ => []
  let fragment :=
    match s.dropWhile (· != '#') with
    | '#' :: r => '#' :: Text.percentEncode encodedInFragment r
    | _ => []
  query ++ fragment

/-- Whether a character ends a path. -/
def endsPath (c : Char) : Bool :=
  c == '?' || c == '#'

def restText (isSpecial : Bool) (s : List Char) : List Char :=
  let path :=
    match s.takeWhile (fun c => !endsPath c) with
    | [] => if isSpecial then ['/'] else []
    | c :: r => if endsHost isSpecial c then pathText isSpecial r else pathText isSpecial (c :: r)
  path ++ tailText isSpecial (s.dropWhile (fun c => !endsPath c))

/-- The host of a text, and what follows it. Colons in brackets belong to the
    host. -/
def cutHost (isSpecial inBrackets : Bool) : List Char → List Char × List Char
  | [] => ([], [])
  | c :: r =>
    if endsHost isSpecial c || (c == ':' && !inBrackets) then ([], c :: r)
    else
      let inside := if c = '[' then true else if c = ']' then false else inBrackets
      let (host, rest) := cutHost isSpecial inside r
      (c :: host, rest)

/-- The number behind a host and what follows it. -/
def cutNumber (s : List Char) : Except UrlError (Option Nat × List Char) :=
  let digits := s.takeWhile Char.isDigit
  let rest := s.dropWhile Char.isDigit
  let value := (Digit.number? 10 digits).getD 0
  -- Whatever follows the digits has to end the host too.
  if 65535 < value then .error .badNumber
  else if rest.head?.all (endsHost true) then
    .ok (if digits.isEmpty then none else some value, rest)
  else .error .badNumber

/-- What is said about the user in front of a host, and what follows it. -/
def cutUser (isSpecial : Bool) (s : List Char) : Option (List Char) × List Char :=
  let authority := s.takeWhile (fun c => !endsHost isSpecial c)
  let rest := s.dropWhile (fun c => !endsHost isSpecial c)
  match authority.reverse.dropWhile (· != '@') with
  | [] => (none, s)
  | _ :: user =>
    (some user.reverse, (authority.reverse.takeWhile (· != '@')).reverse ++ rest)

/-- What is behind the slashes in front of a host, in its usual form. The user
    goes into a header of the request and is not shown. -/
def authorityText (isSpecial : Bool) (usualNumber : Option Nat) (s : List Char) :
    Except UrlError (List Char) := do
  let (user, afterUser) := cutUser isSpecial s
  let (hostChars, afterHost) := cutHost isSpecial false afterUser
  let host ← if isSpecial then Host.special hostChars else Host.plain hostChars
  let (number, rest) ←
    match afterHost with
    | ':' :: r => if host.isEmpty then .error .emptyHost else cutNumber r
    | r => .ok (none, r)
  if host.isEmpty ∧ user.any (fun u => !u.isEmpty) then .error .emptyHost
  else
    let numberText :=
      match number with
      | some p => if usualNumber = some p then [] else ':' :: Decimal.natChars p
      | none => []
    return host ++ numberText ++ restText isSpecial rest

/-- Whether a text is the letter of a drive. -/
def isDrive (s : List Char) : Bool :=
  match s with
  | [c, d] => c.isAlpha && (d == ':' || d == '|')
  | _ => false

/-- The URL of a file, behind its scheme. -/
def fileText (s : List Char) : Except UrlError (List Char) :=
  match s with
  | a :: b :: r =>
    if endsHost true a && endsHost true b && !endsPath a && !endsPath b then do
      let hostChars := r.takeWhile (fun c => !endsHost true c)
      let rest := r.dropWhile (fun c => !endsHost true c)
      -- The letter of a drive belongs to the path.
      if isDrive hostChars then return "//".toList ++ restText true r
      else if hostChars.isEmpty then return "//".toList ++ restText true rest
      else
        let host ← Host.special hostChars
        let shown := if host = "localhost".toList then [] else host
        return "//".toList ++ shown ++ restText true rest
    else return "//".toList ++ restText true s
  | s => return "//".toList ++ restText true s

/-- A text in which there is neither a host nor a slash. -/
def opaqueText (s : List Char) : List Char :=
  Text.percentEncode [] (s.takeWhile (fun c => !endsPath c))
    ++ tailText false (s.dropWhile (fun c => !endsPath c))

/-- What is behind a scheme, in its usual form. -/
def schemeText (scheme : String) (s : List Char) : Except UrlError (List Char) :=
  if scheme = "file" then fileText s
  else
    match special.lookup scheme with
    | some usual => do
      let inside := s.dropWhile (fun c => c == '/' || c == '\\')
      return "//".toList ++ (← authorityText true (some usual) inside)
    | none =>
      match s with
      | '/' :: '/' :: r => do return "//".toList ++ (← authorityText false none r)
      | '/' :: r => return restText false ('/' :: r)
      | r => return opaqueText r

def read (s : String) : Except UrlError Url :=
  match cutScheme? (relevant s) with
  | none => .error .noScheme
  | some (schemeChars, rest) => do
    let scheme := String.ofList schemeChars
    let behind ← schemeText scheme rest
    return ⟨scheme, scheme ++ ":" ++ String.ofList behind⟩

/-- Whether a request can be made for a URL. -/
def isRequestable (u : Url) : Bool :=
  u.scheme == "http" || u.scheme == "https"

end Url

end TypedClient
