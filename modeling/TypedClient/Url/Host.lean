import TypedClient.Decimal.Text
import TypedClient.Text.Blank
import TypedClient.Text.Percent

/-! # Hosts of URLs

    What may stand between the slashes and the path of a URL.

    * **Addresses** of version six stand in brackets; those of version four are
      told from names by their last part, which looks like a number. Either is
      read into its numbers and written in one usual form.
    * **Names** are decoded before they are judged, and are not empty.
    * **Opaque** hosts, those of schemes that are not special, are judged as
      they are.
-/

namespace TypedClient

/-- Why a text is no URL. -/
inductive UrlError where
  /-- It does not start with a scheme. -/
  | noScheme
  /-- It has no host although it needs one. -/
  | emptyHost
  /-- Its host is no address of version six although it is in brackets. -/
  | badAddress6
  /-- Its host is no address of version four although it looks like one. -/
  | badAddress4
  /-- Its host is no name. -/
  | badName
  /-- Its opaque host holds what no host may. -/
  | badCharacter
  /-- The number behind its host has more than sixteen bits, or is none. -/
  | badNumber
  deriving DecidableEq, Repr

/-- The wording of an error. -/
def UrlError.message : UrlError → String
  | .noScheme => "relative URL without a base"
  | .emptyHost => "empty host"
  | .badAddress6 => "invalid IPv6 address"
  | .badAddress4 => "invalid IPv4 address"
  | .badName => "invalid international domain name"
  | .badCharacter => "invalid domain character"
  | .badNumber => "invalid port number"

namespace Host

/-- The ASCII character that a full-width one stands for. -/
def narrow (c : Char) : Char :=
  if 0xFF01 ≤ c.val && c.val ≤ 0xFF5E then Char.ofNat (c.toNat - 0xFEE0)
  else if c.val == 0x3002 || c.val == 0xFF61 then '.'
  else c

/-- The text of a host name, decoded and in lower case. -/
def decoded? (s : List Char) : Option (List Char) :=
  (String.fromUTF8? ⟨(Text.percentDecode s).toArray⟩).map (fun text =>
    text.toList.map (fun c => (narrow c).toLower))

/-- Characters that no host may hold. -/
def isForbidden (c : Char) : Bool :=
  "\x00\t\n\r #/:<>?@[\\]^|".toList.contains c

/-- Characters that no name may hold. -/
def isForbiddenInName (c : Char) : Bool :=
  isForbidden c || c.val ≤ 0x1F || c == '%' || c == '\x7f'

/-- The number that a part of an address stands for: `none` if it is none, and
    nothing inside if it is too large. -/
def part? (s : List Char) : Option (Option Nat) :=
  let number (base : Nat) (digits : List Char) : Option (Option Nat) :=
    (Digit.number? base digits).map (fun n => if n < Nat.pow 2 32 then some n else none)
  match s with
  | [] => none
  | '0' :: 'x' :: r => number 16 r
  | '0' :: 'X' :: r => number 16 r
  | '0' :: c :: r => number 8 (c :: r)
  | s => number 10 s

/-- The parts of an address; an empty last one does not count. -/
def parts (s : List Char) : List (List Char) :=
  let pieces := Text.cutAt '.' s
  if pieces.getLast? = some [] then pieces.dropLast else pieces

/-- Whether the last part of a host looks like a number. -/
def endsInNumber (s : List Char) : Bool :=
  match (parts s).getLast? with
  | none => false
  | some last => (!last.isEmpty && last.all Char.isDigit) || (part? last).isSome

/-- The number of the address that a host which ends in a number is. All its
    parts but the last stand for one byte each; the last fills up the rest. -/
def address4? (s : List Char) : Option Nat :=
  match (parts s).mapM (fun piece => (part? piece).join) with
  | none => none
  | some numbers =>
    let front := numbers.dropLast
    let last := numbers.getLast?.getD 0
    if numbers.length ≤ 4 && front.all (· ≤ 255)
        && decide (last < Nat.pow 256 (5 - numbers.length)) then
      some (front.zipIdx.foldl (fun value entry =>
        value + entry.1 * Nat.pow 256 (3 - entry.2)) last)
    else none

/-- An address of version four in its usual form: four bytes between dots. -/
def address4Text (address : Nat) : List Char :=
  List.intercalate ['.'] ([3, 2, 1, 0].map (fun place =>
    Decimal.natChars (address / Nat.pow 256 place % 256)))

/-- The value of a piece of an address of version six: up to four hexadecimal
    digits. -/
def piece6? (s : List Char) : Option Nat :=
  if s.isEmpty || 4 < s.length then none
  else Digit.number? 16 s

/-- The two numbers of a dotted piece at the end of an address of version six. -/
def dotted? (s : List Char) : Option (List Nat) :=
  let byte? (piece : List Char) : Option Nat :=
    if piece.isEmpty || 3 < piece.length || (1 < piece.length && piece.head? == some '0') then none
    else (Digit.number? 10 piece).filter (· ≤ 255)
  match (Text.cutAt '.' s).mapM byte? with
  | some [a, b, c, d] => some [a * 256 + b, c * 256 + d]
  | _ => none

/-- The numbers of a run of pieces; a dotted one at the end of the whole address
    stands for two. -/
def numbers6? (atEnd : Bool) : List (List Char) → Option (List Nat)
  | [] => some []
  | [piece] =>
    match piece6? piece with
    | some n => some [n]
    | none => if atEnd then dotted? piece else none
  | piece :: rest =>
    match piece6? piece, numbers6? atEnd rest with
    | some n, some others => some (n :: others)
    | _, _ => none

def pieces6 (s : List Char) : List (List Char) :=
  if s.isEmpty then [] else Text.cutAt ':' s

/-- Cuts an address at its first pair of colons. -/
def cutGap (before : List Char) : List Char → Option (List Char × List Char)
  | ':' :: ':' :: r => some (before.reverse, r)
  | c :: r => cutGap (c :: before) r
  | [] => none

/-- The eight numbers of an address of version six. A pair of colons stands for
    the zeros that are missing, at least one. -/
def address6? (s : List Char) : Option (List Nat) :=
  match cutGap [] s with
  | none => (numbers6? true (pieces6 s)).filter (fun numbers => numbers.length == 8)
  | some (front, back) =>
    match numbers6? false (pieces6 front), numbers6? true (pieces6 back) with
    | some a, some b =>
      if a.length + b.length < 8 then
        some (a ++ List.replicate (8 - a.length - b.length) 0 ++ b)
      else none
    | _, _ => none

/-- Where the first of the longest runs of zeros starts, and its length. -/
def longestZeros : List Nat → Nat × Nat
  | [] => (0, 0)
  | n :: rest =>
    let here := ((n :: rest).takeWhile (· == 0)).length
    let (place, length) := longestZeros rest
    if length ≤ here then (0, here) else (place + 1, length)

/-- An address of version six in its usual form: the longest run of zeros, if
    it is longer than one, is a pair of colons. -/
def address6Text (numbers : List Nat) : List Char :=
  let joined (part : List Nat) : List Char :=
    List.intercalate [':'] (part.map (Digit.hexChars))
  let (place, length) := longestZeros numbers
  if length < 2 then joined numbers
  else joined (numbers.take place) ++ "::".toList ++ joined (numbers.drop (place + length))

/-- Reads what follows an opening bracket, and gives the host in its usual form. -/
def brackets (s : List Char) : Except UrlError (List Char) :=
  if s.getLast? = some ']' then
    match address6? s.dropLast with
    | some numbers => .ok ('[' :: address6Text numbers ++ [']'])
    | none => .error .badAddress6
  else .error .badAddress6

/-- Judges the host of a special scheme, and gives it in its usual form. -/
def special (s : List Char) : Except UrlError (List Char) :=
  match s with
  | [] => .error .emptyHost
  | '[' :: r => brackets r
  | s =>
    match decoded? s with
    | none => .error .badName
    | some name =>
      if name.any isForbiddenInName then .error .badName
      else if name.isEmpty then .error .emptyHost
      -- A name that ends in a number is an address or nothing.
      else if endsInNumber name then
        match address4? name with
        | some address => .ok (address4Text address)
        | none => .error .badAddress4
      else .ok name

/-- Judges the host of any other scheme, and gives it in its usual form. -/
def plain (s : List Char) : Except UrlError (List Char) :=
  match s with
  | '[' :: r => brackets r
  | s => if s.any isForbidden then .error .badCharacter else .ok (Text.percentEncode [] s)

end Host

end TypedClient
