import TypedClient.Mismatch
import TypedClient.Yaml.Node

/-! # Values of scalars

    What a scalar stands for, where the reader does not ask for a text.

    * **Plain scalars** are read by their looks: a null, a truth value, an
      integer in one of four bases, a double, or else a text.
    * **Leading zeros** make a text of digits.
    * **Tags** of the language force a kind; a text that cannot be of that kind
      is a mistake. Other tags make a text, except local ones, which leave a
      plain scalar as it is.
-/

namespace TypedClient.Yaml

/-- The value of a scalar. -/
inductive ScalarValue where
  /-- A null. -/
  | null
  /-- A truth value. -/
  | bool (value : Bool)
  /-- An integer below `2^64` without a minus. -/
  | natural (value : Nat)
  /-- An integer from `-2^63` on with a minus. -/
  | signed (value : Int)
  /-- Any other integer of at most 128 bits, with the name of its kind. -/
  | wide (value : Int) (width : String)
  /-- A double. -/
  | float (value : Float)
  /-- A text. -/
  | text

namespace Resolve

/-- Whether a text is a null. -/
def isNull (s : List Char) : Bool :=
  s == "null".toList || s == "Null".toList || s == "NULL".toList || s == ['~']

/-- The truth value of a text. -/
def bool? (s : List Char) : Option Bool :=
  if s == "true".toList || s == "True".toList || s == "TRUE".toList then some true
  else if s == "false".toList || s == "False".toList || s == "FALSE".toList then some false
  else none

/-- Whether a text is a sign. -/
def isSign (c : Char) : Bool :=
  c == '+' || c == '-'

def dropSign (s : List Char) : List Char :=
  match s with
  | c :: r => if isSign c then r else c :: r
  | [] => []

/-- Whether a text has digits only, a zero in front, and more than that. -/
def hasLeadingZero (s : List Char) : Bool :=
  match dropSign s with
  | '0' :: d :: r => (d :: r).all Char.isDigit
  | _ => false

/-- The value of digits in a base; there has to be one. -/
def digits? (base : Nat) (s : List Char) : Option Nat :=
  if s.isEmpty then none
  else Digit.number? base s

/-- The base that a lead stands for, and what follows it. -/
def base? : List Char → Option (Nat × List Char)
  | '0' :: 'x' :: r => some (16, r)
  | '0' :: 'o' :: r => some (8, r)
  | '0' :: 'b' :: r => some (2, r)
  | _ => none

/-- The size of an integer without its sign. -/
def magnitude? (s : List Char) : Option Nat :=
  match base? s with
  | some (base, r) => digits? base r
  | none => if hasLeadingZero s then none else digits? 10 s

/-- The integer of a text: whether it has a minus, and its size. -/
def integer? (s : List Char) : Option (Bool × Nat) :=
  match s with
  | '-' :: r => (magnitude? r).map (fun size => (true, size))
  | '+' :: r => (magnitude? r).map (fun size => (false, size))
  | _ => (magnitude? s).map (fun size => (false, size))

/-- The value of an integer, unless it has too many bits. -/
def integerValue? (negative : Bool) (size : Nat) : Option ScalarValue :=
  if negative then
    if size ≤ Nat.pow 2 63 then some (.signed (-(size : Int)))
    else if size ≤ Nat.pow 2 127 then some (.wide (-(size : Int)) "i128")
    else none
  else if size < Nat.pow 2 64 then some (.natural size)
  else if size < Nat.pow 2 128 then some (.wide size "u128")
  else none

/-- The double of digits and a power of ten, unless it is too large. -/
def assemble? (digits : List Char) (power : Int) : Option Float :=
  let significant := digits.dropWhile (· == '0')
  let point := (significant.length : Int) + power
  match digits? 10 significant with
  | none => some 0.0
  | some value =>
    -- Powers far beyond the doubles are decided without being computed.
    if 310 < point then none
    else if point < -330 then some 0.0
    else
      let x := Float.ofScientific value (power < 0) power.natAbs
      if x.isFinite then some x else none

/-- The exponent of a decimal, and whether there is nothing behind it. -/
def exponent? : List Char → Option Int
  | [] => some 0
  | c :: r =>
    if c = 'e' ∨ c = 'E' then
      match r with
      | '-' :: r => (digits? 10 r).map (fun value => -(value : Int))
      | '+' :: r => (digits? 10 r).map (fun value => (value : Int))
      | r => (digits? 10 r).map (fun value => (value : Int))
    else none

/-- The double of a decimal without a sign. -/
def decimal? (s : List Char) : Option Float := do
  let whole := s.takeWhile Char.isDigit
  let rest := s.dropWhile Char.isDigit
  let (fraction, rest) :=
    match rest with
    | '.' :: r => (r.takeWhile Char.isDigit, r.dropWhile Char.isDigit)
    | r => ([], r)
  if whole.isEmpty && fraction.isEmpty then none
  else
    let exponent ← exponent? rest
    assemble? (whole ++ fraction) (exponent - fraction.length)

/-- Whether a text is an infinity without its sign. -/
def isInfinity (s : List Char) : Bool :=
  s == ".inf".toList || s == ".Inf".toList || s == ".INF".toList

/-- Whether a text is what is no number. -/
def isNaN (s : List Char) : Bool :=
  s == ".nan".toList || s == ".NaN".toList || s == ".NAN".toList

def infinity : Float :=
  1.0 / 0.0

/-- The double of a text. -/
def float? (s : List Char) : Option Float :=
  if isNaN s then some (0.0 / 0.0)
  else
    match s with
    | '-' :: r => if isInfinity r then some (-infinity) else (decimal? r).map (fun x => -x)
    | '+' :: r => if isInfinity r then some infinity else decimal? r
    | s => if isInfinity s then some infinity else decimal? s

/-- The integer of a text, if it has at most 128 bits. -/
def number? (s : List Char) : Option ScalarValue := do
  let (negative, size) ← integer? s
  integerValue? negative size

/-- The value of a plain scalar by its looks. -/
def plain (s : List Char) : ScalarValue :=
  if s.isEmpty || isNull s then .null
  else
    match bool? s with
    | some b => .bool b
    | none =>
      match number? s with
      | some value => value
      | none =>
        -- Digits behind a leading zero look like a number but are a text.
        if hasLeadingZero s then .text
        else
          match float? s with
          | some x => .float x
          | none => .text

/-- A tag of the language itself. -/
def core (name : String) : String :=
  "tag:yaml.org,2002:" ++ name

end Resolve

open Resolve in
/-- The value that a tag of the language forces: `none` if the tag forces
    nothing. -/
def Scalar.forced? (s : Scalar) (tag : String) : Option (Except Mismatch ScalarValue) :=
  let text := s.text.toList
  let wanted (expected : String) : Option ScalarValue → Except Mismatch ScalarValue
    | some value => .ok value
    | none => .error (.wrongValue (.string s.text) expected)
  if tag = core "bool" then some (wanted "a boolean" ((bool? text).map .bool))
  else if tag = core "int" then some (wanted "an integer" (number? text))
  else if tag = core "float" then some (wanted "a float" ((float? text).map .float))
  else if tag = core "null" then some (wanted "null" (if isNull text then some .null else none))
  else none

/-- Whether a tag is local to the application. -/
def isLocal (tag : Option String) : Bool :=
  match tag with
  | some t => t.toList.head? == some '!'
  | none => false

/-- The value of a scalar. -/
def Scalar.value (s : Scalar) : Except Mismatch ScalarValue :=
  match s.tag with
  | none => .ok (if s.style = .plain then Resolve.plain s.text.toList else .text)
  | some tag =>
    match s.forced? tag with
    | some forced => forced
    | none =>
      .ok (if isLocal s.tag && s.style = .plain then Resolve.plain s.text.toList else .text)

/-- What a scalar is called where something else is expected. -/
def Scalar.found (s : Scalar) : ScalarValue → Found
  | .null => .null
  | .bool b => .bool b
  | .natural n => .integer n
  | .signed i => .integer i
  | .wide i width => .wide i width
  | .float x => .float x
  | .text => .string s.text

/-- Why a scalar does not fit where something else is expected. -/
def Scalar.unfit (s : Scalar) (expected : String) : Mismatch :=
  match s.value with
  | .ok value => .wrongType (s.found value) expected
  | .error mismatch => mismatch

end TypedClient.Yaml
