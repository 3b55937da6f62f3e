import TypedClient.Decimal.Shortest

/-! # Texts of doubles

    Two ways to write the shortest decimal of a double:

    * **Data**: positional from `0.00001` up to sixteen digits before the
      point, with an exponent outside of that; a point or an exponent is
      always there.
    * **Prose**: positional at every size.
-/

namespace TypedClient.Decimal

/-- The decimal digits of a natural number. -/
def natChars (n : Nat) : List Char :=
  Nat.toDigits 10 n

/-- The decimal digits of an integer, behind its sign. -/
def intChars (i : Int) : List Char :=
  match i with
  | .ofNat n => natChars n
  | .negSucc n => '-' :: natChars (n + 1)

/-- Writes digits with the point behind the first `point` of them; zeros fill
    up on either side. -/
def positional (digits : List Char) (point : Int) : List Char :=
  if point ≤ 0 then "0.".toList ++ List.replicate (-point).toNat '0' ++ digits
  else if digits.length ≤ point.toNat then
    digits ++ List.replicate (point.toNat - digits.length) '0' ++ ".0".toList
  else digits.take point.toNat ++ '.' :: digits.drop point.toNat

/-- Writes digits with a point behind the first one and a power of ten. -/
def scientific (digits : List Char) (power : Int) : List Char :=
  let mantissa :=
    match digits with
    | [] => []
    | [d] => [d]
    | d :: r => d :: '.' :: r
  mantissa ++ 'e' :: (if power < 0 then '-' else '+') :: natChars power.natAbs

/-- The sign and the size of a double, the size as digits and the place of the
    point behind them. -/
def parts (x : Float) : List Char × List Char × Int :=
  let sign := if isNegative x then ['-'] else []
  if (magnitude x).1 = 0 then (sign, ['0'], 1)
  else
    let digits := natChars (ofFloat x).digits
    (sign, digits, digits.length + (ofFloat x).exponent)

/-- A finite double as data formats write it. -/
def dataText (x : Float) : List Char :=
  let (sign, digits, point) := parts x
  sign ++ (if -5 < point && point ≤ 16 then positional digits point
    else scientific digits (point - 1))

/-- A double as messages write it. -/
def proseText (x : Float) : List Char :=
  if x.isNaN then "NaN".toList
  else if x.isInf then (if isNegative x then "-inf" else "inf").toList
  else
    let (sign, digits, point) := parts x
    sign ++ positional digits point

end TypedClient.Decimal
