import TypedClient.Json.Located
import TypedClient.Text.Digit

/-! # Reading numerals

    * **Grammar**: an optional minus, digits without a leading zero, then
      optionally a fraction and an exponent.
    * **Value**: without fraction and exponent an integer if it has at most 64
      bits. All else is a double: the leading digits that fit into 64 bits,
      times or divided by the power of ten that the others amount to. A minus
      before a zero makes a double too.
-/

namespace TypedClient.Json

def significandLimit : Nat :=
  Nat.pow 2 64 - 1

/-- Appends digits to a significand as long as it fits; the digits that are
    left over are returned too. -/
def takeDigits (significand : Nat) : List Char → Nat × List Char
  | [] => (significand, [])
  | c :: r =>
    let next := significand * 10 + Digit.decimal c
    if next ≤ significandLimit then takeDigits next r else (significand, c :: r)

/-- The double nearest to a power of ten up to `10^308`. -/
def powerOfTen (n : Nat) : Float :=
  Float.ofScientific 1 false n

/-- Multiplies or divides by a power of ten; `none` beyond the doubles. Powers
    below `10^-308` are divided off in steps, of which four reach zero. -/
def scale : Nat → Float → Int → Option Float
  | 0, x, _ => some x
  | steps + 1, x, exponent =>
    if exponent.natAbs ≤ 308 then
      if 0 ≤ exponent then
        let y := x * powerOfTen exponent.natAbs
        if y.isInf then none else some y
      else some (x / powerOfTen exponent.natAbs)
    else if x == 0.0 then some x
    else if 0 ≤ exponent then none
    else scale steps (x / powerOfTen 308) (exponent + 308)

/-- The double of a significand and an exponent. -/
def assemble (negative : Bool) (significand : Nat) (exponent : Int) : Option Float :=
  (scale 4 significand.toUInt64.toFloat exponent).map (fun x => if negative then -x else x)

/-- The number of an integer numeral whose digits all fit. -/
def wholeNumber (negative : Bool) (significand : Nat) : Number :=
  if negative then
    if significand = 0 ∨ Nat.pow 2 63 < significand then .float (-significand.toUInt64.toFloat)
    else .int (-(significand : Int))
  else .int significand

/-- The largest exponent that is told apart from all larger ones. -/
def exponentLimit : Nat :=
  Nat.pow 2 31 - 1

/-- Reads the digits of an exponent; where it grows too large the number of
    digits read until then is returned. -/
def takeExponent (value count : Nat) : List Char → Except Nat Nat
  | [] => .ok value
  | c :: r =>
    let next := value * 10 + Digit.decimal c
    if next ≤ exponentLimit then takeExponent next (count + 1) r else .error (count + 1)

/-- The parts of a numeral without flaws. -/
structure Numeral where
  /-- Whether there is a minus. -/
  negative : Bool
  /-- The digits before the point. -/
  whole : List Char
  /-- The digits behind the point. -/
  fraction : List Char
  /-- Whether the exponent is negative, and its digits. -/
  exponent : Option (Bool × List Char)
  /-- The column of the first digit of the exponent. -/
  exponentColumn : Nat

/-- The number of a numeral. It is too large either where its exponent is, or
    as a whole. -/
def Numeral.number (n : Numeral) (line stop : Nat) : Except Fault Number :=
  let (significand, rest) := takeDigits 0 n.whole
  if rest.isEmpty && n.fraction.isEmpty && n.exponent.isNone then
    .ok (wholeNumber n.negative significand)
  else
    -- Digits that do not fit only move the point.
    let (full, unused) := takeDigits significand n.fraction
    let shift : Int := (rest.length : Int) - ((n.fraction.length - unused.length : Nat) : Int)
    let result (exponent : Int) : Except Fault Number :=
      match assemble n.negative full exponent with
      | some x => .ok (.float x)
      | none => .error ⟨.hugeNumber, ⟨line, stop⟩⟩
    match n.exponent with
    | none => result shift
    | some (down, digits) =>
      match takeExponent 0 0 digits with
      | .ok e => result (if down then shift - e else shift + e)
      | .error count =>
        -- Zero stays zero, and a huge negative exponent leaves nothing.
        if full ≠ 0 ∧ down = false then .error ⟨.hugeNumber, ⟨line, n.exponentColumn + count⟩⟩
        else .ok (.float (if n.negative then -0.0 else 0.0))

/-- What reading a numeral meets: the parts and the rest behind them, or the
    faults of a reader and of a skipper. -/
inductive NumeralResult where
  /-- A numeral, its place behind, and the rest. -/
  | done (numeral : Numeral) (place : Position) (rest : List Char)
  | broken (whenRead whenSkipped : Fault)

/-- A fault that readers and skippers agree on. -/
def NumeralResult.flawed (flaw : Flaw) (place : Position) : NumeralResult :=
  .broken ⟨flaw, place⟩ ⟨flaw, place⟩

/-- The place a number of columns further on. -/
def Position.right (p : Position) (columns : Nat) : Position :=
  ⟨p.line, p.column + columns⟩

/-- Reads the digits of an exponent behind its sign. -/
def exponentDigits (n : Numeral) (down : Bool) (p : Position) (s : List Char) : NumeralResult :=
  match s with
  | [] => .broken ⟨.endInValue, p⟩ ⟨.badNumber, p⟩
  | c :: r =>
    if c.isDigit then
      let digits := (c :: r).takeWhile Char.isDigit
      .done { n with exponent := some (down, digits), exponentColumn := p.column }
        (p.right digits.length) ((c :: r).dropWhile Char.isDigit)
    else .flawed .badNumber (p.ahead (c :: r))

/-- Reads an exponent, if there is one. -/
def exponentPart (n : Numeral) (p : Position) (s : List Char) : NumeralResult :=
  match s with
  | [] => .done n p []
  | c :: r =>
    if c = 'e' ∨ c = 'E' then
      match r with
      | '+' :: r => exponentDigits n false (p.right 2) r
      | '-' :: r => exponentDigits n true (p.right 2) r
      | r => exponentDigits n false (p.right 1) r
    else .done n p (c :: r)

/-- Reads a fraction, if there is one, and an exponent. -/
def fractionPart (n : Numeral) (p : Position) (s : List Char) : NumeralResult :=
  match s with
  | '.' :: r =>
    let digits := r.takeWhile Char.isDigit
    let rest := r.dropWhile Char.isDigit
    let q := p.right 1
    if digits.isEmpty then
      .broken ⟨if rest.isEmpty then .endInValue else .badNumber, q.ahead rest⟩
        ⟨.badNumber, q.ahead rest⟩
    else exponentPart { n with fraction := digits } (q.right digits.length) rest
  | s => exponentPart n p s

/-- Reads a numeral behind its minus. -/
def wholePart (negative : Bool) (p : Position) (s : List Char) : NumeralResult :=
  match s with
  | [] => .broken ⟨.endInValue, p⟩ ⟨.badNumber, p⟩
  | c :: r =>
    if c = '0' then
      match r with
      | d :: _ =>
        if d.isDigit then .flawed .badNumber ((p.right 1).ahead r)
        else fractionPart ⟨negative, ['0'], [], none, 0⟩ (p.right 1) r
      | [] => fractionPart ⟨negative, ['0'], [], none, 0⟩ (p.right 1) []
    else if c.isDigit then
      let digits := (c :: r).takeWhile Char.isDigit
      fractionPart ⟨negative, digits, [], none, 0⟩ (p.right digits.length)
        ((c :: r).dropWhile Char.isDigit)
    else .flawed .badNumber (p.ahead (c :: r))

/-- Reads a numeral from its first character. -/
def readNumeral (p : Position) (s : List Char) : NumeralResult :=
  match s with
  | '-' :: r => wholePart true (p.right 1) r
  | s => wholePart false p s

end TypedClient.Json
