/-! # Shortest decimals

    The decimal with the fewest digits that still reads back as a given binary
    fraction:

    * **Interval**: a double `m · 2^q` stands for the reals that round to it;
      the two ends belong to it iff `m` is even.
    * **Grids**: for one digit, two digits and so on the two points of the
      decimal grid around the value are tried; the first grid with a point in
      the interval wins, and of two points the nearer one, on a tie the even
      one.

    All arithmetic is exact, on natural numbers.
-/

namespace TypedClient.Decimal

/-- The number `digits · 10^exponent`. -/
structure Figures where
  /-- The significant digits. -/
  digits : Nat
  /-- The power of ten they are multiplied by. -/
  exponent : Int
  deriving DecidableEq, Repr

/-- The number of decimal digits of a natural number; zero has one. -/
def digitCount (n : Nat) : Nat :=
  (Nat.toDigits 10 n).length

/-- `2^e` as a numerator: one where the exponent is negative. -/
def upperPow (base : Nat) (e : Int) : Nat :=
  Nat.pow base e.toNat

/-- `2^e` as a denominator: one where the exponent is not negative. -/
def lowerPow (base : Nat) (e : Int) : Nat :=
  Nat.pow base (-e).toNat

/-- The power of ten at or below `m · 2^q`, for doubles `m · 2^q`: the digits
    of `m · 2^q · 10^400` are counted. -/
def leadingExponent (m : Nat) (q : Int) : Int :=
  (digitCount (m * upperPow 2 q * Nat.pow 10 400 / lowerPow 2 q) : Int) - 401

/-- The reals that round to `m · 2^q`, in quarters of its last place. -/
structure Interval where
  /-- The lower end. -/
  low : Nat
  /-- The value itself. -/
  middle : Nat
  /-- The upper end. -/
  high : Nat
  /-- Whether the ends belong to the interval. -/
  closed : Bool

/-- The interval of `m · 2^q`. Below a power of two the neighbours are half as
    far away as above it, except at the smallest exponent. -/
def interval (m : Nat) (q : Int) : Interval :=
  { low := if m = Nat.pow 2 52 ∧ -1074 < q then 4 * m - 1 else 4 * m - 2
    middle := 4 * m
    high := 4 * m + 2
    closed := m % 2 == 0 }

/-- The point of the grid `10^e` that stands for the interval `i · 2^(q-2)`,
    if one lies in it. -/
def onGrid (i : Interval) (q e : Int) : Option Figures :=
  -- Both sides over one denominator: `d` times `point` against quarters
  -- times `unit`.
  let point := upperPow 10 e * lowerPow 2 (q - 2)
  let unit := upperPow 2 (q - 2) * lowerPow 10 e
  let value := i.middle * unit
  let inside (d : Nat) : Bool :=
    if i.closed then i.low * unit ≤ d * point && d * point ≤ i.high * unit
    else i.low * unit < d * point && d * point < i.high * unit
  let below := value / point
  let above := below + 1
  match inside below, inside above with
  | false, false => none
  | true, false => some ⟨below, e⟩
  | false, true => some ⟨above, e⟩
  | true, true =>
    -- Both neighbours read back as the value, so the nearer one is taken.
    let down := value - below * point
    let up := above * point - value
    if down < up then some ⟨below, e⟩
    else if up < down then some ⟨above, e⟩
    else if below % 2 = 0 then some ⟨below, e⟩
    else some ⟨above, e⟩

/-- The first grid with a point in the interval, from coarse to fine. -/
def firstGrid (i : Interval) (q : Int) : Nat → Int → Figures
  | 0, e => ⟨i.middle * upperPow 2 (q - 2) * lowerPow 10 e / (upperPow 10 e * lowerPow 2 (q - 2)), e⟩
  | n + 1, e => (onGrid i q e).getD (firstGrid i q n (e - 1))

/-- Removes the zeros at the end of the digits. -/
def Figures.strip : Nat → Figures → Figures
  | 0, d => d
  | n + 1, d =>
    if d.digits ≠ 0 ∧ d.digits % 10 = 0 then strip n ⟨d.digits / 10, d.exponent + 1⟩ else d

/-- The shortest decimal that rounds to `m · 2^q`. Seventeen digits suffice for
    every double. -/
def shortest (m : Nat) (q : Int) : Figures :=
  (firstGrid (interval m q) q 17 (leadingExponent m q)).strip 17

/-- The significand and exponent of a finite double, its sign left out. -/
def magnitude (x : Float) : Nat × Int :=
  let bits : Nat := x.toBits.toNat
  let fraction : Nat := bits % Nat.pow 2 52
  let biased : Nat := bits / Nat.pow 2 52 % Nat.pow 2 11
  if biased = 0 then (fraction, -1074) else (fraction + Nat.pow 2 52, (biased : Int) - 1075)

/-- Whether the sign bit of a double is set. -/
def isNegative (x : Float) : Bool :=
  x.toBits.toNat / Nat.pow 2 63 == 1

/-- The shortest decimal of the size of a finite double that is not zero. -/
def ofFloat (x : Float) : Figures :=
  shortest (magnitude x).1 (magnitude x).2

end TypedClient.Decimal
