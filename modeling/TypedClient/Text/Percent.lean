import TypedClient.Text.Digit

/-! # Percent encoding

    A byte that may not stand for itself is written as a percent sign and two
    hexadecimal digits.

    * **Encoding** takes the characters that it is given, the controls and
      whatever is not ASCII, and writes their UTF-8 bytes in capitals.
    * **Decoding** leaves a percent sign alone that two digits do not follow.
-/

namespace TypedClient.Text

/-- The bytes of a text in which a percent sign and two hexadecimal digits
    stand for a byte. -/
def percentDecode : List Char → List UInt8
  | [] => []
  | '%' :: a :: b :: r =>
    match Digit.value? 16 a, Digit.value? 16 b with
    | some x, some y => UInt8.ofNat (x * 16 + y) :: percentDecode r
    | _, _ => 0x25 :: percentDecode (a :: b :: r)
  | c :: r => c.toString.toUTF8.toList ++ percentDecode r
termination_by s => s.length

/-- A byte behind a percent sign. -/
def percentByte (b : UInt8) : List Char :=
  let digit (n : Nat) : Char := (Digit.lower n).toUpper
  ['%', digit (b.toNat / 16), digit (b.toNat % 16)]

/-- Encodes controls, whatever is not ASCII, and some more characters. -/
def percentEncode (more : List Char) (s : List Char) : List Char :=
  s.flatMap (fun c =>
    if c.val < 0x20 || 0x7E < c.val || more.contains c then
      c.toString.toUTF8.toList.flatMap percentByte
    else [c])

end TypedClient.Text
