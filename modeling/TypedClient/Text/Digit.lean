/-! # Digits

    Digits of numbers in bases up to sixteen, in either case.

    * **Reading**: a character has a value in a base, or none; a run of digits
      has one if each of its characters has.
    * **Writing**: digits beyond nine are lower-case letters.
-/

namespace TypedClient.Digit

/-- The value of a decimal digit. -/
def decimal (c : Char) : Nat :=
  c.toNat - 48

/-- The value of a digit in a base. -/
def value? (base : Nat) (c : Char) : Option Nat :=
  let value :=
    if c.isDigit then decimal c
    else if c.isLower then c.toNat - 87
    else if c.isUpper then c.toNat - 55
    else base
  if value < base then some value else none

/-- The number that digits in a base stand for; no digits stand for zero. -/
def number? (base : Nat) (digits : List Char) : Option Nat :=
  digits.foldlM (fun number c => (value? base c).map (number * base + ·)) 0

/-- All characters of a number are digits. -/
theorem exists_value?_of_number? {base : Nat} {digits : List Char} {n : Nat}
    (h : number? base digits = some n) : ∀ c ∈ digits, ∃ v, value? base c = some v := by
  unfold number? at h
  generalize 0 = start at h
  induction digits generalizing start with
  | nil => exact fun _ hc => absurd hc List.not_mem_nil
  | cons c r ih =>
    rw [List.foldlM_cons] at h
    obtain ⟨m, hm, hrest⟩ := Option.bind_eq_some_iff.1 h
    obtain ⟨v, hv, -⟩ := Option.map_eq_some_iff.1 hm
    exact List.forall_mem_cons.2 ⟨⟨v, hv⟩, ih m hrest⟩

def lower (n : Nat) : Char :=
  if n < 10 then Char.ofNat (48 + n) else Char.ofNat (87 + n)

/-- The digits of a number in base sixteen, without leading zeros. -/
def hexChars (n : Nat) : List Char :=
  if n < 16 then [lower n] else hexChars (n / 16) ++ [lower (n % 16)]

end TypedClient.Digit
