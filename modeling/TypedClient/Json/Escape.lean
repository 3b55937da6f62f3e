import TypedClient.Json.Located
import TypedClient.Text.Digit

/-! # Reading strings

    The text of a string is read from behind its opening quotation mark. A
    reader keeps track of surrogate pairs: the first half of one is only good
    together with the second half right behind it. A skipper does not care, so
    a string that denotes no text may still have an end.
-/

namespace TypedClient.Json

/-- How far a reader has come: the characters so far, last first. -/
inductive Progress where
  | text (read : List Char)
  /-- A text and the first half of a surrogate pair. -/
  | half (read : List Char) (high : Nat)
  /-- No text, for the first of its faults. -/
  | bad (fault : Fault)

/-- A character that stands for itself, `next` being the place behind its
    first byte. -/
def Progress.plain (c : Char) (next : Position) : Progress → Progress
  | .text read => .text (c :: read)
  | .half _ _ => .bad ⟨.escapeCutShort, next⟩
  | .bad fault => .bad fault

/-- An escape by number, `next` being the place behind it. -/
def Progress.unit (n : Nat) (next : Position) : Progress → Progress
  | .text read =>
    if 0xDC00 ≤ n ∧ n ≤ 0xDFFF then .bad ⟨.loneSurrogate, next⟩
    else if 0xD800 ≤ n ∧ n ≤ 0xDBFF then .half read n
    else .text (Char.ofNat n :: read)
  | .half read high =>
    if 0xDC00 ≤ n ∧ n ≤ 0xDFFF then
      .text (Char.ofNat ((high - 0xD800) * 0x400 + (n - 0xDC00) + 0x10000) :: read)
    else .bad ⟨.loneSurrogate, next⟩
  | .bad fault => .bad fault

/-- A flaw that ends the string for readers. Behind half a pair it shows as an
    escape cut short. -/
def Progress.flawed (flaw : Flaw) (place : Position) : Progress → Fault
  | .text _ => ⟨flaw, place⟩
  | .half _ _ => ⟨.escapeCutShort, place⟩
  | .bad fault => fault

/-- A flaw that readers see before they look for the second half of a pair. -/
def Progress.stopped (flaw : Flaw) (place : Position) : Progress → Fault
  | .bad fault => fault
  | _ => ⟨flaw, place⟩

/-- The text of a string that ends here, `next` being the place behind its end. -/
def Progress.value (next : Position) : Progress → Except Fault String
  | .text read => .ok (String.ofList read.reverse)
  | .half _ _ => .error ⟨.escapeCutShort, next⟩
  | .bad fault => .error fault

/-- The character of a one-letter escape. -/
def shortEscape (c : Char) : Option Char :=
  match c with
  | '"' => some '"'
  | '\\' => some '\\'
  | '/' => some '/'
  | 'b' => some '\x08'
  | 'f' => some '\x0c'
  | 'n' => some '\n'
  | 'r' => some '\r'
  | 't' => some '\t'
  | _ => none

/-- What reading a string meets. -/
inductive StringResult where
  /-- Its text, the place behind it, and the rest. -/
  | done (value : Except Fault String) (place : Position) (rest : List Char)
  /-- No end of the string. -/
  | broken (whenRead whenSkipped : Fault)

/-- Reads a string from behind its opening quotation mark. -/
def readString (progress : Progress) (p : Position) : List Char → StringResult
  | [] => .broken (progress.stopped .endInString p) ⟨.endInString, p⟩
  | '"' :: r =>
    let q := p.after '"'
    .done (progress.value q) q r
  | '\\' :: 'u' :: a :: b :: c :: d :: r =>
    let q := (p.after '\\').after 'u'
    match Digit.number? 16 [a, b, c, d] with
    | some n =>
      let next := q.forward 4 (a :: b :: c :: d :: r)
      readString (progress.unit n next) next r
    | none =>
      let place := q.forward 4 (a :: b :: c :: d :: r)
      .broken (progress.stopped .badEscape place) ⟨.badEscape, place⟩
  | '\\' :: 'u' :: r =>
    let q := (p.after '\\').after 'u'
    -- Four bytes are looked at, whatever characters they belong to.
    let bytes := r.foldl (fun n c => n + c.utf8Size) 0
    let place := q.forward (min bytes 4) r
    let flaw := if bytes < 4 then Flaw.endInString else .badEscape
    .broken (progress.stopped flaw place) ⟨flaw, place⟩
  | '\\' :: e :: r =>
    let q := p.after '\\'
    match shortEscape e with
    | some c => readString (progress.plain c (q.ahead (e :: r))) (q.after e) r
    | none =>
      .broken (progress.flawed .badEscape (q.ahead (e :: r))) ⟨.badEscape, q.ahead (e :: r)⟩
  | '\\' :: [] =>
    .broken (progress.stopped .endInString (p.after '\\')) ⟨.endInString, p.after '\\'⟩
  | c :: r =>
    if c.val < 0x20 then
      .broken (progress.flawed .controlCharacter (p.ahead (c :: r))) ⟨.controlCharacter, p⟩
    else readString (progress.plain c (p.ahead (c :: r))) (p.after c) r

end TypedClient.Json
