import TypedClient.Json.Numeral
import TypedClient.Json.Escape

/-! # Reading JSON texts

    From a text to its tree with places. Reading never fails: where the text
    stops being JSON the tree has a broken leaf, and nothing behind it.

    * **Depth**: a list or object inside 127 others is marked as too deep to
      be read; it can still be skipped.
    * **Recursion**: every call has read a character more than its caller, so
      the length of the text bounds the depth of the calls.
-/

namespace TypedClient.Json

/-- A place in a text and what follows there. -/
structure Cursor where
  place : Position
  rest : List Char

/-- Blanks between the parts of a value. -/
def isSpace (c : Char) : Bool :=
  c == ' ' || c == '\n' || c == '\t' || c == '\r'

def skipSpaces (p : Position) : List Char → Cursor
  | [] => ⟨p, []⟩
  | c :: r => if isSpace c then skipSpaces (p.after c) r else ⟨p, c :: r⟩

/-- The place behind the first byte of what follows. -/
def Cursor.ahead (c : Cursor) : Position :=
  c.place.ahead c.rest

/-- The cursor behind the next character. -/
def Cursor.next (c : Cursor) : Cursor :=
  match c.rest with
  | [] => c
  | x :: r => ⟨c.place.after x, r⟩

def Cursor.spaces (c : Cursor) : Cursor :=
  skipSpaces c.place c.rest

/-- A broken value that readers and skippers see alike. -/
def Located.flawed (flaw : Flaw) (place : Position) : Located :=
  .broken ⟨flaw, place⟩ ⟨flaw, place⟩

/-- Broken items that readers and skippers see alike. -/
def Items.flawed (flaw : Flaw) (place : Position) : Items :=
  .broken ⟨flaw, place⟩ ⟨flaw, place⟩

/-- Broken members that readers and skippers see alike. -/
def Members.flawed (flaw : Flaw) (place : Position) : Members :=
  .broken ⟨flaw, place⟩ ⟨flaw, place⟩

/-- Reads the letters of a known word. -/
def readWord (value : Position → Located) : List Char → Cursor → Located × Option Cursor
  | [], c => (value c.place, some c)
  | letter :: letters, c =>
    match c.rest with
    | [] => (.flawed .endInValue c.place, none)
    | x :: _ =>
      if x = letter then readWord value letters c.next else (.flawed .unknownWord c.ahead, none)

/-- Where a complaint about an item is put. -/
def resumeInList (c : Cursor) : Position :=
  let c := c.spaces
  match c.rest with
  | ']' :: _ => c.next.place
  | ',' :: _ => c.next.spaces.place
  | _ => c.place

/-- Where a complaint about a name or member is put. -/
def resumeInObject (c : Cursor) : Position :=
  let c := c.spaces
  match c.rest with
  | '\x7d' :: _ => c.next.place
  | _ => c.place

/-- The fault of standing inside 127 lists and objects already. -/
def depthFault (level : Nat) (c : Cursor) : Option Fault :=
  if 127 ≤ level then some ⟨.tooDeep, c.ahead⟩ else none

mutual

/-- Reads a value that stands inside `level` lists and objects. -/
def readValue (fuel level : Nat) (c : Cursor) : Located × Option Cursor :=
  match fuel with
  | 0 => (.flawed .endInValue c.place, none)
  | fuel + 1 =>
    let c := c.spaces
    match c.rest with
    | [] => (.flawed .endInValue c.place, none)
    | 'n' :: _ => readWord .null "ull".toList c.next
    | 't' :: _ => readWord (.bool true) "rue".toList c.next
    | 'f' :: _ => readWord (.bool false) "alse".toList c.next
    | '"' :: _ =>
      match readString (.text []) c.next.place c.next.rest with
      | .done value place rest => (.string value place, some ⟨place, rest⟩)
      | .broken whenRead whenSkipped => (.broken whenRead whenSkipped, none)
    | '[' :: _ =>
      -- Too deep a list is a fault for readers only, so it is read all the same.
      let (items, after) := readItems fuel (level + 1) true c.next
      (.array c.place (depthFault level c) items, after)
    | '\x7b' :: _ =>
      let (members, after) := readMembers fuel (level + 1) true c.next
      (.object c.place (depthFault level c) members, after)
    | x :: _ =>
      if x = '-' || x.isDigit then
        match readNumeral c.place c.rest with
        | .done numeral place rest =>
          (.number (numeral.number place.line place.column) place, some ⟨place, rest⟩)
        | .broken whenRead whenSkipped => (.broken whenRead whenSkipped, none)
      else (.flawed .valueDue c.ahead, none)

/-- Reads an item and those behind it. -/
def readItem (fuel level : Nat) (c : Cursor) : Items × Option Cursor :=
  match fuel with
  | 0 => (.flawed .endInList c.place, none)
  | fuel + 1 =>
    match readValue fuel level c with
    | (value, none) => (.item value c.place (.flawed .endInList c.place), none)
    | (value, some after) =>
      let (rest, last) := readItems fuel level false after
      (.item value (resumeInList after) rest, last)

/-- Reads what follows in a list; `first` says whether nothing came before. -/
def readItems (fuel level : Nat) (first : Bool) (c : Cursor) : Items × Option Cursor :=
  match fuel with
  | 0 => (.flawed .endInList c.place, none)
  | fuel + 1 =>
    let c := c.spaces
    match c.rest with
    | [] => (.flawed .endInList c.place, none)
    | ']' :: _ => (.stop c.next.place, some c.next)
    | x :: _ =>
      if first then readItem fuel level c
      else if x = ',' then
        let c := c.next.spaces
        match c.rest with
        | [] => (.flawed .endInValue c.place, none)
        -- A skipper goes straight for the next item and finds none.
        | ']' :: _ => (.broken ⟨.trailingComma, c.ahead⟩ ⟨.valueDue, c.ahead⟩, none)
        | _ => readItem fuel level c
      else (.flawed .listGoesWrong c.ahead, none)

/-- Reads a member, from its quotation mark on, and those behind it. -/
def readMember (fuel level : Nat) (c : Cursor) : Members × Option Cursor :=
  match fuel with
  | 0 => (.flawed .endInObject c.place, none)
  | fuel + 1 =>
    match readString (.text []) c.next.place c.next.rest with
    | .broken whenRead whenSkipped => (.broken whenRead whenSkipped, none)
    | .done name place rest =>
      let behind : Cursor := ⟨place, rest⟩
      let colon := behind.spaces
      match colon.rest with
      | ':' :: _ =>
        match readValue fuel level colon.next with
        | (value, none) =>
          (.member name (resumeInObject behind) value place (.flawed .endInObject place), none)
        | (value, some after) =>
          let (rest, last) := readMembers fuel level false after
          (.member name (resumeInObject behind) value (resumeInObject after) rest, last)
      | [] =>
        (.member name (resumeInObject behind) (.flawed .endInObject colon.place) place
          (.flawed .endInObject place), none)
      | _ =>
        (.member name (resumeInObject behind) (.flawed .colonDue colon.ahead) place
          (.flawed .colonDue place), none)

/-- Reads what follows in an object; `first` says whether nothing came before. -/
def readMembers (fuel level : Nat) (first : Bool) (c : Cursor) : Members × Option Cursor :=
  match fuel with
  | 0 => (.flawed .endInObject c.place, none)
  | fuel + 1 =>
    let c := c.spaces
    match c.rest with
    | [] => (.flawed .endInObject c.place, none)
    | '\x7d' :: _ => (.stop c.next.place, some c.next)
    | x :: _ =>
      if first then
        if x = '"' then readMember fuel level c else (.flawed .nameDue c.ahead, none)
      else if x = ',' then
        let c := c.next.spaces
        match c.rest with
        -- A reader asks for a value before it asks for a name.
        | [] => (.broken ⟨.endInValue, c.place⟩ ⟨.endInObject, c.place⟩, none)
        | '"' :: _ => readMember fuel level c
        | '\x7d' :: _ => (.broken ⟨.trailingComma, c.ahead⟩ ⟨.nameDue, c.ahead⟩, none)
        | _ => (.flawed .nameDue c.ahead, none)
      else (.flawed .objectGoesWrong c.ahead, none)

end

def Source.read (text : String) : Source :=
  let start : Cursor := ⟨⟨1, 0⟩, text.toList⟩
  match readValue (3 * start.rest.length + 3) 0 start with
  | (root, none) => ⟨root, none⟩
  | (root, some after) =>
    let c := after.spaces
    ⟨root, if c.rest.isEmpty then none else some ⟨.trailingText, c.ahead⟩⟩

end TypedClient.Json
