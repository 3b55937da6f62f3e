import TypedClient.Json.Value

/-! # Data of unknown shape

    What a text holds before it is known what it shall be read as. Unlike a
    JSON value, a map may repeat its keys and have keys that are no texts.

    * **Records**: the fields of a record are picked from a map by name, by
      index where a key is a natural number, or from a list by order.
    * **Leniency ends at the record**: a field given twice, or a list with
      items to spare, is no record at all.
-/

namespace TypedClient

/-- A value whose shape is not known yet. -/
inductive Datum where
  | null
  | bool (value : Bool)
  /-- An integer written without a minus. -/
  | natural (value : Nat)
  /-- An integer written with a minus. -/
  | signed (value : Int)
  | float (value : Float)
  | string (value : String)
  | sequence (items : List Datum)
  /-- Keys and values, as they come. -/
  | map (entries : List (Datum × Datum))

namespace Datum

mutual

/-- The JSON value of a datum, if all its keys are texts. Of repeated keys the
    last value counts, at the place of the first. -/
def toJson? : Datum → Option Json
  | .null => some .null
  | .bool b => some (.bool b)
  | .natural n => some (.number (.int n))
  | .signed i => some (.number (.int i))
  | .float x => some (.ofFloat x)
  | .string s => some (.string s)
  | .sequence items => (itemsToJson? items).map .array
  | .map entries => (entriesToJson? [] entries).map .object

/-- The JSON values of items. -/
def itemsToJson? : List Datum → Option (List Json)
  | [] => some []
  | item :: rest => do
    let value ← item.toJson?
    let values ← itemsToJson? rest
    return value :: values

/-- Adds entries to the members of an object. -/
def entriesToJson? (members : List (String × Json)) :
    List (Datum × Datum) → Option (List (String × Json))
  | [] => some members
  | (.string name, value) :: rest => do
    let value ← value.toJson?
    entriesToJson? (Table.insert name value members) rest
  | _ :: _ => none

end

mutual

/-- The datum of a JSON value. -/
def ofJson : Json → Datum
  | .null => .null
  | .bool b => .bool b
  | .number (.int i) => if 0 ≤ i then .natural i.toNat else .signed i
  | .number (.float x) => .float x
  | .string s => .string s
  | .array items => .sequence (itemsOfJson items)
  | .object members => .map (membersOfJson members)

def itemsOfJson : List Json → List Datum
  | [] => []
  | item :: rest => ofJson item :: itemsOfJson rest

def membersOfJson : List (String × Json) → List (Datum × Datum)
  | [] => []
  | (name, value) :: rest => (.string name, ofJson value) :: membersOfJson rest

end

/-- The fields of a record that are given. -/
structure Fields where
  given : Table Datum
  /-- Whether they come from a list, which may only leave out what has a default. -/
  ordered : Bool

/-- The name that a key of a record stands for; `none` where it can be no key. -/
def fieldName? (names : List String) : Datum → Option (Option String)
  | .string name => some (if name ∈ names then some name else none)
  | .natural index => some names[index]?
  | _ => none

/-- Picks the fields of a record from entries. -/
def pickFields (names : List String) (given : Table Datum) :
    List (Datum × Datum) → Option (Table Datum)
  | [] => some given
  | (key, value) :: rest =>
    match fieldName? names key with
    | none => none
    | some none => pickFields names given rest
    | some (some name) =>
      if given.contains name then none else pickFields names (given ++ [(name, value)]) rest

/-- The fields of a record with the given names. -/
def fields? (names : List String) : Datum → Option Fields
  | .map entries => (pickFields names [] entries).map (fun given => ⟨given, false⟩)
  | .sequence items =>
    if items.length ≤ names.length then some ⟨names.zip items, true⟩ else none
  | _ => none

namespace Fields

variable {α : Type}

/-- A field that has to be given. -/
def required (f : Fields) (name : String) (read : Datum → Option α) : Option α :=
  (f.given.find? name).bind read

/-- A field with a default. -/
def defaulted (f : Fields) (name : String) (default : α) (read : Datum → Option α) : Option α :=
  match f.given.find? name with
  | none => some default
  | some value => read value

/-- A field that may be left out, except in a list, or be null. -/
def optional (f : Fields) (name : String) (read : Datum → Option α) : Option (Option α) :=
  match f.given.find? name with
  | none => if f.ordered then none else some none
  | some .null => some none
  | some value => (read value).map some

end Fields

def text? : Datum → Option String
  | .string s => some s
  | _ => none

def bool? : Datum → Option Bool
  | .bool b => some b
  | _ => none

def list? {α : Type} (read : Datum → Option α) : Datum → Option (List α)
  | .sequence items => items.mapM read
  | _ => none

/-- Reads a table with texts as keys. -/
def table? {α : Type} (read : Datum → Option α) : Datum → Option (Table α)
  | .map entries =>
    entries.foldlM (fun table entry => do
      let name ← text? entry.1
      let value ← read entry.2
      return table.insert name value) []
  | _ => none

/-- Reads the name of an alternative: a text, or a map from the name alone to a
    null. Names may be given by number. -/
def alternative? {α : Type} (byName : String → α) (byNumber : Nat → α) : Datum → Option α
  | .string name => some (byName name)
  | .map [(.string name, .null)] => some (byName name)
  | .map [(.natural number, .null)] => some (byNumber number)
  | _ => none

end Datum

end TypedClient
