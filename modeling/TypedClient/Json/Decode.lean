import TypedClient.Json.Reader
import TypedClient.Datum

/-! # Reading shapes from JSON trees

    Combinators that read a value of an expected shape from a tree with
    places, in document order, up to the first problem:

    * **Placed problems** name where they show. A value of the wrong kind shows
      behind itself, a list or object in front of its bracket.
    * **Open problems** have no place of their own; the list or object around
      them puts them where it would resume reading.
-/

namespace TypedClient.Json

/-- Why a value could not be read. -/
inductive Problem where
  /-- A problem with its place. -/
  | placed (error : Error)
  /-- A mismatch whose place the surrounding list or object knows. -/
  | unplaced (mismatch : Mismatch)

/-- The problem of a fault of the text. -/
def Problem.ofFault (f : Fault) : Problem :=
  .placed ⟨.flaw f.flaw, f.place⟩

/-- Gives an open problem a place. -/
def Problem.resumeAt (place : Position) : Problem → Problem
  | .placed error => .placed error
  | .unplaced mismatch => .placed ⟨.mismatch mismatch, place⟩

/-- Places what is open in the outcome of reading. -/
def placing {α : Type} (place : Position) : Except Problem α → Except Problem α
  | .ok value => .ok value
  | .error problem => .error (problem.resumeAt place)

/-- Turns the faults of the text into problems. -/
def faulty {α : Type} : Except Fault α → Except Problem α
  | .ok value => .ok value
  | .error fault => .error (.ofFault fault)

/-- Refuses a list or object inside too many others. -/
def checkDepth : Option Fault → Except Problem Unit
  | none => .ok ()
  | some fault => .error (.ofFault fault)

/-- The problem of a mismatch at a place. -/
def mismatchAt (mismatch : Mismatch) (place : Position) : Problem :=
  .placed ⟨.mismatch mismatch, place⟩

/-- The problem of meeting a value where something else is expected. -/
def Located.unexpected (expected : String) : Located → Problem
  | .null stop => mismatchAt (.wrongType .null expected) stop
  | .bool value stop => mismatchAt (.wrongType (.bool value) expected) stop
  | .number (.ok (.int i)) stop => mismatchAt (.wrongType (.integer i) expected) stop
  | .number (.ok (.float x)) stop => mismatchAt (.wrongType (.float x) expected) stop
  | .number (.error fault) _ => .ofFault fault
  | .string (.ok s) stop => mismatchAt (.wrongType (.string s) expected) stop
  | .string (.error fault) _ => .ofFault fault
  | .array start _ _ => mismatchAt (.wrongType .sequence expected) start
  | .object start _ _ => mismatchAt (.wrongType .map expected) start
  | .broken whenRead _ => .ofFault whenRead

/-- The datum of a number. -/
def numberDatum : Number → Datum
  | .int i => if 0 ≤ i then .natural i.toNat else .signed i
  | .float x => .float x

mutual

/-- Reads a value as data of unknown shape. -/
def Located.datum : Located → Except Problem Datum
  | .null _ => .ok .null
  | .bool value _ => .ok (.bool value)
  | .number (.ok n) _ => .ok (numberDatum n)
  | .number (.error fault) _ => .error (.ofFault fault)
  | .string (.ok s) _ => .ok (.string s)
  | .string (.error fault) _ => .error (.ofFault fault)
  | .array _ depth items => do
    checkDepth depth
    let data ← items.data
    return .sequence data
  | .object _ depth members => do
    checkDepth depth
    let data ← members.data
    return .map data
  | .broken whenRead _ => .error (.ofFault whenRead)

/-- Reads items as data of unknown shape. -/
def Items.data : Items → Except Problem (List Datum)
  | .stop _ => .ok []
  | .item value _ rest => do
    let datum ← value.datum
    let data ← rest.data
    return datum :: data
  | .broken whenRead _ => .error (.ofFault whenRead)

/-- Reads members as data of unknown shape. -/
def Members.data : Members → Except Problem (List (Datum × Datum))
  | .stop _ => .ok []
  | .member (.ok name) _ value _ rest => do
    let datum ← value.datum
    let data ← rest.data
    return (.string name, datum) :: data
  | .member (.error fault) _ _ _ _ => .error (.ofFault fault)
  | .broken whenRead _ => .error (.ofFault whenRead)

end

def Located.text (value : Located) : Except Problem String :=
  match value with
  | .string (.ok s) _ => .ok s
  | _ => .error (value.unexpected "a string")

/-- Reads what may also be null. -/
def Located.orNull {α : Type} (read : Located → Except Problem α) (value : Located) :
    Except Problem (Option α) :=
  match value with
  | .null _ => .ok none
  | _ => (read value).map some

/-- Reads members one after the other into a state. -/
def Members.foldInto {σ : Type} (step : σ → String → Located → Except Problem σ) (state : σ) :
    Members → Except Problem σ
  | .stop _ => .ok state
  | .member (.ok name) _ value resume rest => do
    let state ← placing resume (step state name value)
    rest.foldInto step state
  | .member (.error fault) _ _ _ _ => .error (.ofFault fault)
  | .broken whenRead _ => .error (.ofFault whenRead)

/-- Reads an object whose names may be any. -/
def Located.table {α : Type} (read : Located → Except Problem α) (value : Located) :
    Except Problem (Table α) :=
  match value with
  | .object _ depth members => do
    checkDepth depth
    members.foldInto (fun t name value => (read value).map (fun v => t.insert name v)) []
  | _ => .error (value.unexpected "a map")

/-- Reads items, each in the same way. -/
def Items.each {α : Type} (read : Located → Except Problem α) : Items → Except Problem (List α)
  | .stop _ => .ok []
  | .item value resume rest => do
    let first ← placing resume (read value)
    let others ← rest.each read
    return first :: others
  | .broken whenRead _ => .error (.ofFault whenRead)

def Located.list {α : Type} (read : Located → Except Problem α) (value : Located) :
    Except Problem (List α) :=
  match value with
  | .array _ depth items => do
    checkDepth depth
    items.each read
  | _ => .error (value.unexpected "a sequence")

/-- A field of a record that is being read. -/
structure Field (σ : Type) where
  name : String
  /-- Whether a list that stands for the record may end before it. -/
  hasDefault : Bool
  /-- Reads its value into the record. -/
  read : σ → Located → Except Problem σ

/-- Reads the fields of a record from members. Unknown names are skipped, a
    known one may come only once. -/
def Members.record {σ : Type} (fields : List (Field σ)) (seen : List String) (state : σ) :
    Members → Except Problem σ
  | .stop _ => .ok state
  | .member (.error fault) _ _ _ _ => .error (.ofFault fault)
  | .member (.ok name) afterName value resume rest =>
    match fields.find? (fun field => field.name == name) with
    | none => do
      -- Whatever stands under an unknown name only has to be JSON.
      faulty value.skip
      rest.record fields seen state
    | some field =>
      -- The second value of a field is not read.
      if seen.contains name then .error (mismatchAt (.duplicateField name) afterName)
      else do
        let state ← placing resume (field.read state value)
        rest.record fields (name :: seen) state
  | .broken whenRead _ => .error (.ofFault whenRead)

/-- The problem of items behind the last field of a record, where reading would
    resume at `resume`. -/
def Items.surplus (resume : Position) : Items → Except Problem Unit
  | .stop _ => .ok ()
  | .item _ _ _ => .error (.ofFault ⟨.trailingText, resume.right 1⟩)
  | .broken ⟨.listGoesWrong, place⟩ _ => .error (.ofFault ⟨.trailingText, place⟩)
  | .broken ⟨.endInValue, place⟩ _ => .error (.ofFault ⟨.trailingText, place⟩)
  | .broken whenRead _ => .error (.ofFault whenRead)

/-- Reads the fields of a record from items, by order. -/
def Items.record {σ : Type} (arity : String) (index : Nat) (resume : Position) (state : σ) :
    List (Field σ) → Items → Except Problem σ
  | [], items => do
    items.surplus resume
    return state
  | field :: fields, .item value resume rest => do
    let state ← placing resume (field.read state value)
    Items.record arity (index + 1) resume state fields rest
  | field :: fields, .stop place =>
    -- The list may end where only fields with defaults are left.
    match (field :: fields).findIdx? (fun field => !field.hasDefault) with
    | none => .ok state
    | some missing => .error (mismatchAt (.wrongLength (index + missing) arity) place)
  | _ :: _, .broken whenRead _ => .error (.ofFault whenRead)

/-- Reads a record, from an object by name or from a list by order. -/
def Located.record {σ : Type} (name : String) (fields : List (Field σ)) (initial : σ)
    (value : Located) : Except Problem σ :=
  match value with
  | .object _ depth members => do
    checkDepth depth
    members.record fields [] initial
  | .array start depth items => do
    checkDepth depth
    let count := fields.length
    let arity := name ++ " with " ++ String.ofList (Decimal.natChars count)
      ++ (if count = 1 then " element" else " elements")
    items.record arity 0 start initial fields
  | _ => .error (value.unexpected name)

def Source.decode {α : Type} (read : Located → Except Problem α) (s : Source) :
    Except Error α :=
  match placing ⟨0, 0⟩ (read s.root) with
  | .ok value =>
    match s.trailing with
    | none => .ok value
    | some fault => .error ⟨.flaw fault.flaw, fault.place⟩
  | .error (.placed error) => .error error
  | .error (.unplaced mismatch) => .error ⟨.mismatch mismatch, ⟨0, 0⟩⟩

/-- Reads a text as data of unknown shape. -/
def Datum.read (text : String) : Except Error Datum :=
  (Source.read text).decode Located.datum

end TypedClient.Json
