import TypedClient.Datum
import TypedClient.Yaml.Error
import TypedClient.Yaml.Resolution
import TypedClient.Yaml.Tree

/-! # Reading shapes from YAML trees

    Combinators that read a value of an expected shape from a tree, in
    document order, up to the first problem:

    * **Placed problems** name where they show: at the node that does not fit.
    * **Open problems** have no place of their own; the collection around them
      places them at its start.
    * **Records** are read from maps by name. Where nothing is written, a
      record, a table or a list is empty.
    * **Aliases** are followed as they are met, and counted.
-/

namespace TypedClient.Yaml

/-- Why a value could not be read. -/
inductive Problem where
  /-- A problem with all there is to say about it. -/
  | placed (error : Error)
  /-- A mismatch whose place the surrounding collection knows. -/
  | unplaced (mismatch : Mismatch)

/-- What a reader knows of its surroundings. -/
structure Context where
  /-- The nodes with numbers, last first. -/
  anchored : List (Nat × Node)
  /-- How many aliases may be followed. -/
  aliasLimit : Nat
  /-- How many collections may be entered from here. -/
  depth : Nat
  /-- The way from the root. -/
  path : Path

/-- Readers of values, which count the aliases that have been followed. -/
abbrev Decoder := ReaderT Context (StateT Nat (Except Problem))

namespace Decoder

variable {α : Type}

/-- Refuses a node at its place. -/
def refuse (mark : Mark) (mismatch : Mismatch) : Decoder α := do
  let context ← read
  throw (.placed (.mismatch mismatch mark context.path))

/-- Places what is open in the outcome of a reader. -/
def placing (mark : Mark) (d : Decoder α) : Decoder α := fun context followed =>
  match d context followed with
  | .error (.unplaced mismatch) => .error (.placed (.mismatch mismatch mark context.path))
  | outcome => outcome

def entering (mark : Mark) (d : Decoder α) : Decoder α := do
  let context ← read
  match context.depth with
  | 0 => throw (.placed (.tooDeep mark))
  | depth + 1 => placing mark (withReader (fun context => { context with depth }) d)

/-- Goes to the value of a key. -/
def within (key : Node) (d : Decoder α) : Decoder α :=
  withReader (fun context => { context with
    path :=
      match key with
      | .scalar _ _ s => .member context.path s.text
      | _ => .unnamed context.path }) d

def atItem (index : Nat) (d : Decoder α) : Decoder α :=
  withReader (fun context => { context with path := .item context.path index }) d

end Decoder

open Decoder

namespace Node

variable {α σ : Type}

/-- The node that a node stands for. -/
def follow : Node → Decoder Node
  | .alias number => do
    let context ← read
    let followed ← get
    -- Following an alias costs more than it takes to write, hence the limit.
    if context.aliasLimit ≤ followed then throw (.placed .tooManyAliases)
    else
      set (followed + 1)
      match context.anchored.lookup number with
      | some node => return node
      | none => throw (.placed .unloadable)
  | node => return node

/-- Refuses a node where something else is expected. -/
def unexpected (expected : String) : Node → Decoder α
  | .scalar mark _ s => refuse mark (s.unfit expected)
  | .sequence mark _ _ _ => refuse mark (.wrongType .sequence expected)
  | .mapping mark _ _ _ => refuse mark (.wrongType .map expected)
  | .alias _ => throw (.placed .unloadable)

/-- Whether nothing is written for a node. -/
def isBlank : Node → Bool
  | .scalar _ _ s => s.text.isEmpty && s.style == .plain
  | _ => false

/-- Reads a text, which any scalar is. -/
def text (expected : String) (node : Node) : Decoder String := do
  match ← node.follow with
  | .scalar _ _ s => return s.text
  | node => node.unexpected expected

def bool (node : Node) : Decoder Bool := do
  let node ← node.follow
  match node with
  | .scalar _ _ s =>
    -- Quotes make a text of what looks like a truth value.
    let readable := s.style == .plain ||
      (s.style == .literal && s.tag == some (Resolve.core "bool"))
    match if readable then Resolve.bool? s.text.toList else none with
    | some b => return b
    | none => node.unexpected "a boolean"
  | node => node.unexpected "a boolean"

/-- Whether a scalar stands for a missing value. -/
def isNull (s : Scalar) : Except Mismatch Bool :=
  let chars := s.text.toList
  if s.style != .plain then .ok false
  else
    match s.tag with
    | none => .ok (chars.isEmpty || Resolve.isNull chars)
    | some tag =>
      if tag = Resolve.core "null" then
        if Resolve.isNull chars then .ok true else .error (.wrongValue (.string s.text) "null")
      else .ok false

/-- Reads what may also be null. -/
def orNull (read : Node → Decoder α) (node : Node) : Decoder (Option α) := do
  let node ← node.follow
  match node with
  | .scalar _ _ s =>
    match isNull s with
    | .ok true => return none
    | .ok false => return some (← read node)
    | .error mismatch => throw (.unplaced mismatch)
  | node => return some (← read node)

/-- Reads items, each in the same way. -/
def eachItem (read : Node → Decoder α) (index : Nat) : List Node → Decoder (List α)
  | [] => return []
  | item :: rest => do
    let first ← atItem index (read item)
    let others ← eachItem read (index + 1) rest
    return first :: others

def list (read : Node → Decoder α) (node : Node) : Decoder (List α) := do
  match ← node.follow with
  | .sequence mark _ _ items => entering mark (eachItem read 0 items)
  | node => if node.isBlank then return [] else node.unexpected "a sequence"

/-- Reads entries into a state. -/
def foldEntries (step : σ → String → Node → Decoder σ) (expected : String) (state : σ) :
    List (Node × Node) → Decoder σ
  | [] => return state
  | (key, value) :: rest => do
    let name ← key.text expected
    let state ← within key (step state name value)
    foldEntries step expected state rest

/-- Reads a map whose keys may be any texts. -/
def table (read : Node → Decoder α) (node : Node) : Decoder (Table α) := do
  match ← node.follow with
  | .mapping mark _ _ entries =>
    entering mark (foldEntries
      (fun (t : Table α) name value => do return t.insert name (← read value)) "a string" [] entries)
  | node => if node.isBlank then return [] else node.unexpected "a map"

/-! ### Records -/

/-- A field of a record that is being read. -/
structure Field (σ : Type) where
  /-- Its name. -/
  name : String
  /-- Reads its value into the record. -/
  read : σ → Node → Decoder σ

/-- Reads the fields of a record from entries. Unknown names are passed over, a
    known one may come only once. -/
def fields (known : List (Field σ)) (seen : List String) (state : σ) :
    List (Node × Node) → Decoder σ
  | [] => return state
  | (key, value) :: rest => do
    let name ← key.text "field identifier"
    -- The value of an unknown name is not looked at.
    match known.find? (fun field => field.name == name) with
    | none => fields known seen state rest
    | some field =>
      if seen.contains name then throw (.unplaced (.duplicateField name))
      else
        let state ← within key (field.read state value)
        fields known (name :: seen) state rest

def record (name : String) (known : List (Field σ)) (initial : σ) (node : Node) : Decoder σ := do
  match ← node.follow with
  | .mapping mark _ _ entries => entering mark (fields known [] initial entries)
  | node => if node.isBlank then return initial else node.unexpected name

/-! ### Data -/

/-- The value of a scalar, which must not have a local tag. -/
def plainValue (tagged : Mismatch) (mark : Mark) (s : Scalar) : Decoder ScalarValue :=
  if isLocal s.tag then refuse mark tagged
  else
    match s.value with
    | .ok value => return value
    | .error mismatch => refuse mark mismatch

/-- The mismatch of a tagged node where a JSON value is expected. -/
def taggedValue : Mismatch :=
  .wrongType .tagged "any valid JSON value"

/-- Reads the JSON value of a scalar. -/
def scalarJson (mark : Mark) (s : Scalar) : Decoder Json := do
  match ← plainValue taggedValue mark s with
  | .null => return .null
  | .bool b => return .bool b
  | .natural n => return .number (.int n)
  | .signed i => return .number (.int i)
  | .wide _ _ => refuse mark .integerOutOfRange
  | .float x => return .ofFloat x
  | .text => return .string s.text

/-- Reads the entries of a JSON object. The first key is asked for in words of
    its own. -/
def jsonEntries (read : Node → Decoder Json) (expected : String)
    (members : List (String × Json)) : List (Node × Node) → Decoder (List (String × Json))
  | [] => return members
  | (key, value) :: rest => do
    let name ← key.text expected
    let value ← within key (read value)
    jsonEntries read "a string" (Table.insert name value members) rest

/-- Reads a JSON value, entering at most `depth` collections inside each other. -/
def json (depth : Nat) (node : Node) : Decoder Json := do
  match ← node.follow with
  | .scalar mark _ s => scalarJson mark s
  | .sequence mark _ tag items =>
    if isLocal tag then refuse mark taggedValue
    else
      match depth with
      | 0 => throw (.placed (.tooDeep mark))
      | depth + 1 => do
        let values ← placing mark (eachItem (json depth) 0 items)
        return .array values
  | .mapping mark _ tag entries =>
    if isLocal tag then refuse mark taggedValue
    else
      match depth with
      | 0 => throw (.placed (.tooDeep mark))
      | depth + 1 => do
        let members ← placing mark (jsonEntries (json depth) "a string key" [] entries)
        return .object members
  | .alias _ => throw (.placed .unloadable)

/-- Reads a scalar as a datum. -/
def scalarDatum (mark : Mark) (s : Scalar) : Decoder Datum := do
  match ← plainValue .taggedContent mark s with
  | .null => return .null
  | .bool b => return .bool b
  | .natural n => return .natural n
  | .signed i => return .signed i
  | .wide value width => refuse mark (.wrongType (.wide value width) "any value")
  | .float x => return .float x
  | .text => return .string s.text

def dataEntries (read : Node → Decoder Datum) :
    List (Node × Node) → Decoder (List (Datum × Datum))
  | [] => return []
  | (key, value) :: rest => do
    let first ← read key
    let second ← within key (read value)
    let others ← dataEntries read rest
    return (first, second) :: others

/-- Reads data of unknown shape, entering at most `depth` collections inside
    each other. -/
def datum (depth : Nat) (node : Node) : Decoder Datum := do
  match ← node.follow with
  | .scalar mark _ s => scalarDatum mark s
  | .sequence mark _ tag items =>
    if isLocal tag then refuse mark .taggedContent
    else
      match depth with
      | 0 => throw (.placed (.tooDeep mark))
      | depth + 1 => do
        let data ← placing mark (eachItem (datum depth) 0 items)
        return .sequence data
  | .mapping mark _ tag entries =>
    if isLocal tag then refuse mark .taggedContent
    else
      match depth with
      | 0 => throw (.placed (.tooDeep mark))
      | depth + 1 => do
        let data ← placing mark (dataEntries (datum depth) entries)
        return .map data
  | .alias _ => throw (.placed .unloadable)

def anyJson (node : Node) : Decoder Json := do
  let context ← read
  node.json context.depth

/-- Reads data of unknown shape. -/
def anyDatum (node : Node) : Decoder Datum := do
  let context ← read
  node.datum context.depth

end Node

/-- How many collections may be inside each other. -/
def depthLimit : Nat :=
  128

/-- The surroundings of the root. -/
def Context.ofRoot (root : Node) : Context :=
  { anchored := root.anchored.reverse
    aliasLimit := 100 * root.size
    depth := depthLimit
    path := .root }

/-- Reads a whole text. A text without a document counts as one in which
    nothing is written. -/
def decode {α : Type} (read : Node → Decoder α) (text : String) : Except Error α :=
  match Tree.load? text with
  | none => .error .unloadable
  | some tree =>
    let root := tree.root.getD (Node.empty .start)
    match (placing .start (read root)) (.ofRoot root) 0 with
    | .ok (value, _) => .ok value
    | .error (.placed error) => .error error
    | .error (.unplaced mismatch) => .error (.mismatch mismatch .start .root)

end TypedClient.Yaml
