import TypedClient.Proofs.CodeReader

/-! # What code means

    The value that an expression of the generated code has at the time of the call.

    * **Globals**: what `String` and `encodeURIComponent` make of a value is given, and
      so is which data of other kinds counts as true.
    * **Scopes**: a name that the code declares hides whatever is called so around it,
      also where it is declared but has no value yet.
    * **No value**: an expression has none where the call would end in an error, or where
      the language asks for more than the generated code needs, such as the text of a
      number.
-/

namespace TypedClient

/-- A value that the code computes with. -/
inductive Value (Data : Type) where
  | null
  | undefined
  | boolean (b : Bool)
  | text (chars : List Char)
  | list (items : List (Value Data))
  /-- A number, an object or a value of yet another kind. -/
  | other (data : Data)

/-- What the code finds around it. -/
structure Globals (Data : Type) where
  /-- What `String` makes of a value. -/
  string : Value Data → List Char
  /-- What `encodeURIComponent` makes of a value. -/
  encode : Value Data → List Char
  /-- Whether data of another kind counts as true. -/
  counts : Data → Bool

variable {Data : Type}

namespace Value

/-- Whether there is a value. -/
def isGiven : Value Data → Bool
  | .null | .undefined => false
  | _ => true

/-- Whether a value counts as true. -/
def isTrue (globals : Globals Data) : Value Data → Bool
  | .null | .undefined => false
  | .boolean b => b
  | .text chars => !chars.isEmpty
  | .list _ => true
  | .other data => globals.counts data

def text? : Value Data → Option (List Char)
  | .text chars => some chars
  | _ => none

def items? : Value Data → Option (List (Value Data))
  | .list items => some items
  | _ => none

end Value

/-- What is known of the names that the code declares: nothing of those that it does not
    declare, and no value of those that have none yet. -/
abbrev Scope (Data : Type) : Type :=
  List Char → Option (Option (Value Data))

namespace Scope

/-- The scope in which a name has a value, if it has one yet. -/
def declare (scope : Scope Data) (name : List Char) (value : Option (Value Data)) : Scope Data :=
  fun other => if other = name then some value else scope other

theorem declare_self (scope : Scope Data) (name : List Char) (value : Option (Value Data)) :
    scope.declare name value name = some value :=
  if_pos rfl

theorem declare_of_ne (scope : Scope Data) {name other : List Char} (h : other ≠ name)
    (value : Option (Value Data)) : scope.declare name value other = scope other :=
  if_neg h

end Scope

/-- A function that the code finds around it, applied to a value. -/
def Globals.apply (globals : Globals Data) (function : List Char)
    (argument : Value Data) : Option (Value Data) :=
  if function = "String".toList then some (.text (globals.string argument))
  else if function = "encodeURIComponent".toList then some (.text (globals.encode argument))
  else none

namespace Expression

mutual

/-- The value of an expression in a scope. -/
@[simp] def eval (globals : Globals Data) : Expression → Scope Data → Option (Value Data)
  | .null, _ => some .null
  | .literal body, _ => (Literal.text? body).map .text
  | .name text, scope => (scope text).bind id
  | .call function argument, scope => do
    let value ← argument.eval globals scope
    if (scope function).isSome then none else globals.apply function value
  | .conditional test whenTrue whenFalse, scope => do
    let value ← test.eval globals scope
    if value.isTrue globals then whenTrue.eval globals scope else whenFalse.eval globals scope
  | .both left right, scope => do
    let value ← left.eval globals scope
    if value.isTrue globals then right.eval globals scope else some value
  | .isGiven operand, scope => do
    let value ← operand.eval globals scope
    some (.boolean value.isGiven)
  | .differs left right, scope => do
    let first ← (← left.eval globals scope).text?
    let second ← (← right.eval globals scope).text?
    some (.boolean (first ≠ second))
  | .hasItems operand, scope => do
    let items ← (← operand.eval globals scope).items?
    some (.boolean (!items.isEmpty))
  | .append left right, scope => do
    let first ← (← left.eval globals scope).text?
    let second ← (← right.eval globals scope).text?
    some (.text (first ++ second))
  | .list items, scope => do
    let values ← evalEach globals items scope
    some (.list values)
  | .mapItems operand bound body, scope => do
    let items ← (← operand.eval globals scope).items?
    let values ← items.mapM (fun item => body.eval globals (scope.declare bound (some item)))
    some (.list values)
  | .onlyTrue operand, scope => do
    let items ← (← operand.eval globals scope).items?
    if (scope "Boolean".toList).isSome then none
    else some (.list (items.filter (fun item => item.isTrue globals)))
  | .joinItems operand separator, scope => do
    let items ← (← operand.eval globals scope).items?
    let texts ← items.mapM Value.text?
    let between ← Literal.text? separator
    some (.text (List.intercalate between texts))
  | .binding bound value body, scope => do
    let result ← value.eval globals (scope.declare bound none)
    body.eval globals (scope.declare bound (some result))

/-- The values of the items of a list. -/
@[simp] def evalEach (globals : Globals Data) : List Expression → Scope Data →
    Option (List (Value Data))
  | [], _ => some []
  | item :: rest, scope => do
    let value ← item.eval globals scope
    let values ← evalEach globals rest scope
    some (value :: values)

end

end Expression

/-- The text that stands in a template where the given code was: nothing, or an
    interpolation. -/
def interpolated (globals : Globals Data) (scope : Scope Data) :
    List Char → Option (List Char)
  | [] => some []
  | code => do
    let e ← CodeReader.readInterpolation code
    (← e.eval globals scope).text?

end TypedClient
