import TypedClient.Json.Position
import TypedClient.Json.Value

/-! # JSON trees with places

    What a text holds, as far as it can be made out, with the places that a
    reader of values may have to name:

    * **Broken** leaves stand where the text stops being JSON. A reader meets
      them in document order, after everything before them.
    * **Two faults**: a part that is skipped is looked at less closely than one
      that is read, so a broken leaf knows both what a reader and what a
      skipper would complain about.
    * **Resuming**: behind each item and member stands the place that a
      complaint about it is put at when it has no place of its own: behind the
      blanks and the closing bracket or comma that follow.
-/

namespace TypedClient.Json

mutual

/-- A value in a text. -/
inductive Located where
  /-- A null, and the place behind it. -/
  | null (stop : Position)
  /-- A truth value, and the place behind it. -/
  | bool (value : Bool) (stop : Position)
  /-- A number, unless it is too large to be read, and the place behind it. -/
  | number (value : Except Fault Number) (stop : Position)
  /-- A string, unless its escapes denote no text, and the place behind it. -/
  | string (value : Except Fault String) (stop : Position)
  /-- A list: its place, the fault of nesting too deep, and the items. -/
  | array (start : Position) (depth : Option Fault) (items : Items)
  /-- An object: its place, the fault of nesting too deep, and the members. -/
  | object (start : Position) (depth : Option Fault) (members : Members)
  /-- Nothing that could be read, or skipped. -/
  | broken (whenRead whenSkipped : Fault)

/-- The items of a list. -/
inductive Items where
  /-- The closing bracket, and the place behind it. -/
  | stop (place : Position)
  /-- An item, the place to resume at, and the items behind it. -/
  | item (value : Located) (resume : Position) (rest : Items)
  /-- Nothing that could be read, or skipped. -/
  | broken (whenRead whenSkipped : Fault)

/-- The members of an object. -/
inductive Members where
  /-- The closing brace, and the place behind it. -/
  | stop (place : Position)
  /-- A name, the place to resume at behind it, the value, the place to resume
      at behind that, and the members behind it. -/
  | member (name : Except Fault String) (afterName : Position) (value : Located)
      (resume : Position) (rest : Members)
  /-- Nothing that could be read, or skipped. -/
  | broken (whenRead whenSkipped : Fault)

end

/-- A whole text: its value and what is wrong behind it. -/
structure Source where
  root : Located
  /-- The fault behind the value. -/
  trailing : Option Fault

mutual

/-- The fault that skipping a value meets. -/
def Located.skip : Located → Except Fault Unit
  | .null _ => .ok ()
  | .bool _ _ => .ok ()
  | .number _ _ => .ok ()
  | .string _ _ => .ok ()
  | .array _ _ items => items.skip
  | .object _ _ members => members.skip
  | .broken _ whenSkipped => .error whenSkipped

/-- The fault that skipping items meets. -/
def Items.skip : Items → Except Fault Unit
  | .stop _ => .ok ()
  | .item value _ rest => do
    value.skip
    rest.skip
  | .broken _ whenSkipped => .error whenSkipped

/-- The fault that skipping members meets. -/
def Members.skip : Members → Except Fault Unit
  | .stop _ => .ok ()
  | .member _ _ value _ rest => do
    value.skip
    rest.skip
  | .broken _ whenSkipped => .error whenSkipped

end

end TypedClient.Json
