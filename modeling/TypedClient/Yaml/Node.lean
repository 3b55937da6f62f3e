import TypedClient.Yaml.Token

/-! # YAML trees

    What a text holds, as a tree whose leaves may be aliases.

    * **Anchors** give nodes numbers. An alias stands for the last node with its
      number, which may be a node around it or behind it.
    * **Tags** are kept as they are; what they mean is up to the reader.
-/

namespace TypedClient.Yaml

/-- A scalar. -/
structure Scalar where
  /-- Its tag. -/
  tag : Option String := none
  /-- How it is written. -/
  style : ScalarStyle := .plain
  /-- Its text. -/
  text : String := ""

/-- A node of a tree. -/
inductive Node where
  /-- A scalar. -/
  | scalar (mark : Mark) (anchor : Option Nat) (value : Scalar)
  /-- A list. -/
  | sequence (mark : Mark) (anchor : Option Nat) (tag : Option String) (items : List Node)
  /-- A map. -/
  | mapping (mark : Mark) (anchor : Option Nat) (tag : Option String)
      (entries : List (Node × Node))
  /-- Whatever node has a number. -/
  | alias (number : Nat)

/-- The node that stands where nothing is written. -/
def Node.empty (mark : Mark) : Node :=
  .scalar mark none {}

namespace Node

mutual

/-- The number of pieces that a node is made of; collections count twice. -/
def size : Node → Nat
  | .scalar _ _ _ => 1
  | .sequence _ _ _ items => sizeItems items + 2
  | .mapping _ _ _ entries => sizeEntries entries + 2
  | .alias _ => 1

/-- The number of pieces of items. -/
def sizeItems : List Node → Nat
  | [] => 0
  | item :: rest => item.size + sizeItems rest

/-- The number of pieces of entries. -/
def sizeEntries : List (Node × Node) → Nat
  | [] => 0
  | (key, value) :: rest => key.size + value.size + sizeEntries rest

end

/-- A node under its number, if it has one. -/
def numbered (anchor : Option Nat) (node : Node) : List (Nat × Node) :=
  match anchor with
  | some number => [(number, node)]
  | none => []

mutual

/-- The nodes with numbers, in reading order. -/
def anchored : Node → List (Nat × Node)
  | .scalar mark anchor value => numbered anchor (.scalar mark anchor value)
  | .sequence mark anchor tag items =>
    numbered anchor (.sequence mark anchor tag items) ++ anchoredItems items
  | .mapping mark anchor tag entries =>
    numbered anchor (.mapping mark anchor tag entries) ++ anchoredEntries entries
  | .alias _ => []

/-- The nodes with numbers among items. -/
def anchoredItems : List Node → List (Nat × Node)
  | [] => []
  | item :: rest => item.anchored ++ anchoredItems rest

/-- The nodes with numbers among entries. -/
def anchoredEntries : List (Node × Node) → List (Nat × Node)
  | [] => []
  | (key, value) :: rest => key.anchored ++ value.anchored ++ anchoredEntries rest

end

end Node

end TypedClient.Yaml
