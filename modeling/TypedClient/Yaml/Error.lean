import TypedClient.Mismatch
import TypedClient.Yaml.Cursor

/-! # Errors of YAML texts

    * **Places** are a mark and a path of keys. The start of a text is not
      worth naming, and neither is the root.
    * **Limits**: collections may be nested only so deep, and aliases followed
      only so often.
-/

namespace TypedClient.Yaml

/-- The way from the root to a node. -/
inductive Path where
  /-- No way at all. -/
  | root
  /-- To the value of a key. -/
  | member (parent : Path) (key : String)
  /-- To an item. -/
  | item (parent : Path) (index : Nat)
  /-- To the value of a key that is no scalar. -/
  | unnamed (parent : Path)

namespace Path

/-- The text of a path. -/
def text : Path → String
  | .root => "."
  | .member .root key => key
  | .member parent key => parent.text ++ "." ++ key
  | .item parent index =>
    parent.text ++ "[" ++ String.ofList (Decimal.natChars index) ++ "]"
  | .unnamed .root => "?"
  | .unnamed parent => parent.text ++ ".?"

end Path

/-- Why a text is refused. -/
inductive Error where
  /-- It is not the YAML of one document. -/
  | unloadable
  /-- It is YAML of another shape. -/
  | mismatch (mismatch : Mismatch) (mark : Mark) (path : Path)
  /-- Too many collections are inside each other. -/
  | tooDeep (mark : Mark)
  /-- Too many aliases have been followed. -/
  | tooManyAliases

/-- The words of YAML for what it finds. -/
def wording : Wording :=
  ⟨"unit value", Decimal.proseText⟩

/-- The words for a place, counted from one. -/
def Mark.words (m : Mark) : String :=
  if m.line = 0 ∧ m.column = 0 then ""
  else
    " at line " ++ String.ofList (Decimal.natChars (m.line + 1))
      ++ " column " ++ String.ofList (Decimal.natChars (m.column + 1))

/-- The words that lead to a path. -/
def Path.words (p : Path) : String :=
  if p.text = "." then "" else p.text ++ ": "

/-- The wording of an error; a text that is no YAML is refused without a word. -/
def Error.message? : Error → Option String
  | .unloadable => none
  | .mismatch why mark path =>
    some (path.words ++ why.message wording ++ mark.words)
  | .tooDeep mark => some ("recursion limit exceeded" ++ mark.words)
  | .tooManyAliases => some "repetition limit exceeded"

end TypedClient.Yaml
