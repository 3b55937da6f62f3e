import TypedClient.Yaml.Tag

/-! # Tokens of a YAML text

    The pieces that a text falls into. Blocks, which are marked by indentation
    alone, have tokens for their starts and ends too.
-/

namespace TypedClient.Yaml

/-- How a scalar is written. -/
inductive ScalarStyle where
  /-- Without quotes. -/
  | plain
  /-- Between single quotes. -/
  | singleQuoted
  /-- Between double quotes. -/
  | doubleQuoted
  /-- As a block that keeps its lines. -/
  | literal
  /-- As a block that joins its lines. -/
  | folded
  deriving DecidableEq, Repr

/-- What a token is. -/
inductive TokenKind where
  /-- The version of the language. -/
  | version (major minor : Nat)
  /-- A handle and what it stands for. -/
  | handle (name target : List Char)
  /-- Three dashes. -/
  | documentStart
  /-- Three dots. -/
  | documentEnd
  /-- The start of a list in a block. -/
  | blockSequence
  /-- The start of a map in a block. -/
  | blockMapping
  /-- The end of a block. -/
  | blockEnd
  /-- An opening square bracket. -/
  | flowSequence
  /-- A closing square bracket. -/
  | flowSequenceEnd
  /-- An opening brace. -/
  | flowMapping
  /-- A closing brace. -/
  | flowMappingEnd
  /-- A dash. -/
  | blockEntry
  /-- A comma. -/
  | flowEntry
  /-- The start of a key. -/
  | key
  /-- The start of a value. -/
  | value
  /-- A star and a name. -/
  | alias (name : List Char)
  /-- An ampersand and a name. -/
  | anchor (name : List Char)
  /-- A tag. -/
  | tag (tag : WrittenTag)
  /-- A scalar. -/
  | scalar (style : ScalarStyle) (text : List Char)
  /-- The end of the text. -/
  | done

/-- A token and its place. -/
structure Token where
  /-- What it is. -/
  kind : TokenKind
  /-- Where it starts. -/
  start : Mark
  /-- Where it stops. -/
  stop : Mark

end TypedClient.Yaml
