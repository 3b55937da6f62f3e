/-! # Identifiers

    What may stand as a bare name in the generated code:

    * **Shape**: `IsPlain` texts start with an ASCII letter, `_` or `$` and go
      on with those and digits.
    * **Reserved words**: names of the right shape that the language keeps for
      itself.
-/

namespace TypedClient.Name

/-- The characters that a bare name may start with. -/
def isInitial (c : Char) : Bool :=
  c.isAlpha || c == '_' || c == '$'

/-- The characters that a bare name may go on with. -/
def isFollowing (c : Char) : Bool :=
  c.isAlphanum || c == '_' || c == '$'

/-- Whether a text can be written as a bare name. -/
def isPlainChars : List Char → Bool
  | [] => false
  | c :: r => isInitial c && r.all isFollowing

theorem isPlainChars_cons {c : Char} {r : List Char} :
    isPlainChars (c :: r) = true ↔ isInitial c = true ∧ ∀ d ∈ r, isFollowing d = true := by
  rw [isPlainChars, Bool.and_eq_true, List.all_eq_true]

/-- Whether a text can be written as a bare name. -/
def isPlain (s : String) : Bool :=
  isPlainChars s.toList

/-- The words that cannot name a parameter. -/
def reservedWords : List String :=
  ["break", "case", "catch", "class", "const", "continue", "debugger", "default", "delete", "do",
   "else", "enum", "export", "extends", "false", "finally", "for", "function", "if", "import",
   "in", "instanceof", "new", "null", "return", "super", "switch", "this", "throw", "true", "try",
   "typeof", "var", "void", "while", "with", "let", "static", "yield", "await", "implements",
   "interface", "package", "private", "protected", "public", "arguments", "eval"]

/-- Whether a text is one of the reserved words. -/
def isReserved (s : List Char) : Bool :=
  reservedWords.any (fun word => word.toList == s)

end TypedClient.Name
