import Mathlib.Data.List.Chain
import TypedClient.Package.Expression

/-! # Lexemes of the generated code

    The text of an expression, cut into the smallest pieces that mean something, and
    the blanks between them.

    * **Text**: the lexemes of an expression one after the other are its text.
    * **Apart**: words and operators are told apart by what stands between them, so of
      two lexemes in a row one is neither.
-/

namespace TypedClient

/-- A piece of the generated code. -/
inductive Lexeme where
  /-- A name, a keyword or a number. -/
  | word (text : List Char)
  /-- A literal, by what stands between its quotes. -/
  | literal (body : List Char)
  /-- A bracket, a dot, a comma or a semicolon. -/
  | mark (c : Char)
  | operator (symbol : List Char)
  | blank
  deriving DecidableEq

namespace Lexeme

/-- The text of a lexeme. -/
@[simp] def chars : Lexeme → List Char
  | .word text => text
  | .literal body => '\'' :: body ++ ['\'']
  | .mark c => [c]
  | .operator symbol => symbol
  | .blank => [' ']

/-- Whether a lexeme ends where it ends, whatever stands behind it. -/
@[simp] def isLoose : Lexeme → Bool
  | .word _ => false
  | .operator _ => false
  | _ => true

/-- Whether two lexemes are told apart. -/
@[simp] def Apart (first second : Lexeme) : Prop :=
  first.isLoose = true ∨ second.isLoose = true

/-- A literal stands in the text of the lexemes that it is one of. -/
theorem literal_infix {lexemes : List Lexeme} {body : List Char}
    (h : .literal body ∈ lexemes) : '\'' :: body ++ ['\''] <:+: lexemes.flatMap chars := by
  obtain ⟨before, after, rfl⟩ := List.append_of_mem h
  rw [List.flatMap_append, List.flatMap_cons]
  exact ⟨before.flatMap chars, after.flatMap chars, List.append_assoc _ _ _⟩

end Lexeme

namespace Expression

open Lexeme (word mark operator blank)

/-- An operator with blanks around it. -/
@[simp] def spaced (symbol : String) : List Lexeme :=
  [blank, operator symbol.toList, blank]

mutual

/-- The lexemes of an expression. -/
def lexemes : Expression → List Lexeme
  | .null => [word "null".toList]
  | .literal body => [.literal body]
  | .name text => [word text]
  | .call function argument => word function :: mark '(' :: argument.lexemes ++ [mark ')']
  | .conditional test whenTrue whenFalse =>
    test.lexemes ++ spaced "?" ++ whenTrue.lexemes ++ spaced ":" ++ whenFalse.lexemes
  | .both left right => left.lexemes ++ spaced "&&" ++ right.lexemes
  | .isGiven operand => operand.lexemes ++ spaced "!=" ++ [word "null".toList]
  | .differs left right => left.lexemes ++ spaced "!==" ++ right.lexemes
  | .hasItems operand =>
    operand.lexemes ++ mark '.' :: word "length".toList :: spaced ">" ++ [word "0".toList]
  | .append left right => left.lexemes ++ spaced "+" ++ right.lexemes
  | .list items => mark '[' :: listLexemes items ++ [mark ']']
  | .mapItems operand bound body =>
    operand.lexemes ++ mark '.' :: word "map".toList :: mark '(' :: mark '(' :: word bound
      :: mark ')' :: spaced "=>" ++ body.lexemes ++ [mark ')']
  | .onlyTrue operand =>
    operand.lexemes
      ++ [mark '.', word "filter".toList, mark '(', word "Boolean".toList, mark ')']
  | .joinItems operand separator =>
    operand.lexemes ++ [mark '.', word "join".toList, mark '(', .literal separator, mark ')']
  | .binding bound value body =>
    mark '(' :: mark '(' :: mark ')' :: spaced "=>"
      ++ mark '\x7b' :: blank :: word "const".toList :: blank :: word bound :: spaced "="
      ++ value.lexemes ++ mark ';' :: blank :: word "return".toList :: blank :: body.lexemes
      ++ [mark ';', blank, mark '\x7d', mark ')', mark '(', mark ')']

/-- The lexemes of the items of a list, with commas between them. -/
def listLexemes : List Expression → List Lexeme
  | [] => []
  | [item] => item.lexemes
  | item :: next :: rest => item.lexemes ++ mark ',' :: blank :: listLexemes (next :: rest)

end

/-! ### Text -/

mutual

/-- **The text** of an expression is that of its lexemes. -/
theorem flatMap_lexemes : (e : Expression) → e.lexemes.flatMap Lexeme.chars = e.chars
  | .null => List.append_nil _
  | .literal body => List.append_nil _
  | .name text => List.append_nil _
  | .call function argument => by
    show _ = function ++ '(' :: argument.chars ++ [')']
    simp [lexemes, flatMap_lexemes argument]
  | .conditional test whenTrue whenFalse => by
    show _ = test.chars ++ " ? ".toList ++ whenTrue.chars ++ " : ".toList ++ whenFalse.chars
    simp [lexemes, flatMap_lexemes test, flatMap_lexemes whenTrue,
      flatMap_lexemes whenFalse]
  | .both left right => by
    show _ = left.chars ++ " && ".toList ++ right.chars
    simp [lexemes, flatMap_lexemes left, flatMap_lexemes right]
  | .isGiven operand => by
    show _ = operand.chars ++ " != null".toList
    simp [lexemes, flatMap_lexemes operand]
  | .differs left right => by
    show _ = left.chars ++ " !== ".toList ++ right.chars
    simp [lexemes, flatMap_lexemes left, flatMap_lexemes right]
  | .hasItems operand => by
    show _ = operand.chars ++ ".length > 0".toList
    simp [lexemes, flatMap_lexemes operand]
  | .append left right => by
    show _ = left.chars ++ " + ".toList ++ right.chars
    simp [lexemes, flatMap_lexemes left, flatMap_lexemes right]
  | .list items => by
    show _ = '[' :: listChars items ++ [']']
    simp [lexemes, flatMap_listLexemes items]
  | .mapItems operand bound body => by
    show _ = operand.chars ++ ".map((".toList ++ bound ++ ") => ".toList ++ body.chars ++ [')']
    simp [lexemes, flatMap_lexemes operand, flatMap_lexemes body]
  | .onlyTrue operand => by
    show _ = operand.chars ++ ".filter(Boolean)".toList
    simp [lexemes, flatMap_lexemes operand]
  | .joinItems operand separator => by
    show _ = operand.chars ++ ".join('".toList ++ separator ++ "')".toList
    simp [lexemes, flatMap_lexemes operand]
  | .binding bound value body => by
    show _ = "(() => \x7b const ".toList ++ bound ++ " = ".toList ++ value.chars
      ++ "; return ".toList ++ body.chars ++ "; \x7d)()".toList
    simp [lexemes, flatMap_lexemes value, flatMap_lexemes body]

theorem flatMap_listLexemes : (items : List Expression) →
    (listLexemes items).flatMap Lexeme.chars = listChars items
  | [] => rfl
  | [item] => flatMap_lexemes item
  | item :: next :: rest => by
    show _ = item.chars ++ ", ".toList ++ listChars (next :: rest)
    simp [listLexemes, flatMap_lexemes item, flatMap_listLexemes (next :: rest)]

end

/-! ### Lexemes apart -/

mutual

/-- Every two lexemes in a row are told apart. -/
theorem isChain_lexemes : (e : Expression) → List.IsChain Lexeme.Apart e.lexemes
  | .null => List.isChain_singleton _
  | .literal _ => List.isChain_singleton _
  | .name _ => List.isChain_singleton _
  | .call _ argument => by
    simp [lexemes, List.isChain_cons, List.isChain_append, isChain_lexemes argument]
  | .conditional test whenTrue whenFalse => by
    simp [lexemes, List.isChain_cons, List.isChain_append, isChain_lexemes test,
      isChain_lexemes whenTrue, isChain_lexemes whenFalse]
  | .both left right => by
    simp [lexemes, List.isChain_cons, List.isChain_append, isChain_lexemes left,
      isChain_lexemes right]
  | .isGiven operand => by
    simp [lexemes, List.isChain_cons, List.isChain_append, isChain_lexemes operand]
  | .differs left right => by
    simp [lexemes, List.isChain_cons, List.isChain_append, isChain_lexemes left,
      isChain_lexemes right]
  | .hasItems operand => by
    simp [lexemes, List.isChain_cons, List.isChain_append, isChain_lexemes operand]
  | .append left right => by
    simp [lexemes, List.isChain_cons, List.isChain_append, isChain_lexemes left,
      isChain_lexemes right]
  | .list items => by
    simp [lexemes, List.isChain_cons, List.isChain_append, isChain_listLexemes items]
  | .mapItems operand _ body => by
    simp [lexemes, List.isChain_cons, List.isChain_append, isChain_lexemes operand,
      isChain_lexemes body]
  | .onlyTrue operand => by
    simp [lexemes, List.isChain_cons, List.isChain_append, isChain_lexemes operand]
  | .joinItems operand _ => by
    simp [lexemes, List.isChain_cons, List.isChain_append, isChain_lexemes operand]
  | .binding _ value body => by
    simp [lexemes, List.isChain_cons, List.isChain_append, isChain_lexemes value,
      isChain_lexemes body]

theorem isChain_listLexemes : (items : List Expression) →
    List.IsChain Lexeme.Apart (listLexemes items)
  | [] => List.isChain_nil
  | [item] => isChain_lexemes item
  | item :: next :: rest => by
    simp [listLexemes, List.isChain_cons, List.isChain_append, isChain_lexemes item,
      isChain_listLexemes (next :: rest)]

end

end Expression

end TypedClient
