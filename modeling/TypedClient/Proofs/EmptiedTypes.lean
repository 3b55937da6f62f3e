import TypedClient.Proofs.NameSets
import TypedClient.Proofs.ScannedTypes

/-! # Types with their literals emptied

    The scan of a text blanks out literals before it looks for names. In the text
    of a type that leaves the text of the same type with nothing in its literals.

    * **Literals** of a type are its allowed texts, the keys that are not bare,
      and the texts inside other values. None of them runs over into the code
      behind it, and none ends early.
    * **Names** stand in the rest of the text, with something around them that
      lets them start and end, wherever the type holds them.
-/

namespace TypedClient

namespace TypeExpr

mutual

/-- A type with its literals emptied. -/
def emptied : TypeExpr → TypeExpr
  | .stringLiteral _ => .stringLiteral ""
  | .literal text => .literal (String.ofList (Scan.blankLiterals text.toList))
  | .array item => .array item.emptied
  | .record value => .record value.emptied
  | .object fields => .object (emptiedFields fields)
  | .union members => .union (emptiedList members)
  | .intersection members => .intersection (emptiedList members)
  | type => type

/-- Types with their literals emptied. -/
def emptiedList : List TypeExpr → List TypeExpr
  | [] => []
  | type :: rest => type.emptied :: emptiedList rest

/-- Fields with their literals emptied: bare keys are none. -/
def emptiedFields : List Field → List Field
  | [] => []
  | { name, type, required, description } :: rest =>
    { name := if Name.isPlain name then name else ""
      type := type.emptied
      required, description } :: emptiedFields rest

end

/-- Emptying literals leaves the `|` of a type where it is. -/
theorem isUnion_emptied : (type : TypeExpr) → type.emptied.isUnion = type.isUnion
  | .union [] => rfl
  | .union [only] => isUnion_emptied only
  | .union (_ :: _ :: _) => rfl
  | .intersection _ => rfl
  | .string | .number | .boolean | .unknown | .any | .stringLiteral _ | .literal _ | .ref _
  | .array _ | .record _ | .object _ => rfl

theorem isCompound_emptied : (type : TypeExpr) → type.emptied.isCompound = type.isCompound
  | .union [] => rfl
  | .union [only] => isCompound_emptied only
  | .union (_ :: _ :: _) => rfl
  | .intersection [] => rfl
  | .intersection [only] => by
    show (only.emptied.isCompound && !only.emptied.isUnion) = (only.isCompound && !only.isUnion)
    rw [isCompound_emptied only, isUnion_emptied only]
  | .intersection (_ :: _ :: _) => rfl
  | .string | .number | .boolean | .unknown | .any | .stringLiteral _ | .literal _ | .ref _
  | .array _ | .record _ | .object _ => rfl

end TypeExpr

namespace Scan

open TypeExpr

variable {sources : List String} {s t : List Char}

/-! ### Blanking the pieces of a type -/

/-- A word of the language is no literal. -/
theorem blankLiterals_word (word : String) (h : Quoteless word.toList := by decide) :
    blankLiterals word.toList = word.toList :=
  blankLiterals_of_quoteless h

theorem blankLiterals_literalChars (s : List Char) :
    blankLiterals (Text.literalChars s) = Text.literalChars [] := by
  have hskips : Skips '\'' (s.flatMap Text.literalChar) := .flatMap (fun c _ => skips_literalChar c)
  rw [Text.literalChars, blankLiterals_literal (.inl rfl) hskips, blankLiterals_nil]
  rfl

theorem blankLiterals_keyChars (name : String) :
    blankLiterals (keyChars name) = keyChars (if Name.isPlain name then name else "") := by
  by_cases h : Name.isPlain name = true
  · rw [if_pos h, keyChars, if_pos h]
    exact blankLiterals_of_quoteless (quoteless_of_isPlain h)
  · rw [if_neg h, keyChars, if_neg h]
    exact blankLiterals_literalChars _

/-- What is around a neutral text stays as it is, if no quotes are in it. -/
theorem blankLiterals_surround (before : List Char) {after : List Char} (hbefore : Quoteless before)
    (hs : Neutral s) (hafter : Quoteless after) :
    blankLiterals (before ++ s ++ after) = before ++ blankLiterals s ++ after := by
  rw [List.append_assoc, Neutral.of_quoteless hbefore, hs, blankLiterals_of_quoteless hbefore,
    blankLiterals_of_quoteless hafter, List.append_assoc]

/-- A separator between two texts stays as it is. -/
theorem blankLiterals_separate (sep : List Char) (hs : Neutral s) (hsep : Quoteless sep) :
    blankLiterals (s ++ sep ++ t) = blankLiterals s ++ sep ++ blankLiterals t := by
  rw [hs.append (.of_quoteless hsep), hs, blankLiterals_of_quoteless hsep]

/-- A factor of an intersection keeps its brackets. -/
theorem blankLiterals_factor {factor : TypeExpr} {level : Nat}
    (hneutral : Neutral (factor.chars level))
    (h : blankLiterals (factor.chars level) = factor.emptied.chars level) :
    Neutral (if factor.isUnion then '(' :: factor.chars level ++ [')'] else factor.chars level)
      ∧ blankLiterals
          (if factor.isUnion then '(' :: factor.chars level ++ [')'] else factor.chars level)
        = if factor.emptied.isUnion then '(' :: factor.emptied.chars level ++ [')']
          else factor.emptied.chars level := by
  rw [isUnion_emptied, ← h]
  split
  · exact ⟨((neutral_char (c := '(') (by decide)).append hneutral).append
        (neutral_char (by decide)),
      blankLiterals_surround ['('] (by decide) hneutral (by decide)⟩
  · exact ⟨hneutral, rfl⟩

/-- The line of a field, with lines behind it. -/
theorem blankLiterals_field (name : String) {type : TypeExpr} (required : Bool) {level : Nat}
    (hneutral : Neutral (type.chars level))
    (h : blankLiterals (type.chars level) = type.emptied.chars level) :
    blankLiterals (indentation level ++ keyChars name ++ (if required then [] else ['?'])
        ++ ": ".toList ++ type.chars level ++ ";\n".toList ++ t)
      = indentation level ++ keyChars (if Name.isPlain name then name else "")
        ++ (if required then [] else ['?']) ++ ": ".toList ++ type.emptied.chars level
        ++ ";\n".toList ++ blankLiterals t := by
  have hindentation := quoteless_indentation level
  -- Of what is in front of the type, the key alone may be a literal.
  have hmark : Quoteless ((if required then [] else ['?']) ++ ": ".toList) := by
    cases required <;> decide
  have hkey := blankLiterals_surround _ hindentation (neutral_keyChars name) hmark
  have hfront : Neutral (indentation level ++ keyChars name
      ++ ((if required then [] else ['?']) ++ ": ".toList)) :=
    ((Neutral.of_quoteless hindentation).append (neutral_keyChars name)).append
      (.of_quoteless hmark)
  have htail := blankLiterals_separate (t := t) ";\n".toList hneutral (by decide)
  rw [List.append_assoc] at htail
  rw [blankLiterals_keyChars] at hkey
  rw [h] at htail
  simp only [List.append_assoc] at hfront hkey htail ⊢
  have hall := hfront (type.chars level ++ (";\n".toList ++ t))
  rw [hkey, htail] at hall
  simpa only [List.append_assoc] using hall

mutual

/-- **Blanking empties literals**: what the scan looks at in the text of a given
    type is the text of the type with its literals emptied. -/
theorem blankLiterals_chars : (type : TypeExpr) → type.Given sources → (level : Nat) →
    blankLiterals (type.chars level) = type.emptied.chars level
  | .string, _, _ => blankLiterals_word "string"
  | .number, _, _ => blankLiterals_word "number"
  | .boolean, _, _ => blankLiterals_word "boolean"
  | .unknown, _, _ => blankLiterals_word "unknown"
  | .any, _, _ => blankLiterals_word "any"
  | .stringLiteral text, _, _ => blankLiterals_literalChars text.toList
  -- Data stands alone here: whatever is blanked out of it, is so in any type.
  | .literal text, _, _ => (String.toList_ofList).symm
  | .ref name, h, _ => by
    obtain ⟨r, -, rfl⟩ := h.names name List.mem_cons_self
    exact blankLiterals_of_quoteless (quoteless_typeName r)
  | .array item, h, level => by
    have hitem := blankLiterals_chars item ⟨h.names, h.data⟩ level
    have hneutral := (reveals_chars item ⟨h.names, h.data⟩ level).neutral
    show blankLiterals (if item.isCompound then '(' :: item.chars level ++ ")[]".toList
        else item.chars level ++ "[]".toList)
      = if item.emptied.isCompound then '(' :: item.emptied.chars level ++ ")[]".toList
        else item.emptied.chars level ++ "[]".toList
    rw [isCompound_emptied, ← hitem]
    split
    · exact blankLiterals_surround ['('] (by decide) hneutral (by decide)
    · exact blankLiterals_surround [] (by decide) hneutral (by decide)
  | .record value, h, level => by
    have hvalue := blankLiterals_chars value ⟨h.names, h.data⟩ level
    have hneutral := (reveals_chars value ⟨h.names, h.data⟩ level).neutral
    show blankLiterals ("Record<string, ".toList ++ value.chars level ++ ['>'])
      = "Record<string, ".toList ++ value.emptied.chars level ++ ['>']
    rw [← hvalue]
    exact blankLiterals_surround _ (by decide) hneutral (by decide)
  | .object [], _, _ => blankLiterals_word "\x7b\x7d"
  | .object (f :: fields), h, level => by
    have hfields := blankLiterals_fieldsChars (f :: fields) (given_of_mem_fields h) (level + 1)
    have hneutral := (reveals_fieldsChars (f :: fields) (given_of_mem_fields h) (level + 1)).neutral
    -- The last line is the closing bracket with its indentation.
    have hend : Quoteless (indentation level ++ ['\x7d']) :=
      (quoteless_indentation level).append (by decide)
    have hall := blankLiterals_surround ['\x7b', '\n'] (by decide) hneutral hend
    rw [hfields, ← List.append_assoc, ← List.append_assoc] at hall
    obtain ⟨name, type, required, description⟩ := f
    exact hall
  | .union [], _, _ => blankLiterals_word "never"
  | .union (member :: members), h, level =>
    blankLiterals_unionChars (member :: members) (given_of_mem h) level
  | .intersection [], _, _ => blankLiterals_word "never"
  | .intersection (member :: members), h, level =>
    blankLiterals_intersectionChars (member :: members) (given_of_mem ⟨h.names, h.data⟩) level

theorem blankLiterals_unionChars : (members : List TypeExpr) →
    (∀ t ∈ members, t.Given sources) → (level : Nat) →
    blankLiterals (unionChars level members) = unionChars level (emptiedList members)
  | [], _, _ => blankLiterals_nil
  | [member], h, level => blankLiterals_chars member (h member List.mem_cons_self) level
  | member :: next :: rest, h, level => by
    have hmember := blankLiterals_chars member (h member List.mem_cons_self) level
    have hneutral := (reveals_chars member (h member List.mem_cons_self) level).neutral
    have hrest := blankLiterals_unionChars (next :: rest)
      (fun t ht => h t (List.mem_cons_of_mem _ ht)) level
    have hall := blankLiterals_separate (t := unionChars level (next :: rest)) " | ".toList
      hneutral (by decide)
    rw [hmember, hrest] at hall
    exact hall

theorem blankLiterals_intersectionChars : (factors : List TypeExpr) →
    (∀ t ∈ factors, t.Given sources) → (level : Nat) →
    blankLiterals (intersectionChars level factors)
      = intersectionChars level (emptiedList factors)
  | [], _, _ => blankLiterals_nil
  | [factor], h, level =>
    (blankLiterals_factor (reveals_chars factor (h factor List.mem_cons_self) level).neutral
      (blankLiterals_chars factor (h factor List.mem_cons_self) level)).2
  | factor :: next :: rest, h, level => by
    obtain ⟨hneutral, hfactor⟩ :=
      blankLiterals_factor (reveals_chars factor (h factor List.mem_cons_self) level).neutral
        (blankLiterals_chars factor (h factor List.mem_cons_self) level)
    have hrest := blankLiterals_intersectionChars (next :: rest)
      (fun t ht => h t (List.mem_cons_of_mem _ ht)) level
    have hall := blankLiterals_separate (t := intersectionChars level (next :: rest)) " & ".toList
      hneutral (by decide)
    rw [hfactor, hrest] at hall
    exact hall

/-- The lines of fields. -/
theorem blankLiterals_fieldsChars : (fields : List Field) →
    (∀ f ∈ fields, f.type.Given sources) → (level : Nat) →
    blankLiterals (fieldsChars level fields) = fieldsChars level (emptiedFields fields)
  | [], _, _ => blankLiterals_nil
  | ⟨name, type, required, description⟩ :: rest, h, level => by
    have htype := blankLiterals_chars type (h _ List.mem_cons_self) level
    have hneutral := (reveals_chars type (h _ List.mem_cons_self) level).neutral
    have hrest := blankLiterals_fieldsChars rest
      (fun f hf => h f (List.mem_cons_of_mem _ hf)) level
    have hall := blankLiterals_field (t := fieldsChars level rest) name required hneutral htype
    rw [hrest] at hall
    exact hall

end

/-! ### Names of a resolved type -/

/-- A type name that starts with a capital is a capitalized word. -/
theorem isCapitalized_typeName {r : String}
    (h : ∃ c ∈ (Name.typeName r).toList.head?, c.isUpper = true) :
    IsCapitalized (Name.typeName r).toList := by
  obtain ⟨c, rest, hchars, -, hrest⟩ := Name.exists_typeChars_eq r.toList
  rw [Name.typeName, String.toList_ofList, hchars] at h ⊢
  obtain ⟨d, hd, hupper⟩ := h
  obtain rfl : c = d := by simpa using hd
  exact ⟨c, rest, rfl, hupper, hrest⟩

/-- **Types are scanned**: in the text of the type of a schema the scan finds the
    declared names that stand in the text of the type with its literals emptied,
    whatever the literals are. Every capitalized name of the type stands there. -/
theorem types_scanned (s : Schema) (definitions : Definitions) :
    (∀ name, name ∈ mentions s.resolve.render definitions
        ↔ name ∈ definitions.typeNames ∧ Stands name.toList s.resolve.emptied.render.toList)
      ∧ ∀ name ∈ s.resolve.refs, (∃ c ∈ name.toList.head?, c.isUpper = true) →
          name ∈ definitions.typeNames → name ∈ mentions s.resolve.render definitions := by
  have hgiven := Schema.given_resolve s
  refine ⟨fun name => ?_, fun name hname hupper hdeclared => ?_⟩
  · rw [mem_mentions, Definitions.declares_iff, render, String.toList_ofList, render,
      String.toList_ofList, blankLiterals_chars s.resolve hgiven 0]
  · -- A name of the type is a type name, so it is a word as a whole.
    obtain ⟨r, -, rfl⟩ := hgiven.names name hname
    have hcap := isCapitalized_typeName hupper
    have hshows := (reveals_chars s.resolve hgiven 0).shows _ hname hcap
    rw [mem_mentions, Definitions.declares_iff, render, String.toList_ofList]
    exact ⟨hdeclared, hcap, .inl hshows⟩

-- A key in quotes in front of a name, and a text that would run over if its
-- backslash did.
example :
    (Schema.resolve
      { properties := [("it's", { reference := some "#/definitions/pet" }),
          ("note", { enumeration := [.string "\\' Team"] })] }).emptied.render
      = "\x7b\n  ''?: Pet;\n  note?: '';\n\x7d" := by
  decide +kernel

end Scan

end TypedClient
