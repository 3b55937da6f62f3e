import TypedClient.Proofs.Characters
import TypedClient.Proofs.LiteralReading
import TypedClient.TypeExpr.Rendering

/-! # Quoted names

    Texts of a document stand in the generated types as literals, and the names of
    fields as keys, bare or quoted.

    * **Keys**: a bare key denotes itself, a quoted one the text that its body spells.
    * **One or the other**: what starts with a quote is no bare key, so a text denotes
      one key at most.
    * **Names**: the key that is written for a name denotes that name. So two names
      never meet, even if one of them is the quoted text of the other.
-/

namespace TypedClient

/-- What the text of a **key** denotes. -/
inductive DenotesKey : List Char → List Char → Prop where
  /-- A name that may stand bare. -/
  | bare {c : Char} {r : List Char} (hinitial : Name.isInitial c = true)
    (hfollowing : ∀ d ∈ r, Name.isFollowing d = true) : DenotesKey (c :: r) (c :: r)
  /-- A literal. -/
  | quoted {body value : List Char} (hbody : Literal.Spells body value) :
    DenotesKey ('\'' :: body ++ ['\'']) value

namespace DenotesKey

variable {text key other : List Char}

theorem of_isPlainChars (h : Name.isPlainChars text = true) : DenotesKey text text := by
  cases text with
  | nil => cases h
  | cons c r =>
    obtain ⟨hinitial, hfollowing⟩ := Name.isPlainChars_cons.1 h
    exact .bare hinitial hfollowing

/-- A text that starts with a quote is no bare key. -/
theorem exists_spells (h : DenotesKey ('\'' :: text) key) :
    ∃ body, text = body ++ ['\''] ∧ Literal.Spells body key := by
  generalize hquoted : '\'' :: text = quotedText at h
  cases h with
  | bare hinitial _ =>
    obtain ⟨rfl, -⟩ := List.cons.inj hquoted
    exact absurd hinitial (by decide)
  | quoted hbody => exact ⟨_, (List.cons.inj hquoted).2, hbody⟩

/-- **One key**: a text denotes one key at most. -/
theorem unique (h : DenotesKey text key) (hother : DenotesKey text other) : key = other := by
  -- No name starts with a quote, so both readings are of one kind.
  cases h with
  | bare hinitial _ =>
    cases hother with
    | bare _ _ => rfl
    | quoted _ => exact absurd hinitial (by decide)
  | quoted hbody =>
    obtain ⟨body, hsame, hspells⟩ := exists_spells hother
    obtain ⟨rfl, -⟩ := List.append_inj' hsame rfl
    exact hbody.unique hspells

end DenotesKey

/-- The key that is written for a name denotes that name, bare or quoted. -/
theorem denotesKey_keyChars (name : String) : DenotesKey (keyChars name) name.toList := by
  unfold keyChars
  split
  · rename_i hplain
    exact .of_isPlainChars hplain
  · exact .quoted (Literal.spells_literal name.toList)

/-- A literal stands on one line, its quotes included. -/
theorem isLineEnd_of_mem_literalChars {s : List Char} {c : Char}
    (h : c ∈ Text.literalChars s) : Literal.isLineEnd c = false := by
  rw [Text.literalChars, List.cons_append, List.mem_cons, List.mem_append,
    List.mem_singleton] at h
  rcases h with rfl | hbody | rfl
  · decide
  · exact (Literal.spells_literal s).isLineEnd_eq_false c hbody
  · decide

/-- **Literals and keys**: the literal of a text is a quote, a body and a quote on one
    line. The body spells the text and nothing else, and a reader stops behind it. The
    key of a name denotes the name and nothing else, so the keys of two names denote
    the same only if the names are the same. -/
theorem literals_and_keys_exact :
    (∀ s : String, ∃ body, (Text.literal s).toList = '\'' :: body ++ ['\'']
        ∧ (∀ c ∈ (Text.literal s).toList, Literal.isLineEnd c = false)
        ∧ (∀ value, Literal.Spells body value ↔ value = s.toList)
        ∧ ∀ rest, Literal.read (body ++ '\'' :: rest) = some (s.toList, rest))
      ∧ (∀ (name : String) (key : List Char),
          DenotesKey (propertyKey name).toList key ↔ key = name.toList)
      ∧ ∀ name other : String,
          (∃ key, DenotesKey (propertyKey name).toList key
            ∧ DenotesKey (propertyKey other).toList key) ↔ name = other := by
  have hkey : ∀ (name : String) (key : List Char),
      DenotesKey (propertyKey name).toList key ↔ key = name.toList := by
    intro name key
    rw [propertyKey, String.toList_ofList]
    constructor
    · intro hdenotes
      exact hdenotes.unique (denotesKey_keyChars name)
    · rintro rfl
      exact denotesKey_keyChars name
  refine ⟨?_, hkey, ?_⟩
  · intro s
    have hchars : (Text.literal s).toList = Text.literalChars s.toList := String.toList_ofList
    refine ⟨s.toList.flatMap Text.literalChar, hchars, ?_, ?_, Literal.read_literal s.toList⟩
    · intro c hc
      rw [hchars] at hc
      exact isLineEnd_of_mem_literalChars hc
    · intro value
      constructor
      · intro hspells
        exact hspells.unique (Literal.spells_literal s.toList)
      · rintro rfl
        exact Literal.spells_literal s.toList
  · intro name other
    constructor
    · rintro ⟨key, hname, hother⟩
      have hsame := ((hkey name key).1 hname).symm.trans ((hkey other key).1 hother)
      exact String.toList_inj.1 hsame
    · rintro rfl
      exact ⟨name.toList, (hkey name _).2 rfl, (hkey name _).2 rfl⟩

-- A bare key, and the key of the text that quotes it.
example : propertyKey "id" = "id" := by decide +kernel
example : propertyKey "'id'" = "'\\'id\\''" := by decide +kernel

end TypedClient
