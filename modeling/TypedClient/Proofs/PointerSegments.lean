import Mathlib.Data.List.Basic
import TypedClient.Client.Declaration
import TypedClient.Proofs.NameWords
import TypedClient.Proofs.ReferenceChains
import TypedClient.Proofs.TrackedTypes

/-! # References written as pointers

    A pointer into a document writes a key as one of its segments, in which `~`
    and `/` stand for something else than themselves. A reference is not read as
    a pointer: its last segment is taken as it is.

    * **Plain** keys are written as they are, so their references reach them.
    * **Digits** tell all others apart: each of their marks is written with a digit
      more, and the type name of a text keeps all digits.
-/

namespace TypedClient

/-! ### Segments -/

namespace Name

/-- A character of a key as a pointer writes it. -/
def pointerMark : Char → List Char
  | '~' => ['~', '0']
  | '/' => ['~', '1']
  | c => [c]

/-- A key as a segment of a pointer. -/
def pointerSegment (key : String) : String :=
  String.ofList (key.toList.flatMap pointerMark)

/-- Whether a pointer writes a character as it is. -/
def isPlainMark (c : Char) : Bool :=
  c ≠ '~' && c ≠ '/'

/-- A key is **plain** if a pointer writes it as it is. -/
def IsPlain (key : String) : Prop :=
  ∀ c ∈ key.toList, isPlainMark c = true

instance (key : String) : Decidable (IsPlain key) :=
  inferInstanceAs (Decidable (∀ c ∈ key.toList, isPlainMark c = true))

theorem pointerMark_of_plain {c : Char} (h : isPlainMark c = true) : pointerMark c = [c] := by
  have hne : c ≠ '~' ∧ c ≠ '/' := by simpa [isPlainMark] using h
  unfold pointerMark
  split
  · exact absurd rfl hne.1
  · exact absurd rfl hne.2
  · rfl

/-- No segment holds a slash. -/
theorem slash_not_mem_pointerSegment (key : String) : '/' ∉ (pointerSegment key).toList := by
  rw [pointerSegment, String.toList_ofList]
  intro hmem
  obtain ⟨c, -, hc⟩ := List.mem_flatMap.1 hmem
  unfold pointerMark at hc
  split at hc
  · exact absurd hc (by decide)
  · exact absurd hc (by decide)
  · rename_i hslash
    exact hslash (List.mem_singleton.1 hc).symm

theorem pointerSegment_of_plain {key : String} (h : IsPlain key) : pointerSegment key = key := by
  rw [pointerSegment, ← String.toList_inj, String.toList_ofList]
  calc key.toList.flatMap pointerMark
      = key.toList.flatMap (fun c => [c]) :=
        List.flatMap_congr fun c hc => pointerMark_of_plain (h c hc)
    _ = key.toList := List.flatMap_singleton' _

/-! ### Digits -/

/-- A mark that is not plain is written with a digit behind it. -/
theorem countP_isDigit_pointerMark (c : Char) :
    (pointerMark c).countP Char.isDigit
      = [c].countP Char.isDigit + [c].countP (fun c => !isPlainMark c) := by
  by_cases hplain : isPlainMark c = true
  · rw [pointerMark_of_plain hplain, List.countP_singleton, List.countP_singleton]
    simp [hplain]
  · have hmark : c = '~' ∨ c = '/' := by
      simpa [isPlainMark, or_iff_not_imp_left] using hplain
    rcases hmark with rfl | rfl <;> decide

/-- A segment has the digits of its key, and one more for each mark that is not
    plain. -/
theorem countP_isDigit_pointerSegment (key : String) :
    (pointerSegment key).toList.countP Char.isDigit
      = key.toList.countP Char.isDigit + key.toList.countP (fun c => !isPlainMark c) := by
  rw [pointerSegment, String.toList_ofList]
  induction key.toList with
  | nil => rfl
  | cons c r ih =>
    have hsplit : ∀ q : Char → Bool, (c :: r).countP q = [c].countP q + r.countP q := by
      intro q
      rw [← List.countP_append, List.singleton_append]
    rw [List.flatMap_cons, List.countP_append, ih, countP_isDigit_pointerMark, hsplit, hsplit]
    omega

theorem isDigit_toLower (c : Char) : c.toLower.isDigit = c.isDigit := by
  cases h : c.isUpper with
  | true =>
    exact of_ascii (fun d => d.toLower.isDigit = d.isDigit) (by decide +kernel)
      (toNat_lt_of_isAlphanum (isAlphanum_of_isUpper h))
  | false => rw [toLower_of_isUpper_eq_false h]

/-- The type name of a text has as many digits as the text. -/
theorem countP_isDigit_typeChars (s : List Char) :
    (typeChars s).countP Char.isDigit = s.countP Char.isDigit := by
  have hpass : (pascalPass (pascalPass s)).countP Char.isDigit = s.countP Char.isDigit := by
    have hcase : ∀ t : List Char,
        (t.map Char.toLower).countP Char.isDigit = t.countP Char.isDigit := by
      intro t
      rw [List.countP_map]
      exact List.countP_congr fun c _ => by rw [Function.comp_apply, isDigit_toLower]
    have hkept : (s.filter Char.isAlphanum).countP Char.isDigit = s.countP Char.isDigit := by
      rw [List.countP_filter]
      refine List.countP_congr fun c _ => ?_
      rw [Bool.and_eq_true]
      exact and_iff_left_of_imp isAlphanum_of_isDigit
    rw [← hcase, map_toLower_pascalPass_pascalPass, hcase, hkept]
  rw [← hpass, typeChars]
  split
  · rename_i hnil
    rw [hnil]
    decide
  · rename_i c r hcons
    rw [hcons]
    split
    · exact List.countP_cons_of_neg (by decide)
    · rfl

/-- **Told apart**: a segment has the type name of its key only if that is plain. -/
theorem typeName_pointerSegment_eq_iff {key : String} :
    typeName (pointerSegment key) = typeName key ↔ IsPlain key := by
  refine ⟨fun h => ?_, fun h => by rw [pointerSegment_of_plain h]⟩
  have hchars : typeChars (pointerSegment key).toList = typeChars key.toList :=
    String.ofList_injective h
  have hdigits := congrArg (List.countP Char.isDigit) hchars
  rw [countP_isDigit_typeChars, countP_isDigit_typeChars, countP_isDigit_pointerSegment] at hdigits
  have hnone : key.toList.countP (fun c => !isPlainMark c) = 0 := by omega
  intro c hc
  simpa using List.countP_eq_zero.1 hnone c hc

end Name

/-! ### References -/

namespace Schema

open Name (PointsAt IsPlain pointerSegment)

variable {definitions : Definitions} {key reference : String} {s schema next : Schema}

/-- The reference to a definition, written as a pointer. -/
def pointerTo (key : String) : String :=
  "#/definitions/" ++ pointerSegment key

/-- A schema **reaches** the definition of a key if its type is the one that the key
    declares, it mentions that name, and following it leads into the schema of the
    key. -/
structure Reaches (definitions : Definitions) (s : Schema) (key : String) (schema : Schema) :
    Prop where
  type : s.resolve = .ref (schema.declaration key).name.pascal
  mentioned : s.mentions definitions = [(schema.declaration key).name.pascal]
  /-- The schema of the key is the first to be come to. -/
  leads : RefersTo definitions s schema
  followed : s.follow? definitions = schema.follow? definitions

theorem resolve_ofReference (h : PointsAt reference key) :
    (ofReference reference).resolve = .ref (Name.typeName key) := by
  rw [← Name.referenceName_eq_iff.2 h]
  rfl

theorem mentions_ofReference (h : PointsAt reference key) :
    (ofReference reference).mentions definitions
      = if key ∈ definitions.keys then [Name.typeName key] else [] := by
  have hreferences : (ofReference reference).references = [key] := by
    rw [← Name.referenceName_eq_iff.2 h]
    rfl
  have hkept : [key].filter (fun name => definitions.contains name)
      = if key ∈ definitions.keys then [key] else [] := by
    simp only [List.filter_cons, Table.contains_iff_mem_keys, List.filter_nil]
  rw [mentions, hreferences, hkept]
  split <;> rfl

/-- Whatever points at a key that is there reaches its definition. -/
theorem reaches_of_pointsAt (hkeys : definitions.keys.Nodup)
    (hfound : definitions.find? key = some schema) (h : PointsAt reference key) :
    Reaches definitions (ofReference reference) key schema := by
  have hkey : key ∈ definitions.keys :=
    List.mem_map_of_mem (Table.mem_of_find?_eq_some hfound)
  have hleads : RefersTo definitions (ofReference reference) schema :=
    (refersTo_ofReference h).2 hfound
  exact ⟨resolve_ofReference h, by rw [mentions_ofReference h, if_pos hkey]; rfl, hleads,
    follow?_of_refersTo hkeys hleads⟩

/-- A reference that is written as a pointer points at the segment, not at the key. -/
theorem pointsAt_pointerTo (key : String) : PointsAt (pointerTo key) (pointerSegment key) :=
  ⟨Name.slash_not_mem_pointerSegment key, .inr ⟨"#/definitions", by
    rw [pointerTo, String.append_assoc]
    rfl⟩⟩

/-- **Pointers to definitions**: the reference to a key, written as a pointer, reaches
    the definition of the key exactly if that is plain. For any other key it has
    another type than the key declares, it does not mention that name, and it is
    followed to the definition, if there is one, whose key is spelled like the
    segment. -/
theorem pointer_reaches_iff (hkeys : definitions.keys.Nodup)
    (hfound : definitions.find? key = some schema) :
    (Reaches definitions (ofReference (pointerTo key)) key schema ↔ IsPlain key)
      ∧ (¬ IsPlain key →
        (ofReference (pointerTo key)).resolve ≠ .ref (schema.declaration key).name.pascal
          ∧ (schema.declaration key).name.pascal
            ∉ (ofReference (pointerTo key)).mentions definitions
          ∧ ∀ next, RefersTo definitions (ofReference (pointerTo key)) next
            ↔ definitions.find? (pointerSegment key) = some next) := by
  have hpoints := pointsAt_pointerTo key
  have hname : (schema.declaration key).name.pascal = Name.typeName key := rfl
  have htype : ¬ IsPlain key →
      (ofReference (pointerTo key)).resolve ≠ .ref (schema.declaration key).name.pascal := by
    intro hplain hresolve
    rw [resolve_ofReference hpoints, hname] at hresolve
    exact hplain (Name.typeName_pointerSegment_eq_iff.1 (TypeExpr.ref.inj hresolve))
  refine ⟨⟨fun h => ?_, fun hplain => ?_⟩, fun hplain => ⟨htype hplain, ?_, ?_⟩⟩
  · by_contra hplain
    exact htype hplain h.type
  · rw [Name.pointerSegment_of_plain hplain] at hpoints
    exact reaches_of_pointsAt hkeys hfound hpoints
  · rw [mentions_ofReference hpoints, hname]
    intro hmem
    split at hmem
    · have hsame : Name.typeName key = Name.typeName (pointerSegment key) :=
        List.mem_singleton.1 hmem
      exact hplain (Name.typeName_pointerSegment_eq_iff.1 hsame.symm)
    · exact absurd hmem List.not_mem_nil
  · exact fun next => refersTo_ofReference hpoints

/-- A table with a plain key, and one with a slash in its key. -/
def pointerSample : Definitions :=
  [("pet-store", { kinds := some (.single .object) }),
    ("team/player", { kinds := some (.single .array) })]

/-- The first key of the sample is reached. -/
theorem pointer_reaches_sample :
    pointerSample.keys.Nodup
      ∧ pointerSample.find? "pet-store" = some { kinds := some (.single .object) }
      ∧ Reaches pointerSample (ofReference (pointerTo "pet-store")) "pet-store"
        { kinds := some (.single .object) } := by
  have hkeys : pointerSample.keys.Nodup := by decide +kernel
  have hfound : pointerSample.find? "pet-store" = some { kinds := some (.single .object) } := rfl
  exact ⟨hkeys, hfound, (pointer_reaches_iff hkeys hfound).1.2 (by decide)⟩

/-- The second one is not: its reference has the type of a name that nothing
    declares, mentions nothing and leads nowhere. -/
theorem not_reaches_slash_key :
    pointerSample.keys.Nodup
      ∧ pointerSample.find? "team/player" = some { kinds := some (.single .array) }
      ∧ (Schema.declaration "team/player" { kinds := some (.single .array) }).name.pascal
        = "TeamPlayer"
      ∧ pointerTo "team/player" = "#/definitions/team~1player"
      ∧ (ofReference (pointerTo "team/player")).resolve = .ref "Team1player"
      ∧ (ofReference (pointerTo "team/player")).mentions pointerSample = []
      ∧ (ofReference (pointerTo "team/player")).follow? pointerSample = none
      ∧ ¬ Reaches pointerSample (ofReference (pointerTo "team/player")) "team/player"
        { kinds := some (.single .array) } := by
  have hkeys : pointerSample.keys.Nodup := by decide +kernel
  have hfound : pointerSample.find? "team/player" = some { kinds := some (.single .array) } := rfl
  have hpointer : pointerTo "team/player" = "#/definitions/team~1player" := by decide +kernel
  have hpoints := pointsAt_pointerTo "team/player"
  have hsegment : pointerSegment "team/player" = "team~1player" := by decide +kernel
  rw [hsegment] at hpoints
  have hname : Name.typeName "team~1player" = "Team1player" := by decide +kernel
  have hdeclared : Name.typeName "team/player" = "TeamPlayer" := by decide +kernel
  have hresolve : (ofReference (pointerTo "team/player")).resolve = .ref "Team1player" := by
    rw [resolve_ofReference hpoints, hname]
  have hmentions : (ofReference (pointerTo "team/player")).mentions pointerSample = [] := by
    rw [mentions_ofReference hpoints, if_neg (by decide +kernel)]
  have hfollow : (ofReference (pointerTo "team/player")).follow? pointerSample = none := by
    rw [Option.eq_none_iff_forall_ne_some]
    intro t ht
    obtain ⟨n, hchain, hend⟩ := (follow?_eq_some_iff hkeys).1 ht
    cases hchain with
    | refl _ => cases hend
    | head first _ =>
      have hmissing := (refersTo_ofReference hpoints).1 first
      cases hmissing
  refine ⟨hkeys, hfound, hdeclared, hpointer, hresolve, hmentions, hfollow, fun h => ?_⟩
  have hmentioned := h.mentioned
  rw [hmentions] at hmentioned
  cases hmentioned

end Schema

end TypedClient
