/-! # Names behind references

    A reference such as `#/definitions/Player` names what stands behind its
    last slash.
-/

namespace TypedClient.Name

/-- The characters behind the last slash, or all of them. -/
def lastSegment : List Char → List Char
  | [] => []
  | c :: r => if '/' ∈ c :: r then lastSegment r else c :: r

/-- The name a reference points at. -/
def referenceName (reference : String) : String :=
  String.ofList (lastSegment reference.toList)

/-- The last segment of a text: no slash is in it, and one is in front of it
    unless it is the whole text. -/
theorem lastSegment_eq_iff {s name : List Char} :
    lastSegment s = name ↔ '/' ∉ name ∧ (s = name ∨ ∃ before, s = before ++ '/' :: name) := by
  induction s with
  | nil =>
    rw [lastSegment]
    constructor
    · rintro rfl
      exact ⟨List.not_mem_nil, .inl rfl⟩
    · rintro ⟨-, rfl | ⟨before, hs⟩⟩
      · rfl
      · simp at hs
  | cons c r ih =>
    rw [lastSegment]
    split
    · rename_i hslash
      rw [ih]
      refine and_congr_right fun hname => ?_
      constructor
      · rintro (rfl | ⟨before, rfl⟩)
        · obtain rfl : '/' = c := by simpa [hname] using hslash
          exact .inr ⟨[], rfl⟩
        · exact .inr ⟨c :: before, rfl⟩
      · rintro (rfl | ⟨before, hs⟩)
        · exact absurd hslash hname
        · cases before with
          | nil => exact .inl (List.cons.inj hs).2
          | cons d before => exact .inr ⟨before, (List.cons.inj hs).2⟩
    · rename_i hslash
      constructor
      · rintro rfl
        exact ⟨hslash, .inl rfl⟩
      · rintro ⟨-, hs | ⟨before, hs⟩⟩
        · exact hs
        · simp [hs] at hslash

/-- A reference **points at** a name if that is its last segment. -/
def PointsAt (reference name : String) : Prop :=
  '/' ∉ name.toList ∧ (reference = name ∨ ∃ before, reference = before ++ "/" ++ name)

/-- The name of a reference is the one that it points at. -/
theorem referenceName_eq_iff {reference name : String} :
    referenceName reference = name ↔ PointsAt reference name := by
  have hchars : referenceName reference = name ↔ lastSegment reference.toList = name.toList := by
    rw [referenceName, ← String.toList_inj, String.toList_ofList]
  rw [hchars, lastSegment_eq_iff, PointsAt, String.toList_inj]
  refine and_congr_right fun _ => or_congr_right ⟨?_, ?_⟩
  · rintro ⟨before, hs⟩
    refine ⟨String.ofList before, ?_⟩
    rw [← String.toList_inj, hs]
    simp
  · rintro ⟨before, rfl⟩
    exact ⟨before.toList, by simp⟩

end TypedClient.Name
