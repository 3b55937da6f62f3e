import TypedClient.Schema.Basic

/-! # Following references between schemas

    A reference names an entry of the definitions table by its last segment.
    Following stops at the first schema without a reference; a chain that
    names a missing entry, or runs in a circle, leads nowhere.

    * **Circles**: every entry is taken out of the table as it is passed, so a
      circle ends at an entry that is missing by then.
-/

namespace TypedClient

namespace Table

variable {α : Type}

/-- Takes out the entry of a key. -/
def erase (key : String) : Table α → Table α
  | [] => []
  | (k, v) :: r => if k = key then r else (k, v) :: erase key r

/-- Taking out an entry that is there makes the table shorter. -/
theorem length_erase_lt {key : String} {t : Table α} {value : α} (h : t.find? key = some value) :
    (t.erase key).length < t.length := by
  induction t with
  | nil => simp [find?] at h
  | cons entry r ih =>
    obtain ⟨k, v⟩ := entry
    by_cases hk : k = key
    · simp [erase, hk]
    · simp only [find?, hk, if_false] at h
      simpa [erase, hk] using ih h

/-- Taking out the entry of a key takes out its key. -/
theorem keys_erase (key : String) (t : Table α) : (t.erase key).keys = t.keys.erase key := by
  induction t with
  | nil => rfl
  | cons entry r ih =>
    obtain ⟨k, v⟩ := entry
    by_cases hk : k = key
    · simp [erase, keys, hk]
    · simpa [erase, keys, hk] using ih

/-- Where the keys are distinct, the entry that is taken out is the only one of
    its key. -/
theorem find?_erase_self {key : String} {t : Table α} (h : t.keys.Nodup) :
    (t.erase key).find? key = none := by
  rw [find?_eq_none_iff, keys_erase]
  exact fun hmem => (h.mem_erase_iff.1 hmem).1 rfl

/-- Taking out an entry leaves every other key alone. -/
theorem find?_erase_of_ne {key other : String} (h : other ≠ key) (t : Table α) :
    (t.erase key).find? other = t.find? other := by
  induction t with
  | nil => rfl
  | cons entry r ih =>
    obtain ⟨k, v⟩ := entry
    by_cases hk : k = key
    · simp [erase, find?, hk, Ne.symm h]
    · by_cases ho : k = other
      · simp [erase, find?, ho, h]
      · simp [erase, find?, hk, ho, ih]

end Table

namespace Schema

/-- The schema without reference that a chain of references ends at. -/
def follow? (s : Schema) (definitions : Definitions) : Option Schema :=
  match s.target? with
  | none => some s
  | some name =>
    match _h : definitions.find? name with
    | none => none
    | some next => next.follow? (definitions.erase name)
termination_by definitions.length
decreasing_by exact Table.length_erase_lt (by assumption)

end Schema

end TypedClient
