/-! # Tables in insertion order

    A table is a list of keys and values in which the order of the keys is
    the order of their first insertion:

    * **Insertion** of a new key goes to the end; of a known key it replaces
      the value where it stands.
    * **Look-up** finds the first entry of a key, which in a table built by
      insertion is the only one.
-/

namespace TypedClient

/-- Keys and values in insertion order. -/
abbrev Table (α : Type) := List (String × α)

namespace Table

variable {α β : Type}

/-- The keys of a table, in order. -/
def keys (t : Table α) : List String :=
  t.map (·.1)

/-- The value of a key, if there is one. -/
def find? (key : String) : Table α → Option α
  | [] => none
  | (k, v) :: r => if k = key then some v else find? key r

/-- Whether a key is present. -/
def contains (key : String) (t : Table α) : Bool :=
  (t.find? key).isSome

/-- Puts a value under a key: in place where the key is known, else at the end. -/
def insert (key : String) (value : α) : Table α → Table α
  | [] => [(key, value)]
  | (k, v) :: r => if k = key then (k, value) :: r else (k, v) :: insert key value r

/-- The table that inserting the entries one after the other gives. -/
def ofEntries (entries : List (String × α)) : Table α :=
  entries.foldl (fun t entry => t.insert entry.1 entry.2) []

/-- Adds those entries of a second table whose keys the first does not have. -/
def addNew (t u : Table α) : Table α :=
  u.foldl (fun t entry => if contains entry.1 t then t else insert entry.1 entry.2 t) t

/-- A key has no value exactly if it is not among the keys. -/
theorem find?_eq_none_iff {key : String} {t : Table α} : find? key t = none ↔ key ∉ keys t := by
  induction t with
  | nil => simp [find?, keys]
  | cons entry r ih =>
    obtain ⟨k, v⟩ := entry
    have hkeys : keys ((k, v) :: r) = k :: keys r := rfl
    by_cases hk : k = key
    · rw [hkeys, hk]
      simp [find?]
    · have hne : key ≠ k := fun h => hk h.symm
      simp [find?, hkeys, hk, hne, ih]

/-- A key is present if it is among the keys. -/
theorem contains_iff_mem_keys {key : String} {t : Table α} :
    contains key t = true ↔ key ∈ keys t := by
  rw [contains, Option.isSome_iff_ne_none, Ne, find?_eq_none_iff, Decidable.not_not]

/-- A value that is found stands in the table. -/
theorem mem_of_find?_eq_some {key : String} {value : α} {t : Table α}
    (h : find? key t = some value) : (key, value) ∈ t := by
  induction t with
  | nil => simp [find?] at h
  | cons entry r ih =>
    obtain ⟨k, v⟩ := entry
    by_cases hk : k = key
    · simp only [find?, hk, if_true, Option.some.injEq] at h
      simp [hk, h]
    · simp only [find?, hk, if_false] at h
      exact List.mem_cons_of_mem _ (ih h)

/-- Looking up the inserted key finds the inserted value. -/
theorem find?_insert_self (key : String) (value : α) (t : Table α) :
    find? key (insert key value t) = some value := by
  induction t with
  | nil => simp [insert, find?]
  | cons entry r ih =>
    obtain ⟨k, v⟩ := entry
    by_cases h : k = key <;> simp [insert, find?, h, ih]

/-- Insertion leaves every other key alone. -/
theorem find?_insert_of_ne {key other : String} (h : other ≠ key) (value : α) (t : Table α) :
    find? other (insert key value t) = find? other t := by
  induction t with
  | nil => simp [insert, find?, Ne.symm h]
  | cons entry r ih =>
    obtain ⟨k, v⟩ := entry
    by_cases hk : k = key
    · subst hk; simp [insert, find?, Ne.symm h]
    · by_cases ho : k = other
      · subst ho; simp [insert, find?, hk]
      · simp [insert, find?, hk, ho, ih]

/-- The keys after an insertion: unchanged, or one more at the end. -/
theorem keys_insert (key : String) (value : α) (t : Table α) :
    keys (insert key value t) = if key ∈ keys t then keys t else keys t ++ [key] := by
  induction t with
  | nil => simp [insert, keys]
  | cons entry r ih =>
    obtain ⟨k, v⟩ := entry
    by_cases h : k = key
    · simp [insert, keys, h]
    · have ih' : (insert key value r).map (·.1)
          = if key ∈ r.map (·.1) then r.map (·.1) else r.map (·.1) ++ [key] := ih
      by_cases hm : key ∈ r.map (·.1)
      · rw [if_pos hm] at ih'
        simp [insert, keys, h, ih', hm]
      · rw [if_neg hm] at ih'
        simp only [keys, insert, h, if_false, List.map_cons, ih']
        rw [if_neg]
        · simp
        · simp only [List.mem_cons, not_or]
          exact ⟨fun e => h e.symm, hm⟩

/-- Insertion keeps keys distinct. -/
theorem nodup_keys_insert {t : Table α} (h : t.keys.Nodup) (key : String) (value : α) :
    (t.insert key value).keys.Nodup := by
  rw [keys_insert]
  split
  · exact h
  · rename_i hnew
    refine List.nodup_append.2 ⟨h, by simp, ?_⟩
    rintro k hk other hother rfl
    exact hnew (List.mem_singleton.1 hother ▸ hk)

/-- What holds of the values of a table and of one more holds after its insertion. -/
theorem forall_mem_insert {p : α → Prop} {t : Table α} (h : ∀ entry ∈ t, p entry.2)
    (key : String) {value : α} (hvalue : p value) : ∀ entry ∈ t.insert key value, p entry.2 := by
  induction t with
  | nil =>
    intro entry hentry
    rw [List.mem_singleton.1 hentry]
    exact hvalue
  | cons entry rest ih =>
    obtain ⟨hentry, hrest⟩ := List.forall_mem_cons.1 h
    obtain ⟨k, v⟩ := entry
    unfold insert
    split
    · exact List.forall_mem_cons.2 ⟨hvalue, hrest⟩
    · exact List.forall_mem_cons.2 ⟨hentry, ih hrest⟩

/-- A new key goes to the end. -/
theorem insert_of_not_mem {t : Table α} {key : String} (h : key ∉ t.keys) (value : α) :
    t.insert key value = t ++ [(key, value)] := by
  induction t with
  | nil => rfl
  | cons entry r ih =>
    obtain ⟨k, v⟩ := entry
    have hkeys : key ≠ k ∧ key ∉ keys r := by
      simpa [keys] using h
    rw [insert, if_neg (Ne.symm hkeys.1), ih hkeys.2]
    rfl

/-- Adding a table puts those of its entries behind whose keys are new. -/
theorem addNew_eq (t : Table α) {u : Table α} (h : u.keys.Nodup) :
    t.addNew u = t ++ u.filter (fun entry => entry.1 ∉ t.keys) := by
  induction u generalizing t with
  | nil => exact (List.append_nil t).symm
  | cons entry r ih =>
    obtain ⟨k, v⟩ := entry
    obtain ⟨hk, hr⟩ := List.nodup_cons.1 h
    by_cases hmem : k ∈ t.keys
    · have hknown : t.contains k = true := contains_iff_mem_keys.2 hmem
      have hstep : t.addNew ((k, v) :: r) = t.addNew r := by
        show List.foldl _ (if t.contains k then t else t.insert k v) r = _
        rw [if_pos hknown]
        rfl
      rw [hstep, ih t hr, List.filter_cons_of_neg (by simpa using hmem)]
    · have hmissing : t.contains k = false := by
        rw [contains, find?_eq_none_iff.2 hmem]
        rfl
      have hstep : t.addNew ((k, v) :: r) = addNew (t ++ [(k, v)]) r := by
        show List.foldl _ (if t.contains k then t else t.insert k v) r = _
        rw [if_neg (by simp [hmissing]), insert_of_not_mem hmem]
        rfl
      -- The key is behind now, and none of the others is the same.
      have hothers : r.filter (fun entry => entry.1 ∉ keys (t ++ [(k, v)]))
          = r.filter (fun entry => entry.1 ∉ t.keys) := by
        apply List.filter_congr
        intro other hother
        have hne : other.1 ≠ k := fun heq => hk (List.mem_map.2 ⟨other, hother, heq⟩)
        have hiff : other.1 ∈ keys (t ++ [(k, v)]) ↔ other.1 ∈ t.keys := by
          rw [keys, List.map_append, List.mem_append, keys]
          simp [hne]
        simp only [hiff]
      rw [hstep, ih _ hr, hothers, List.filter_cons_of_pos (by simpa using hmem), List.append_assoc]
      rfl

end Table

end TypedClient
