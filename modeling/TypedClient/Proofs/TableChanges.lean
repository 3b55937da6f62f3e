import Mathlib.Data.List.Basic
import TypedClient.Table

/-! # Changes of tables

    What a change of one entry does to the table that the entries give.

    * **Another value** shows at its key, unless a later entry has that key too.
    * **Another key** adds an entry, and leaves all others as they are.
-/

namespace TypedClient

namespace Table

variable {α β : Type}

/-- Changes the value of a key, if there is one. -/
def adjust (key : String) (change : α → α) : Table α → Table α
  | [] => []
  | (k, v) :: r => if k = key then (k, change v) :: r else (k, v) :: adjust key change r

theorem find?_adjust_self (key : String) (change : α → α) (t : Table α) :
    find? key (adjust key change t) = (find? key t).map change := by
  induction t with
  | nil => rfl
  | cons entry r ih =>
    obtain ⟨k, v⟩ := entry
    by_cases hk : k = key <;> simp [adjust, find?, hk, ih]

/-- A change leaves every other key alone. -/
theorem find?_adjust_of_ne {key other : String} (h : other ≠ key) (change : α → α) (t : Table α) :
    find? other (adjust key change t) = find? other t := by
  induction t with
  | nil => rfl
  | cons entry r ih =>
    obtain ⟨k, v⟩ := entry
    by_cases hk : k = key
    · subst hk
      simp [adjust, find?, Ne.symm h]
    · by_cases ho : k = other
      · subst ho
        simp [adjust, find?, hk]
      · simp [adjust, find?, hk, ho, ih]

/-- What a change keeps of every value, it keeps of the one that is found. -/
theorem map_find?_adjust {change : α → α} {view : α → β}
    (h : ∀ value, view (change value) = view value)
    (key other : String) (t : Table α) :
    (find? other (adjust key change t)).map view = (find? other t).map view := by
  by_cases ho : other = key
  · rw [ho, find?_adjust_self, Option.map_map]
    exact Option.map_congr (fun value _ => h value)
  · rw [find?_adjust_of_ne ho]

@[simp]
theorem contains_adjust (key other : String) (change : α → α) (t : Table α) :
    contains other (adjust key change t) = contains other t := by
  unfold contains
  by_cases h : other = key
  · rw [h, find?_adjust_self, Option.isSome_map]
  · rw [find?_adjust_of_ne h]

theorem find?_append_of_eq_some {key : String} {value : α} {t : Table α}
    (h : t.find? key = some value) (u : Table α) : find? key (t ++ u) = some value := by
  induction t with
  | nil => cases h
  | cons entry r ih =>
    obtain ⟨k, v⟩ := entry
    by_cases hk : k = key
    · simpa [find?, hk] using h
    · simp only [find?, hk, if_false] at h
      simp [find?, hk, ih h]

theorem contains_append_of_contains {key : String} {t : Table α} (h : t.contains key = true)
    (more : Table α) : contains key (t ++ more) = true := by
  obtain ⟨value, hvalue⟩ := Option.isSome_iff_exists.mp h
  rw [contains, find?_append_of_eq_some hvalue]
  rfl

theorem find?_append_of_not_contains {key : String} {t : Table α} (h : t.contains key = false)
    (u : Table α) : find? key (t ++ u) = u.find? key := by
  induction t with
  | nil => rfl
  | cons entry r ih =>
    obtain ⟨k, v⟩ := entry
    by_cases hk : k = key
    · simp [contains, find?, hk] at h
    · simp only [contains, find?, hk, if_false] at h
      simp [find?, hk, ih h]

theorem adjust_append_of_contains {key : String} {t : Table α} (h : t.contains key = true)
    (change : α → α) (u : Table α) : adjust key change (t ++ u) = adjust key change t ++ u := by
  induction t with
  | nil => cases h
  | cons entry r ih =>
    obtain ⟨k, v⟩ := entry
    by_cases hk : k = key
    · simp [adjust, hk]
    · simp only [contains, find?, hk, if_false] at h
      simp [adjust, hk, ih h]

theorem adjust_append_of_not_contains {key : String} {t : Table α} (h : t.contains key = false)
    (change : α → α) (u : Table α) : adjust key change (t ++ u) = t ++ adjust key change u := by
  induction t with
  | nil => rfl
  | cons entry r ih =>
    obtain ⟨k, v⟩ := entry
    by_cases hk : k = key
    · simp [contains, find?, hk] at h
    · simp only [contains, find?, hk, if_false] at h
      simp [adjust, hk, ih h]

/-- **Where a change is**: around the value that is found, all entries stay. -/
theorem exists_adjust_eq {key : String} {value : α} {t : Table α}
    (hfound : t.find? key = some value) : ∃ before after : Table α, ∀ change : α → α,
      t.adjust key change = before ++ (key, change value) :: after := by
  induction t with
  | nil => cases hfound
  | cons entry r ih =>
    obtain ⟨k, v⟩ := entry
    by_cases hk : k = key
    · simp only [find?, hk, if_true, Option.some.injEq] at hfound
      exact ⟨[], r, fun change => by simp [adjust, hk, hfound]⟩
    · simp only [find?, hk, if_false] at hfound
      obtain ⟨before, after, h⟩ := ih hfound
      exact ⟨(k, v) :: before, after, fun change => by simp [adjust, hk, h]⟩

/-- A change of a value that is there only has to be known at that value. -/
theorem adjust_congr {key : String} {value : α} {change other : α → α} {t : Table α}
    (hfound : t.find? key = some value) (h : change value = other value) :
    t.adjust key change = t.adjust key other := by
  obtain ⟨before, after, hadjust⟩ := exists_adjust_eq hfound
  rw [hadjust, hadjust, h]

/-- Changing nothing is no change. -/
theorem adjust_id (key : String) (t : Table α) : t.adjust key (fun value => value) = t := by
  induction t with
  | nil => rfl
  | cons entry r ih =>
    obtain ⟨k, v⟩ := entry
    by_cases hk : k = key <;> simp [adjust, hk, ih]

/-! ### Insertions -/

/-- Changing the value just inserted is inserting the changed one. -/
theorem adjust_insert_self (key : String) (value : α) (change : α → α) (t : Table α) :
    adjust key change (insert key value t) = insert key (change value) t := by
  induction t with
  | nil => simp [insert, adjust]
  | cons entry r ih =>
    obtain ⟨k, v⟩ := entry
    by_cases hk : k = key <;> simp [insert, adjust, hk, ih]

theorem adjust_insert_of_ne {key other : String} (h : other ≠ key) (value : α) (change : α → α)
    (t : Table α) :
    adjust key change (insert other value t) = insert other value (adjust key change t) := by
  induction t with
  | nil => simp [insert, adjust, h]
  | cons entry r ih =>
    obtain ⟨k, v⟩ := entry
    by_cases hk : k = key
    · subst hk
      simp [insert, adjust, Ne.symm h]
    · by_cases ho : k = other
      · subst ho
        simp [insert, adjust, hk]
      · simp [insert, adjust, hk, ho, ih]

/-- An insertion hides a change of the same key. -/
theorem insert_adjust_self (key : String) (value : α) (change : α → α) (t : Table α) :
    insert key value (adjust key change t) = insert key value t := by
  induction t with
  | nil => rfl
  | cons entry r ih =>
    obtain ⟨k, v⟩ := entry
    by_cases hk : k = key <;> simp [insert, adjust, hk, ih]

/-- **Insertions after a change** either hide it or keep it. -/
theorem foldl_insert_adjust (key : String) (change : α → α) (entries : List (String × α))
    (t : Table α) :
    entries.foldl (fun t entry => t.insert entry.1 entry.2) (t.adjust key change)
      = if key ∈ keys entries then entries.foldl (fun t entry => t.insert entry.1 entry.2) t
        else (entries.foldl (fun t entry => t.insert entry.1 entry.2) t).adjust key change := by
  induction entries generalizing t with
  | nil => simp [keys]
  | cons entry rest ih =>
    obtain ⟨k, v⟩ := entry
    have hkeys : keys ((k, v) :: rest) = k :: keys rest := rfl
    rw [List.foldl_cons, List.foldl_cons, hkeys]
    by_cases hk : k = key
    · rw [hk, insert_adjust_self, if_pos List.mem_cons_self]
    · rw [← adjust_insert_of_ne hk, ih]
      simp only [List.mem_cons, Ne.symm hk, false_or]

/-- **Another value** for one of the entries shows at its key, unless a later
    entry has that key too. -/
theorem ofEntries_change (before after : List (String × α)) (key : String) (value other : α) :
    ofEntries (before ++ (key, other) :: after)
      = if key ∈ keys after then ofEntries (before ++ (key, value) :: after)
        else (ofEntries (before ++ (key, value) :: after)).adjust key (fun _ => other) := by
  unfold ofEntries
  simp only [List.foldl_append, List.foldl_cons]
  rw [← adjust_insert_self key value (fun _ => other), foldl_insert_adjust]

/-- The value of the last entry of a key is the one that counts. -/
theorem find?_ofEntries_of_last {before after : List (String × α)} {key : String}
    (h : key ∉ keys after) (value : α) :
    (ofEntries (before ++ (key, value) :: after)).find? key = some value := by
  have hkeep : ∀ (entries : List (String × α)) (t : Table α), key ∉ keys entries →
      (entries.foldl (fun t entry => t.insert entry.1 entry.2) t).find? key = t.find? key := by
    intro entries
    induction entries with
    | nil => exact fun _ _ => rfl
    | cons entry rest ih =>
      intro t hkey
      have hne : key ≠ entry.1 := fun h => hkey (h ▸ List.mem_cons_self)
      rw [List.foldl_cons, ih _ (fun h => hkey (List.mem_cons_of_mem _ h)),
        find?_insert_of_ne hne]
  unfold ofEntries
  rw [List.foldl_append, List.foldl_cons, hkeep after _ h, find?_insert_self]

/-! ### Further keys -/

/-- Leaving out a key undoes its insertions and keeps all others. -/
theorem filter_insert (key other : String) (value : α) (t : Table α) :
    (insert other value t).filter (·.1 ≠ key)
      = if other = key then t.filter (·.1 ≠ key)
        else insert other value (t.filter (·.1 ≠ key)) := by
  induction t with
  | nil =>
    by_cases ho : other = key <;> simp [insert, ho]
  | cons entry r ih =>
    obtain ⟨k, v⟩ := entry
    by_cases ho : other = key
    · subst ho
      by_cases hk : k = other <;> simp_all [insert]
    · by_cases hk : k = other
      · subst hk
        simp [insert, ho]
      · by_cases hkey : k = key <;> simp_all [insert]

theorem find?_filter_of_ne {key other : String} (h : other ≠ key) (t : Table α) :
    find? other (t.filter (·.1 ≠ key)) = t.find? other := by
  induction t with
  | nil => rfl
  | cons entry r ih =>
    obtain ⟨k, v⟩ := entry
    by_cases hk : k = key
    · subst hk
      rw [List.filter_cons_of_neg (by simp), ih, find?, if_neg (Ne.symm h)]
    · rw [List.filter_cons_of_pos (by simpa using hk), find?, find?, ih]

/-- Leaving out a key of a table is leaving out its entries. -/
theorem filter_ofEntries (key : String) (entries : List (String × α)) :
    (ofEntries entries).filter (·.1 ≠ key) = ofEntries (entries.filter (·.1 ≠ key)) := by
  have hrun : ∀ (entries : List (String × α)) (t : Table α),
      (entries.foldl (fun t entry => insert entry.1 entry.2 t) t).filter (·.1 ≠ key)
        = (entries.filter (·.1 ≠ key)).foldl (fun t entry => insert entry.1 entry.2 t)
            (t.filter (·.1 ≠ key)) := by
    intro entries
    induction entries with
    | nil => exact fun _ => rfl
    | cons entry rest ih =>
      intro t
      rw [List.foldl_cons, ih, filter_insert]
      by_cases hk : entry.1 = key <;> simp [hk]
  exact hrun entries []

end Table

/-! ### Reading entries -/

section Reading

variable {κ α β : Type} {key : κ → Option String} {read : β → Option α}

/-- What is read around and at an item of a list. -/
theorem mapM_append_cons_eq_some {f : β → Option α} {before after : List β} {x : β}
    {values : List α} :
    (before ++ x :: after).mapM f = some values
      ↔ ∃ valuesBefore value valuesAfter, before.mapM f = some valuesBefore ∧ f x = some value
        ∧ after.mapM f = some valuesAfter ∧ values = valuesBefore ++ value :: valuesAfter := by
  simp only [List.mapM_append, List.mapM_cons, Option.bind_eq_bind, Option.pure_def,
    Option.bind_eq_some_iff, Option.some.injEq]
  constructor
  · rintro ⟨b, hb, _, ⟨v, hv, a, ha, rfl⟩, rfl⟩
    exact ⟨b, v, a, hb, hv, ha, rfl⟩
  · rintro ⟨b, v, a, hb, hv, ha, rfl⟩
    exact ⟨b, hb, v :: a, ⟨v, hv, a, ha, rfl⟩, rfl⟩

theorem length_of_mapM_eq_some {f : β → Option α} {items : List β} {values : List α}
    (h : items.mapM f = some values) : values.length = items.length := by
  induction items generalizing values with
  | nil =>
    cases h
    rfl
  | cons item rest ih =>
    simp only [List.mapM_cons, Option.bind_eq_bind, Option.pure_def, Option.bind_eq_some_iff,
      Option.some.injEq] at h
    obtain ⟨_, _, values, hvalues, rfl⟩ := h
    rw [List.length_cons, List.length_cons, ih hvalues]

theorem modify_append_cons (before after : List α) (value : α) (change : α → α) :
    (before ++ value :: after).modify before.length change = before ++ change value :: after := by
  rw [List.modify_eq_take_cons_drop (by simp)]
  simp

/-- **One item that reads differently** changes one value. -/
theorem mapM_change {f : β → Option α} {change : α → α} (before after : List β) {x other : β}
    (h : f other = (f x).map change) :
    (before ++ other :: after).mapM f
      = ((before ++ x :: after).mapM f).map (fun values => values.modify before.length change) := by
  cases hx : f x with
  | none =>
    rw [hx] at h
    simp [List.mapM_append, h, hx]
  | some value =>
    rw [hx] at h
    cases hb : before.mapM f with
    | none => simp [List.mapM_append, hb]
    | some valuesBefore =>
      have hlength := length_of_mapM_eq_some hb
      cases ha : after.mapM f with
      | none => simp [List.mapM_append, hb, hx, h, ha]
      | some valuesAfter => simp [List.mapM_append, hb, hx, h, ha, ← hlength, modify_append_cons]

/-- Reads an entry whose key has to be a text. -/
def readEntry (key : κ → Option String) (read : β → Option α) (entry : κ × β) :
    Option (String × α) :=
  (key entry.1).bind (fun name => (read entry.2).map (fun value => (name, value)))

theorem readEntry_of_key (key : κ → Option String) {k : κ} {name : String}
    (hk : key k = some name) (value : β) :
    readEntry key read (k, value) = (read value).map (fun v => (name, v)) := by
  rw [readEntry, hk, Option.bind_some]

/-- Reads entries as a table. -/
def readTable (key : κ → Option String) (read : β → Option α) (entries : List (κ × β)) :
    Option (Table α) :=
  (entries.mapM (readEntry key read)).map Table.ofEntries

/-- Inserting entries as they are read is reading them all and inserting then. -/
theorem foldlM_insert_readEntry (key : κ → Option String) (read : β → Option α)
    (entries : List (κ × β)) (t : Table α) :
    entries.foldlM (fun t entry =>
        (readEntry key read entry).map (fun e => Table.insert e.1 e.2 t)) t
      = (entries.mapM (readEntry key read)).map
          (fun values => values.foldl (fun t entry => t.insert entry.1 entry.2) t) := by
  induction entries generalizing t with
  | nil => rfl
  | cons entry rest ih =>
    rw [List.mapM_cons, List.foldlM_cons]
    cases readEntry key read entry with
    | none => rfl
    | some e =>
      show List.foldlM _ (Table.insert e.1 e.2 t) rest = _
      rw [ih]
      cases rest.mapM (readEntry key read) <;> rfl

/-- Whether one of some entries has a name as its key. -/
def hides (key : κ → Option String) (name : String) (entries : List (κ × β)) : Bool :=
  entries.any (fun entry => key entry.1 == some name)

theorem hides_eq_decide {name : String} {entries : List (κ × β)} {values : List (String × α)}
    (h : entries.mapM (readEntry key read) = some values) :
    hides key name entries = decide (name ∈ Table.keys values) := by
  induction entries generalizing values with
  | nil =>
    cases h
    rfl
  | cons entry rest ih =>
    simp only [List.mapM_cons, Option.bind_eq_bind, Option.pure_def, Option.bind_eq_some_iff,
      Option.some.injEq] at h
    obtain ⟨value, hvalue, values, hvalues, rfl⟩ := h
    simp only [readEntry, Option.bind_eq_some_iff, Option.map_eq_some_iff] at hvalue
    obtain ⟨k, hk, v, _, rfl⟩ := hvalue
    have hrest := ih hvalues
    unfold hides at hrest ⊢
    rw [List.any_cons, hrest, hk]
    have hkeys : Table.keys ((k, v) :: values) = k :: Table.keys values := rfl
    rw [hkeys]
    by_cases hname : k = name
    · simp [hname]
    · simp [hname, Ne.symm hname]

/-- **One entry that reads differently** shows in the table at its key, unless
    a later entry hides it. -/
theorem readTable_change (key : κ → Option String) {change : α → α} (before after : List (κ × β))
    {k : κ} {name : String} {x other : β} (hk : key k = some name)
    (h : read other = (read x).map change) :
    readTable key read (before ++ (k, other) :: after)
      = (readTable key read (before ++ (k, x) :: after)).map
          (fun t => if hides key name after then t else t.adjust name change) := by
  have hchange : readEntry key read (k, other)
      = (readEntry key read (k, x)).map (fun entry => (entry.1, change entry.2)) := by
    rw [readEntry_of_key key hk, readEntry_of_key key hk, h, Option.map_map, Option.map_map]
    rfl
  unfold readTable
  rw [mapM_change before after hchange, Option.map_map, Option.map_map]
  refine Option.map_congr (fun values hvalues => ?_)
  obtain ⟨valuesBefore, entry, valuesAfter, hbefore, hx, hafter, rfl⟩ :=
    mapM_append_cons_eq_some.mp hvalues
  rw [readEntry_of_key key hk, Option.map_eq_some_iff] at hx
  obtain ⟨v, _, rfl⟩ := hx
  show Table.ofEntries ((valuesBefore ++ (name, v) :: valuesAfter).modify before.length _) = _
  rw [← length_of_mapM_eq_some hbefore, modify_append_cons, Table.ofEntries_change _ _ _ v,
    Function.comp_apply, hides_eq_decide hafter]
  by_cases hname : name ∈ Table.keys valuesAfter
  · simp only [hname, if_true, decide_true]
  · simp only [hname, if_false, decide_false, Bool.false_eq_true]
    exact Table.adjust_congr (Table.find?_ofEntries_of_last hname v) rfl

/-- What is read where no later entry has the key is found in the table. -/
theorem find?_of_readTable (key : κ → Option String) {before after : List (κ × β)} {k : κ}
    {name : String} {x : β} {t : Table α} (hk : key k = some name)
    (h : readTable key read (before ++ (k, x) :: after) = some t)
    (hshown : hides key name after = false) :
    ∃ value, read x = some value ∧ t.find? name = some value := by
  obtain ⟨values, hvalues, rfl⟩ := Option.map_eq_some_iff.mp h
  obtain ⟨valuesBefore, entry, valuesAfter, _, hx, hafter, rfl⟩ :=
    mapM_append_cons_eq_some.mp hvalues
  rw [readEntry_of_key key hk, Option.map_eq_some_iff] at hx
  obtain ⟨v, hv, rfl⟩ := hx
  rw [hides_eq_decide hafter, decide_eq_false_iff_not] at hshown
  exact ⟨v, hv, Table.find?_ofEntries_of_last hshown v⟩

theorem readEntry_of_unreadable (key : κ → Option String) (k : κ) {x : β} (h : read x = none) :
    readEntry key read (k, x) = none := by
  rw [readEntry, h]
  cases key k <;> rfl

theorem readEntry_of_no_key {key : κ → Option String} {entry : κ × β} (h : key entry.1 = none) :
    readEntry key read entry = none := by
  rw [readEntry, h, Option.bind_none]

/-- An entry that cannot be read leaves nothing of the table. -/
theorem readTable_eq_none {entries : List (κ × β)} {entry : κ × β} (hmem : entry ∈ entries)
    (h : readEntry key read entry = none) : readTable key read entries = none := by
  obtain ⟨before, after, rfl⟩ := List.append_of_mem hmem
  rw [readTable, List.mapM_append, List.mapM_cons, h]
  cases before.mapM (readEntry key read) <;> rfl

/-- **One more entry**, under a key of its own, adds that key and nothing else. -/
theorem readTable_gain (key : κ → Option String) (before after : List (κ × β)) {k : κ}
    {name : String} {x : β} {value : α} (hk : key k = some name) (hx : read x = some value)
    (hfresh : hides key name (before ++ after) = false) :
    (readTable key read (before ++ (k, x) :: after)).map (List.filter (·.1 ≠ name))
      = readTable key read (before ++ after) := by
  have hentry : readEntry key read (k, x) = some (name, value) := by
    rw [readEntry_of_key key hk, hx, Option.map_some]
  rw [readTable, readTable, List.mapM_append, List.mapM_append, List.mapM_cons, hentry]
  cases hbefore : before.mapM (readEntry key read) with
  | none => rfl
  | some valuesBefore =>
    cases hafter : after.mapM (readEntry key read) with
    | none => rfl
    | some valuesAfter =>
      have hkeys : name ∉ Table.keys (valuesBefore ++ valuesAfter) := by
        have hvalues : (before ++ after).mapM (readEntry key read)
            = some (valuesBefore ++ valuesAfter) := by
          rw [List.mapM_append, hbefore, hafter]
          rfl
        rwa [hides_eq_decide hvalues, decide_eq_false_iff_not] at hfresh
      have hkeep : ∀ entry ∈ valuesBefore ++ valuesAfter, decide (entry.1 ≠ name) = true := by
        intro entry hentry
        exact decide_eq_true fun heq => hkeys (List.mem_map.mpr ⟨entry, hentry, heq⟩)
      show some (List.filter (·.1 ≠ name)
          (Table.ofEntries (valuesBefore ++ (name, value) :: valuesAfter)))
        = some (Table.ofEntries (valuesBefore ++ valuesAfter))
      rw [Table.filter_ofEntries, List.filter_append, List.filter_cons_of_neg (by simp),
        ← List.filter_append, List.filter_eq_self.mpr hkeep]

end Reading

end TypedClient
