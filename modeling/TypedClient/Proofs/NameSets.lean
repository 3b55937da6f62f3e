import TypedClient.Name.PathTokens
import TypedClient.Usage.Mentions

/-! # Sets of names as lists

    A set of names is a list of names in the order in which they were first
    seen, repeats left out. What is known of lists without repeats is stated
    here once, so that leaving names out can be done before the set is made. The
    names that schemas mention are the first such set, and all of them are
    declared.
-/

namespace TypedClient

/-! ### Distinct elements -/

namespace Name

variable {α : Type} [DecidableEq α]

/-- An element is among the distinct ones of a list if it is in the list. -/
theorem mem_distinct {l : List α} {a : α} : a ∈ distinct l ↔ a ∈ l := by
  induction l with
  | nil => rfl
  | cons b r ih =>
    rw [distinct, List.mem_cons, List.mem_filter, ih, List.mem_cons]
    by_cases h : a = b <;> simp [h]

theorem nodup_distinct (l : List α) : (distinct l).Nodup := by
  induction l with
  | nil => exact List.nodup_nil
  | cons b r ih =>
    rw [distinct]
    exact List.nodup_cons.2 ⟨by simp, ih.filter _⟩

/-- A list without repeats is made of its distinct elements. -/
theorem distinct_of_nodup {l : List α} (h : l.Nodup) : distinct l = l := by
  induction l with
  | nil => rfl
  | cons b r ih =>
    obtain ⟨hb, hr⟩ := List.nodup_cons.1 h
    have hkept : r.filter (fun a => a ≠ b) = r := by
      apply List.filter_eq_self.2
      intro a ha
      simp only [decide_eq_true_eq]
      rintro rfl
      exact hb ha
    rw [distinct, ih hr, hkept]

/-- **Order**: in front of an element of a list stand all that come before it among the
    distinct ones. -/
theorem pairwise_distinct (l : List α) :
    (distinct l).Pairwise (fun first later => ∀ before behind,
      l = before ++ later :: behind → first ∈ before) := by
  induction l with
  | nil => exact .nil
  | cons a r ih =>
    rw [distinct, List.pairwise_cons]
    -- No element behind the first one is equal to it, so it stands in front of them all.
    have hfront : ∀ {later before behind}, later ∈ (distinct r).filter (fun b => b ≠ a) →
        a :: r = before ++ later :: behind →
          ∃ front, before = a :: front ∧ r = front ++ later :: behind := by
      intro later before behind hlater hsplit
      cases before with
      | nil =>
        obtain ⟨rfl, -⟩ := List.cons.inj hsplit
        exact absurd (List.mem_filter.1 hlater).2 (by simp)
      | cons b front =>
        obtain ⟨rfl, hr⟩ := List.cons.inj hsplit
        exact ⟨front, rfl, hr⟩
    constructor
    · intro later hlater before behind hsplit
      obtain ⟨front, rfl, -⟩ := hfront hlater hsplit
      exact List.mem_cons_self
    · refine (ih.filter _).imp_of_mem ?_
      intro first later _ hlater hbefore before behind hsplit
      obtain ⟨front, rfl, hr⟩ := hfront hlater hsplit
      exact List.mem_cons_of_mem a (hbefore front behind hr)

/-- Elements may be left out before or after repeats are. -/
theorem filter_distinct (p : α → Bool) (l : List α) :
    (distinct l).filter p = distinct (l.filter p) := by
  induction l with
  | nil => rfl
  | cons a r ih =>
    have hcomm : ((distinct r).filter (fun b => b ≠ a)).filter p
        = (distinct (r.filter p)).filter (fun b => b ≠ a) := by
      rw [← ih, List.filter_filter, List.filter_filter]
      exact List.filter_congr (fun _ _ => Bool.and_comm _ _)
    rw [distinct, List.filter_cons, List.filter_cons, hcomm]
    split
    · rw [distinct]
    · rename_i ha
      -- No equal of an element that is left out can stay.
      apply List.filter_eq_self.2
      intro b hb
      have hp : p b = true := (List.mem_filter.1 (mem_distinct.1 hb)).2
      simp only [decide_eq_true_eq]
      rintro rfl
      exact ha hp

end Name

/-! ### Sets of names -/

namespace NameSet

/-- What merging adds to a set: the distinct names that it does not have. -/
theorem merge_eq (s : NameSet) (names : List String) :
    s.merge names = s ++ (Name.distinct names).filter (fun name => name ∉ s) := by
  induction names generalizing s with
  | nil => exact (List.append_nil s).symm
  | cons name rest ih =>
    have hstep : s.merge (name :: rest) = (s.insert name).merge rest := rfl
    rw [hstep, ih, Name.distinct, List.filter_cons, List.filter_filter]
    unfold insert
    by_cases h : name ∈ s
    · simp only [h, if_true, not_true, decide_false, Bool.false_eq_true, if_false]
      congr 1
      apply List.filter_congr
      intro other _
      by_cases hother : other = name
      · simp [hother, h]
      · simp [hother]
    · simp only [h, if_false, not_false_eq_true, decide_true, if_true, List.append_assoc,
        List.singleton_append]
      congr 2
      apply List.filter_congr
      intro other _
      simp only [List.mem_append, List.mem_singleton, not_or, Bool.decide_and]

/-- The set of the names of a list holds its distinct names. -/
theorem ofNames_eq (names : List String) : ofNames names = Name.distinct names := by
  rw [ofNames, merge_eq, List.nil_append]
  exact List.filter_eq_self.2 (fun _ _ => by simp)

/-- A name is in the set of the names of a list if it is in the list. -/
theorem mem_ofNames {names : List String} {name : String} :
    name ∈ ofNames names ↔ name ∈ names := by
  rw [ofNames_eq, Name.mem_distinct]

/-- Merging into the set of a list makes the set of a longer list. -/
theorem merge_ofNames (names more : List String) :
    (ofNames names).merge more = ofNames (names ++ more) := by
  rw [ofNames, ofNames, merge, merge, merge, List.foldl_append]

end NameSet

/-! ### Declared and mentioned names -/

/-- The definitions declare a type name if it is among theirs. -/
theorem Definitions.declares_iff {definitions : Definitions} {name : String} :
    definitions.declares name = true ↔ name ∈ definitions.typeNames := by
  rw [declares, List.contains_iff_mem]

namespace Schema

variable {s : Schema} {definitions : Definitions} {name : String}

theorem mem_mentions :
    name ∈ s.mentions definitions
      ↔ ∃ r ∈ s.references, definitions.contains r = true ∧ Name.typeName r = name := by
  rw [mentions, NameSet.mem_ofNames, List.mem_map]
  simp only [List.mem_filter, and_assoc]

theorem mem_typeNames_of_mem_mentions (h : name ∈ s.mentions definitions) :
    name ∈ definitions.typeNames := by
  obtain ⟨key, -, hkey, rfl⟩ := mem_mentions.1 h
  exact List.mem_map.2 ⟨key, Table.contains_iff_mem_keys.1 hkey, rfl⟩

theorem declares_of_mem_mentions (h : name ∈ s.mentions definitions) :
    definitions.declares name = true :=
  Definitions.declares_iff.2 (mem_typeNames_of_mem_mentions h)

end Schema

end TypedClient
