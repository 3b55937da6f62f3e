import TypedClient.Package.Function

/-! # Order in signatures

    A signature has an entry for every argument, in order, and one for the body behind
    them. How an entry is written depends on all entries behind it:

    * **Required** entries are written plainly, wherever they stand.
    * **Optional** entries are questioned, so that a call may leave them out, if nothing
      behind them is required. In front of a required entry, which a call has to reach,
      they allow `undefined` instead.

    So a question mark is never followed by a required entry, and a signature with a
    body has none at all.
-/

namespace TypedClient

namespace SignatureEntry

/-! ### Marks -/

/-- How an entry is written. -/
inductive Mark where
  | plain
  /-- With a question mark behind the name. -/
  | questioned
  /-- With `undefined` behind the type. -/
  | orUndefined
  deriving DecidableEq, Repr

/-- The text of an entry under a mark. -/
def written (e : SignatureEntry) : Mark → String
  | .plain => e.name ++ ": " ++ e.type.render
  | .questioned => e.name ++ "?: " ++ e.type.render
  | .orUndefined => e.name ++ ": " ++ e.type.render ++ " | undefined"

/-- The mark of an entry with others behind it. -/
def mark (e : SignatureEntry) (behind : List SignatureEntry) : Mark :=
  if e.required then .plain
  else if behind.any (·.required) then .orUndefined
  else .questioned

/-- The marks of entries, in order. -/
def marks : List SignatureEntry → List Mark
  | [] => []
  | e :: behind => e.mark behind :: marks behind

/-- An entry is written under its mark. -/
theorem ofList_chars (e : SignatureEntry) (behind : List SignatureEntry) :
    String.ofList (e.chars (behind.any (·.required))) = e.written (e.mark behind) := by
  rw [chars, mark]
  split
  · simp only [written, TypeExpr.render, String.ofList_append, String.ofList_toList]
  · split <;>
      simp only [written, TypeExpr.render, String.ofList_append, String.ofList_toList]

theorem texts_eq_map (entries : List SignatureEntry) :
    texts entries = (List.zipWith written entries (marks entries)).map String.toList := by
  induction entries with
  | nil => rfl
  | cons e behind ih =>
    rw [marks, List.zipWith_cons_cons, List.map_cons, ← ih, ← ofList_chars, String.toList_ofList,
      texts]

theorem getElem?_marks (before : List SignatureEntry) (e : SignatureEntry)
    (behind : List SignatureEntry) :
    (marks (before ++ e :: behind))[before.length]? = some (e.mark behind) := by
  induction before with
  | nil => rfl
  | cons first before ih => exact ih

theorem length_marks (entries : List SignatureEntry) :
    (marks entries).length = entries.length := by
  induction entries with
  | nil => rfl
  | cons e behind ih => rw [marks, List.length_cons, ih, List.length_cons]

/-! ### What the marks say -/

theorem mark_eq_plain_iff {e : SignatureEntry} {behind : List SignatureEntry} :
    e.mark behind = .plain ↔ e.required = true := by
  unfold mark
  split
  · simp_all
  · split <;> simp_all

theorem mark_eq_orUndefined_iff {e : SignatureEntry} {behind : List SignatureEntry} :
    e.mark behind = .orUndefined
      ↔ e.required = false ∧ ∃ later ∈ behind, later.required = true := by
  unfold mark
  split
  · simp_all
  · split <;> simp_all

theorem mark_eq_questioned_iff {e : SignatureEntry} {behind : List SignatureEntry} :
    e.mark behind = .questioned
      ↔ e.required = false ∧ ∀ later ∈ behind, later.required = false := by
  unfold mark
  split
  · simp_all
  · split <;> simp_all

/-- **Marks that fit** entries: one for each, by whether it is required and whether one
    behind it is. -/
structure Fit (marks : List Mark) (entries : List SignatureEntry) : Prop where
  length : marks.length = entries.length
  plain : ∀ {before e behind}, entries = before ++ e :: behind →
    (marks[before.length]? = some .plain ↔ e.required = true)
  questioned : ∀ {before e behind}, entries = before ++ e :: behind →
    (marks[before.length]? = some .questioned
      ↔ e.required = false ∧ ∀ later ∈ behind, later.required = false)
  orUndefined : ∀ {before e behind}, entries = before ++ e :: behind →
    (marks[before.length]? = some .orUndefined
      ↔ e.required = false ∧ ∃ later ∈ behind, later.required = true)

theorem fit_marks (entries : List SignatureEntry) : Fit (marks entries) entries where
  length := length_marks entries
  plain := by
    rintro before e behind rfl
    rw [getElem?_marks, Option.some_inj, mark_eq_plain_iff]
  questioned := by
    rintro before e behind rfl
    rw [getElem?_marks, Option.some_inj, mark_eq_questioned_iff]
  orUndefined := by
    rintro before e behind rfl
    rw [getElem?_marks, Option.some_inj, mark_eq_orUndefined_iff]

/-- **Order**: from a question mark on, nothing is required. -/
theorem Fit.not_required_from {marks : List Mark} {entries : List SignatureEntry}
    (h : Fit marks entries) {i j : Nat} {later : SignatureEntry} (hle : i ≤ j)
    (hi : marks[i]? = some .questioned) (hj : entries[j]? = some later) :
    later.required = false := by
  have hbound : i < entries.length := by
    rw [← h.length]
    exact (List.getElem?_eq_some_iff.1 hi).1
  have hdrop : entries.drop i = entries[i] :: entries.drop (i + 1) :=
    List.drop_eq_getElem_cons hbound
  have hsplit : entries = entries.take i ++ entries[i] :: entries.drop (i + 1) := by
    rw [← hdrop, List.take_append_drop]
  have hmem : later ∈ entries.drop i := by
    refine List.mem_iff_getElem?.2 ⟨j - i, ?_⟩
    rw [List.getElem?_drop, Nat.add_sub_cancel' hle]
    exact hj
  rw [← List.length_take_of_le (Nat.le_of_lt hbound)] at hi
  obtain ⟨hself, hbehind⟩ := (h.questioned hsplit).1 hi
  rw [hdrop] at hmem
  rcases List.mem_cons.1 hmem with rfl | hlater
  · exact hself
  · exact hbehind later hlater

end SignatureEntry

/-! ### Signatures -/

namespace Endpoint

open SignatureEntry

/-- **Signatures are in order**: the signature of an endpoint is its arguments in order
    and its body behind them, each under the one mark that fits it, with a comma and a
    blank between them. Behind a question mark no entry is required, so that a
    signature with a body has none. -/
theorem signature_in_order (e : Endpoint) :
    ∃ marks : List Mark,
      e.signature = String.intercalate ", " (List.zipWith written e.entries marks)
        ∧ e.entries = e.arguments.map (fun a => ⟨a.name, a.type, a.required⟩)
            ++ (e.body.map (fun b => ⟨b.name, b.type, true⟩)).toList
        ∧ Fit marks e.entries
        ∧ (∀ (i j : Nat) (later : SignatureEntry), i < j → marks[i]? = some .questioned →
            e.entries[j]? = some later → later.required = false)
        ∧ (e.body.isSome → Mark.questioned ∉ marks) := by
  have hfit := fit_marks e.entries
  have htext : e.signature
      = String.intercalate ", " (List.zipWith written e.entries (marks e.entries)) := by
    rw [signature, signatureChars, texts_eq_map, ← String.toList_intercalate, String.ofList_toList]
  have horder : ∀ (i j : Nat) (later : SignatureEntry), i < j →
      (marks e.entries)[i]? = some .questioned → e.entries[j]? = some later →
        later.required = false :=
    fun i j later hlt => hfit.not_required_from (Nat.le_of_lt hlt)
  refine ⟨marks e.entries, htext, rfl, hfit, horder, ?_⟩
  intro hbody hmem
  obtain ⟨b, hb⟩ := Option.isSome_iff_exists.1 hbody
  obtain ⟨i, hi⟩ := List.mem_iff_getElem?.1 hmem
  have hlast : e.entries[e.arguments.length]? = some ⟨b.name, b.type, true⟩ := by
    simp [entries, hb]
  have hle : i ≤ e.arguments.length := by
    have hlength : e.entries.length = e.arguments.length + 1 := by simp [entries, hb]
    have hbound := (List.getElem?_eq_some_iff.1 hi).1
    rw [hfit.length, hlength] at hbound
    exact Nat.le_of_lt_succ hbound
  have hrequired := hfit.not_required_from hle hi hlast
  cases hrequired

-- Optional entries on both sides of a required one.
example : marks ([false, true, false, false].map (fun required => ⟨"a", .string, required⟩))
    = [.orUndefined, .plain, .questioned, .questioned] := by
  decide

end Endpoint

end TypedClient
