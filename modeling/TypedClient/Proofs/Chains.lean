import Mathlib.Logic.Relator

/-! # Chains of steps

    What refers to something that may refer to something else is followed one
    step at a time.

    * **Only one way**: where every step is the only one from its place, chains
      from one place lie on each other, so they come to the same end.
    * **Endless** chains are those that come back to a place, among others.
-/

namespace TypedClient

/-- A **chain** of a number of steps. -/
inductive Chain {α : Type} (step : α → α → Prop) : Nat → α → α → Prop where
  | refl (a : α) : Chain step 0 a a
  | head {n : Nat} {a b c : α} (first : step a b) (rest : Chain step n b c) :
    Chain step (n + 1) a c

/-- A chain is **endless** if it goes on for any number of steps. -/
def Endless {α : Type} (step : α → α → Prop) (a : α) : Prop :=
  ∀ n, ∃ b, Chain step n a b

namespace Chain

variable {α : Type} {step : α → α → Prop} {n m : Nat} {a b c : α}

theorem snoc (h : Chain step n a b) (last : step b c) : Chain step (n + 1) a c := by
  induction h with
  | refl a => exact .head last (.refl c)
  | head first _ ih => exact .head first (ih last)

theorem append (h : Chain step n a b) (h' : Chain step m b c) : Chain step (n + m) a c := by
  induction h with
  | refl a => exact (Nat.zero_add m).symm ▸ h'
  | head first _ ih => exact Nat.add_right_comm _ 1 m ▸ .head first (ih h')

/-- A chain can be cut after any number of its steps. -/
theorem cut (h : Chain step (n + m) a c) : ∃ b, Chain step n a b ∧ Chain step m b c := by
  induction n generalizing a with
  | zero => exact ⟨a, .refl a, Nat.zero_add m ▸ h⟩
  | succ n ih =>
    rw [Nat.add_right_comm] at h
    cases h with
    | head first rest =>
      obtain ⟨b, hb, hc⟩ := ih rest
      exact ⟨b, .head first hb, hc⟩

/-- A chain is endless if it comes back to where it was. -/
theorem endless_of_round (h : Chain step n a b) (hround : Chain step (m + 1) b b) :
    Endless step a := by
  intro k
  have hrounds : Chain step (n + k * (m + 1)) a b := by
    induction k with
    | zero => simpa using h
    | succ k ih =>
      rw [Nat.succ_mul, ← Nat.add_assoc]
      exact ih.append hround
  have hlong : k ≤ n + k * (m + 1) := by
    rw [Nat.mul_succ]
    omega
  obtain ⟨rest, hrest⟩ := Nat.exists_eq_add_of_le hlong
  obtain ⟨c, hc, -⟩ := cut (hrest ▸ hrounds)
  exact ⟨c, hc⟩

/-- Where every step is the only one, so is every chain of a number of steps. -/
theorem end_unique (hunique : Relator.RightUnique step) (h : Chain step n a b)
    (h' : Chain step n a c) : b = c := by
  induction h with
  | refl a =>
    cases h'
    rfl
  | head first _ ih =>
    cases h' with
    | head first' rest' =>
      obtain rfl := hunique first first'
      exact ih rest'

/-- Where every step is the only one, a chain lies on any chain to a dead end. -/
theorem remaining (hunique : Relator.RightUnique step) (h : Chain step n a b)
    (h' : Chain step m a c) (hend : ∀ d, ¬ step c d) : ∃ k, m = n + k ∧ Chain step k b c := by
  induction h generalizing m with
  | refl a => exact ⟨m, (Nat.zero_add m).symm, h'⟩
  | head first _ ih =>
    cases h' with
    | refl _ => exact absurd first (hend _)
    | head first' rest' =>
      obtain rfl := hunique first first'
      obtain ⟨k, rfl, hk⟩ := ih rest'
      exact ⟨k, by omega, hk⟩

/-- All chains from one place to dead ends come to the same one. -/
theorem deadEnd_unique (hunique : Relator.RightUnique step) (h : Chain step n a b)
    (h' : Chain step m a c) (hend : ∀ d, ¬ step b d) (hend' : ∀ d, ¬ step c d) : b = c := by
  obtain ⟨k, -, hk⟩ := h.remaining hunique h' hend'
  cases hk with
  | refl _ => rfl
  | head first _ => exact absurd first (hend _)

/-- From one place, there is one number of steps to a dead end. -/
theorem length_unique (hunique : Relator.RightUnique step) (h : Chain step n a c)
    (h' : Chain step m a c) (hend : ∀ d, ¬ step c d) : n = m := by
  obtain ⟨k, rfl, hk⟩ := h.remaining hunique h' hend
  cases hk with
  | refl _ => rfl
  | head first _ => exact absurd first (hend _)

/-- A chain that comes to a dead end is not endless. -/
theorem not_endless (hunique : Relator.RightUnique step) (h : Chain step n a c)
    (hend : ∀ d, ¬ step c d) : ¬ Endless step a := by
  intro hendless
  obtain ⟨b, hb⟩ := hendless (n + 1)
  obtain ⟨k, hk, -⟩ := hb.remaining hunique h hend
  omega

end Chain

end TypedClient
