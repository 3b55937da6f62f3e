/-! # Values with warnings

    A value together with what there is to warn of, in order.
-/

namespace TypedClient

/-- A value and the warnings that finding it gave. -/
structure Warned (α : Type) where
  value : α
  warnings : List String := []

namespace Warned

variable {α β : Type}

/-- Goes on with the value; the warnings add up. -/
def andThen (w : Warned α) (f : α → Warned β) : Warned β :=
  ⟨(f w.value).value, w.warnings ++ (f w.value).warnings⟩

instance : Monad Warned where
  pure value := ⟨value, []⟩
  bind := andThen

end Warned

end TypedClient
