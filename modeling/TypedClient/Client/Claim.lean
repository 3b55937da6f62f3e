import TypedClient.Table
import TypedClient.Decimal.Text
import TypedClient.Client.Warned

/-! # Claiming names

    Functions, and the arguments of one function, need names of their own.
    Whoever asks for a name that is taken gets it with a number behind it.

    * **Arguments**: the first free one of the name and the name with 2, 3 and
      so on.
    * **Functions**: the search starts at the number of times the name was
      asked for.
    * **Ending**: among one candidate more than there are names taken, one is
      free.
-/

namespace TypedClient

/-- A name with a number behind it. -/
def numbered (name : String) (n : Nat) : String :=
  name ++ String.ofList (Decimal.natChars n)

/-- The first number from `start` on whose numbered name is not taken. -/
def freeNumber (taken : List String) (name : String) (start : Nat) : Nat :=
  ((List.range' start (taken.length + 1)).find?
    (fun n => !taken.contains (numbered name n))).getD start

/-- The name to use for an argument, given those of the arguments before it. -/
def claimArgument (taken : List String) (name : String) : String :=
  if name ∈ taken then numbered name (freeNumber taken name 2) else name

/-- The function names handed out so far, each with how often it was asked for. -/
abbrev FunctionNames := Table Nat

/-- The warning about a name that is taken. -/
def takenWarning (name candidate : String) : String :=
  "function name `" ++ name ++ "` is already taken, using `" ++ candidate ++ "`"

/-- Hands out a function name: the one asked for if it is free, else with the
    first free number behind it. -/
def FunctionNames.claim (names : FunctionNames) (name : String) :
    Warned (String × FunctionNames) :=
  let count := (names.find? name).getD 0 + 1
  let names := names.insert name count
  if count = 1 then ⟨(name, names), []⟩
  else
    -- What is handed out is taken as if it had been asked for.
    let candidate := numbered name (freeNumber names.keys name count)
    ⟨(candidate, names.insert candidate 1), [takenWarning name candidate]⟩

end TypedClient
