import TypedClient.Document.Basic
import TypedClient.Client.Warned

/-! # Shared parameters

    An entry of a parameter list may refer to a shared parameter, and that to
    another one.

    * **Look-up** goes by the start of a reference, which names the table, and
      by its last segment.
    * **Circles**: a reference may be followed once. Every reference on the way
      is the first one or one of the tables, so the list of those not yet
      followed gets shorter with each step.
    * **Dropping**: an entry that leads nowhere is dropped with one warning.
-/

namespace TypedClient

/-- The shared parameters of both dialects. -/
structure SharedParameters where
  /-- Those of the older dialect. -/
  old : Table ParameterEntry
  /-- Those of the newer dialect. -/
  new : Table ParameterEntry

/-- The shared parameters of a document. -/
def Document.sharedParameters (d : Document) : SharedParameters :=
  ⟨d.parameters, (d.components.map (·.parameters)).getD []⟩

namespace SharedParameters

/-- The entry that a reference names. -/
def find? (shared : SharedParameters) (reference : String) : Option ParameterEntry :=
  let name := Name.referenceName reference
  if "#/components/parameters/".toList.isPrefixOf reference.toList then shared.new.find? name
  else if "#/parameters/".toList.isPrefixOf reference.toList then shared.old.find? name
  else none

/-- The reference of an entry, if it is one. -/
def reference? : ParameterEntry → Option String
  | .reference reference => some reference
  | .inline _ => none

/-- All references in the tables. -/
def references (shared : SharedParameters) : List String :=
  (shared.old ++ shared.new).filterMap (fun entry => reference? entry.2)

/-- The warning about a circle. -/
def circularWarning (reference : String) : String :=
  "circular parameter reference " ++ reference ++ ", skipping"

/-- The warning about a missing parameter. -/
def unresolvedWarning (reference : String) : String :=
  "unresolved parameter reference " ++ reference ++ ", skipping"

/-- Strikes a reference out of the list of those not yet followed. -/
def strike (reference : String) (unused : List String) : List String :=
  unused.filter (fun other => other ≠ reference)

/-- Striking out a reference makes the list of those not yet followed shorter. -/
theorem length_strike_lt {reference : String} {unused : List String} (h : reference ∈ unused) :
    (strike reference unused).length < unused.length := by
  rw [strike, List.length_filter_lt_length_iff_exists]
  exact ⟨reference, h, by simp⟩

/-- Follows the references of an entry; `unused` holds those not yet followed. -/
def follow (shared : SharedParameters) (unused : List String) (entry : ParameterEntry) :
    Warned (Option Parameter) :=
  match entry with
  | .inline parameter => ⟨some parameter, []⟩
  | .reference reference =>
    -- A reference that is not among them has been followed before.
    if _h : reference ∈ unused then
      match shared.find? reference with
      | some next => follow shared (strike reference unused) next
      | none => ⟨none, [unresolvedWarning reference]⟩
    else ⟨none, [circularWarning reference]⟩
termination_by unused.length
decreasing_by
  exact length_strike_lt (by assumption)

/-- The parameter that an entry stands for. -/
def resolve (shared : SharedParameters) (entry : ParameterEntry) : Warned (Option Parameter) :=
  follow shared ((reference? entry).toList ++ shared.references) entry

/-- The parameters that the entries of a list stand for; what leads nowhere is
    left out. -/
def resolveAll (shared : SharedParameters) (entries : List ParameterEntry) :
    Warned (List Parameter) :=
  let found := entries.map shared.resolve
  ⟨found.filterMap (·.value), found.flatMap (·.warnings)⟩

end SharedParameters

end TypedClient
