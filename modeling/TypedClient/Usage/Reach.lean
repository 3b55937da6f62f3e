import TypedClient.Usage.Mentions
import TypedClient.Schema.Following

/-! # Types within reach

    The declared types that can be reached from a set of names: those of the
    set, those that their schemas mention, and so on.

    * **One schema a name**: of several definitions with one type name the last
      counts.
    * **Ending**: a schema is taken out of the table when it is reached, so
      every round shortens the table or the list of names still to look at.
-/

namespace TypedClient

/-- The schemas of the definitions by type name. -/
def Definitions.byTypeName (definitions : Definitions) : Table Schema :=
  definitions.foldl (fun t entry => t.insert (Name.typeName entry.1) entry.2) []

/-- Looks at the pending names, the first of them first. `left` holds the
    schemas not reached so far. -/
def reachFrom (definitions : Definitions) (left : Table Schema) (reached : NameSet)
    (pending : List String) : NameSet :=
  match pending with
  | [] => reached
  | name :: pending =>
    match _h : left.find? name with
    | none => reachFrom definitions left reached pending
    | some schema =>
      -- What was mentioned last is looked at next.
      reachFrom definitions (left.erase name) (reached ++ [name])
        ((schema.mentions definitions).reverse ++ pending)
termination_by (left.length, pending.length)
decreasing_by
  · exact Prod.Lex.right _ (by simp)
  · exact Prod.Lex.left _ _ (Table.length_erase_lt (by assumption))

/-- The declared types within reach of a set of names, in the order in which
    they are reached: the last name first, and from there in depth. -/
def NameSet.reachable (s : NameSet) (definitions : Definitions) : NameSet :=
  reachFrom definitions definitions.byTypeName [] s.reverse

end TypedClient
