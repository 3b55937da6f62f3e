import TypedClient.Schema.Basic
import TypedClient.Name.TypeName

/-! # Sets of type names

    The named types that a piece of generated code uses, in the order in which
    they were first seen. A set may hold names that nothing declares;
    `partition` tells them apart.
-/

namespace TypedClient

/-- Names in the order of their first insertion. -/
abbrev NameSet := List String

namespace NameSet

/-- Adds a name, unless it is there. -/
def insert (name : String) (s : NameSet) : NameSet :=
  if name ∈ s then s else s ++ [name]

/-- Adds the names of a list, in order. -/
def merge (s : NameSet) (names : List String) : NameSet :=
  names.foldl (fun s name => s.insert name) s

/-- The set of the names of a list. -/
def ofNames (names : List String) : NameSet :=
  merge [] names

/-- Inserting keeps a set free of repeats. -/
theorem nodup_insert {s : NameSet} (h : s.Nodup) (name : String) : (s.insert name).Nodup := by
  unfold insert
  split
  · exact h
  · rename_i hn
    refine List.nodup_append.2 ⟨h, by simp, ?_⟩
    intro a ha b hb
    rw [List.mem_singleton] at hb
    subst hb
    exact fun e => hn (e ▸ ha)

end NameSet

namespace Definitions

/-- The type names of all definitions. -/
def typeNames (definitions : Definitions) : List String :=
  definitions.keys.map Name.typeName

/-- Whether a type name belongs to a definition. -/
def declares (definitions : Definitions) (name : String) : Bool :=
  definitions.typeNames.contains name

end Definitions

/-- The names that the definitions declare, and those that they do not. -/
def NameSet.partition (s : NameSet) (definitions : Definitions) : List String × List String :=
  List.partition definitions.declares s

end TypedClient
