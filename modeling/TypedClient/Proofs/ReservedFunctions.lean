import TypedClient.Proofs.NameWords
import TypedClient.Proofs.TopLevelNames
import TypedClient.Proofs.SignatureNames

/-! # Reserved words as names of functions

    A function is declared under its name, so that the name has to be an identifier
    and none of the reserved words. Only the first of that is seen to.

    * **Identifiers**: a function name is one whatever text it is made of, and stays
      one with a number behind it.
    * **Reserved words** have no digits and no capitals. So no number makes one, and
      the first operation to ask for one gets it.
    * **Asking**: an operation asks for a word if its id spells it, or else its method
      and path.
-/

namespace TypedClient

/-! ### Names with numbers -/

namespace Name

/-- A number behind an identifier leaves it one. -/
theorem IsIdentifier.numbered {name : String} (h : IsIdentifier name) (n : Nat) :
    IsIdentifier (numbered name n) where
  plain := isPlain_numbered h.plain n
  ne_empty := by
    intro hempty
    have hlist : (TypedClient.numbered name n).toList = [] := by rw [hempty]; rfl
    rw [toList_numbered, List.append_eq_nil_iff] at hlist
    exact h.ne_empty (String.toList_eq_nil_iff.1 hlist.1)
  noDigit := by
    have hne : name.toList ≠ [] := fun hnil => h.ne_empty (String.toList_eq_nil_iff.1 hnil)
    rw [toList_numbered, List.head?_append_of_ne_nil _ hne]
    exact h.noDigit

/-- A reserved word is a function name of the texts that spell it. -/
theorem functionName_eq_reserved_iff {s word : String} (h : word ∈ reservedWords) :
    functionName s = word ↔ Spells s.toList word.toList := by
  have hall : ∀ word ∈ reservedWords,
      word ≠ "" ∧ (∀ c ∈ word.toList, c.isLower = true) ∧ word ≠ "unnamed" := by
    decide +kernel
  obtain ⟨hne, hsmall, hunnamed⟩ := hall word h
  exact functionName_eq_iff_spells hne hsmall hunnamed

end Name

/-! ### Functions of documents -/

/-- The text that an operation gets its name from: its id, or its method and path. -/
def OperationSite.naming (site : OperationSite) : String :=
  site.operation.operationId.getD (site.method.lower ++ "_" ++ site.path)

theorem OperationSite.wantedName_eq (site : OperationSite) :
    site.wantedName = Name.functionName site.naming :=
  rfl

namespace Document

variable (d : Document) (source : String)

theorem isIdentifier_of_mem_functionNames {name : String} (h : name ∈ d.functionNames) :
    Name.IsIdentifier name := by
  obtain ⟨wanted, hwanted, hname⟩ := FunctionNames.exists_of_mem_claimAll h
  obtain ⟨site, -, rfl⟩ := List.mem_map.1 hwanted
  have hsite : Name.IsIdentifier site.wantedName := by
    rw [site.wantedName_eq]
    exact Name.isIdentifier_functionName site.naming
  rcases hname with rfl | ⟨n, rfl⟩
  · exact hsite
  · exact hsite.numbered n

/-- A reserved word is the name of a function exactly if an operation asks for it. -/
theorem reserved_mem_functionNames_iff {word : String} (h : word ∈ Name.reservedWords) :
    word ∈ d.functionNames ↔ ∃ site ∈ d.sites, Name.Spells site.naming.toList word.toList := by
  constructor
  · intro hmem
    have hall : ∀ word ∈ Name.reservedWords, ¬ EndsInDigit word := by decide +kernel
    obtain ⟨site, hsite, hwanted⟩ := d.exists_site_of_mem_functionNames hmem (hall word h)
    rw [site.wantedName_eq] at hwanted
    exact ⟨site, hsite, (Name.functionName_eq_reserved_iff h).1 hwanted⟩
  · rintro ⟨site, hsite, hspells⟩
    have hwanted := d.wantedName_mem_functionNames hsite
    rw [site.wantedName_eq, (Name.functionName_eq_reserved_iff h).2 hspells] at hwanted
    exact hwanted

/-- **Reserved functions**: the functions of a document have identifiers as names, and
    these are reserved words exactly as far as operations ask for such: a reserved
    word is the name of a function if and only if the text that some operation is
    named by spells it. -/
theorem reserved_functions_iff :
    (∀ e ∈ (d.client source).value.endpoints, Name.IsIdentifier e.name)
      ∧ ∀ word ∈ Name.reservedWords,
          ((∃ e ∈ (d.client source).value.endpoints, e.name = word)
            ↔ ∃ site ∈ d.sites, Name.Spells site.naming.toList word.toList) := by
  have hnames := d.map_name_endpoints source
  constructor
  · intro e he
    refine d.isIdentifier_of_mem_functionNames ?_
    rw [← hnames]
    exact List.mem_map_of_mem he
  · intro word hword
    rw [← d.reserved_mem_functionNames_iff hword, ← hnames, List.mem_map]

/-- The root of an API may be deleted, and nothing else is needed for a function that
    cannot be declared. -/
theorem reserved_function_sample :
    "delete" ∈ Name.reservedWords
      ∧ ∃ e ∈ (({ paths := [("/", { entries := [("delete", .operation {})] })] } : Document).client
            "").value.endpoints,
          e.name = "delete" := by
  have hword : "delete" ∈ Name.reservedWords := by decide +kernel
  refine ⟨hword, ((reserved_functions_iff _ "").2 "delete" hword).2 ?_⟩
  refine ⟨⟨"/", .delete, {}, []⟩, List.mem_singleton_self _, ?_⟩
  decide +kernel

end Document

end TypedClient
