import TypedClient.Package.Options
import TypedClient.Proofs.Hygiene
import TypedClient.Proofs.FunctionNames

/-! # Names at the top level

    The names that a package has at its top level: those of its interfaces, those
    of its functions, and the one that the client is imported under.

    * **Interfaces** get their names from the keys of the definitions alone, so two
      keys that are normalized alike give two interfaces of one name.
    * **Functions** start with a small letter and interfaces with a capital, except
      that both keep a leading digit behind an underscore. Only there can they
      meet.
    * **The client** is imported under a name that no function is kept from.
-/

namespace TypedClient

/-! ### First characters -/

/-- Capitalizing makes no digit of a letter, and leaves digits alone. -/
theorem isDigit_toUpper {c : Char} (h : c.isAlphanum = true) : c.toUpper.isDigit = c.isDigit :=
  of_ascii (fun d => d.toUpper.isDigit = d.isDigit) (by decide +kernel) (toNat_lt_of_isAlphanum h)

namespace Name

/-- Whether the first letter or digit of a text is a digit. -/
def leadsWithDigit (s : String) : Bool :=
  (s.toList.find? Char.isAlphanum).any Char.isDigit

/-- A pass starts with the first letter or digit, capitalized. -/
theorem head?_pascalPass (s : List Char) :
    (pascalPass s).head? = (s.find? Char.isAlphanum).map Char.toUpper := by
  unfold pascalPass
  induction s with
  | nil => rfl
  | cons c r ih =>
    rw [capitalizeWords]
    split
    · rename_i hc
      simp [hc]
    · rename_i hc
      simp [hc, ih]

/-- A second pass keeps the first character. -/
theorem head?_pascalPass_pascalPass (s : List Char) :
    (pascalPass (pascalPass s)).head?
      = (s.find? Char.isAlphanum).map (fun c => c.toUpper.toUpper) := by
  have hfind : (pascalPass s).find? Char.isAlphanum = (pascalPass s).head? := by
    cases hpass : pascalPass s with
    | nil => rfl
    | cons c r =>
      have hmem : c ∈ pascalPass s := by
        rw [hpass]
        exact List.mem_cons_self
      have hc : c.isAlphanum = true := isAlphanum_of_mem_capitalizeWords hmem
      simp [hc]
  rw [head?_pascalPass, hfind, head?_pascalPass, Option.map_map]
  rfl

/-- A type name starts with an underscore exactly if the text leads with a digit. -/
theorem head?_typeChars_eq_underscore_iff (s : String) :
    (typeChars s.toList).head? = some '_' ↔ leadsWithDigit s = true := by
  have hhead := head?_pascalPass_pascalPass s.toList
  unfold leadsWithDigit
  cases hpass : pascalPass (pascalPass s.toList) with
  | nil =>
    rw [hpass] at hhead
    have hnone : s.toList.find? Char.isAlphanum = none := Option.map_eq_none_iff.1 hhead.symm
    rw [typeChars, hpass, hnone]
    decide
  | cons c r =>
    rw [hpass] at hhead
    obtain ⟨d, hfound, hc⟩ := Option.map_eq_some_iff.1 hhead.symm
    have hd : d.isAlphanum = true := List.find?_some hfound
    have hupper : d.toUpper.isAlphanum = true := by
      rcases isUpper_or_isDigit_toUpper hd with h | h
      · exact isAlphanum_of_isUpper h
      · exact isAlphanum_of_isDigit h
    have hsame : c.isDigit = d.isDigit := by
      rw [← hc, isDigit_toUpper hupper, isDigit_toUpper hd]
    rw [typeChars, hpass, hfound]
    cases hdigit : d.isDigit with
    | true => simp [hsame, hdigit]
    | false =>
      have hne : c ≠ '_' := by
        rw [← hc]
        intro heq
        rcases isUpper_or_isDigit_toUpper hupper with h | h
        · rw [heq] at h
          cases h
        · rw [heq] at h
          cases h
      simp [hsame, hdigit, hne]

/-- A function name does not start with a capital. -/
theorem exists_functionName_eq (s : String) :
    ∃ c r, (functionName s).toList = c :: r ∧ c.isUpper = false := by
  obtain ⟨c, r, hchars, hc, -⟩ := exists_typeChars_eq s.toList
  refine ⟨c.toLower, r, by rw [functionName, String.toList_ofList, hchars, decapitalize], ?_⟩
  rcases hc with - | rfl
  · exact isUpper_toLower _
  · decide

end Name

/-! ### Function names of documents -/

namespace Document

variable (d : Document)

/-- A name that an operation asks for is that of a function. -/
theorem wantedName_mem_functionNames {site : OperationSite} (h : site ∈ d.sites) :
    site.wantedName ∈ d.functionNames := by
  have hwanted : site.wantedName ∈ d.sites.map (·.wantedName) := List.mem_map_of_mem h
  rcases FunctionNames.records_nil.mem_or_mem_claimAll hwanted with hnone | hmem
  · exact absurd hnone List.not_mem_nil
  · exact hmem

/-- A function that no operation asks for has a number behind its name. -/
theorem exists_site_of_mem_functionNames {name : String} (h : name ∈ d.functionNames)
    (hdigit : ¬ EndsInDigit name) : ∃ site ∈ d.sites, site.wantedName = name := by
  obtain ⟨wanted, hwanted, hname⟩ := FunctionNames.exists_of_mem_claimAll h
  obtain ⟨site, hsite, rfl⟩ := List.mem_map.1 hwanted
  rcases hname with rfl | ⟨n, rfl⟩
  · exact ⟨site, hsite, rfl⟩
  · exact absurd (endsInDigit_numbered _ n) hdigit

/-- The names of functions do not start with capitals, and numbers behind them do
    not change that. -/
theorem exists_eq_of_mem_functionNames {name : String} (h : name ∈ d.functionNames) :
    ∃ c r, name.toList = c :: r ∧ c.isUpper = false := by
  obtain ⟨wanted, hwanted, hname⟩ := FunctionNames.exists_of_mem_claimAll h
  obtain ⟨site, -, rfl⟩ := List.mem_map.1 hwanted
  obtain ⟨c, r, hchars, hc⟩ := Name.exists_functionName_eq
    (site.operation.operationId.getD (site.method.lower ++ "_" ++ site.path))
  have hwantedChars : site.wantedName.toList = c :: r := hchars
  rcases hname with rfl | ⟨n, rfl⟩
  · exact ⟨c, r, hwantedChars, hc⟩
  · exact ⟨c, r ++ Nat.toDigits 10 n, by rw [toList_numbered, hwantedChars, List.cons_append], hc⟩

/-- Interfaces and functions meet at leading digits only. -/
theorem leadsWithDigit_of_mem_functionNames {key : String}
    (h : Name.typeName key ∈ d.functionNames) : Name.leadsWithDigit key = true := by
  obtain ⟨c, r, hchars, hc⟩ := d.exists_eq_of_mem_functionNames h
  obtain ⟨c', r', htype, hc', -⟩ := Name.exists_typeChars_eq key.toList
  rw [Name.typeName, String.toList_ofList, htype] at hchars
  obtain ⟨rfl, -⟩ := List.cons.inj hchars
  rw [← Name.head?_typeChars_eq_underscore_iff, htype]
  rcases hc' with hupper | rfl
  · rw [hc] at hupper
    cases hupper
  · rfl

end Document

/-! ### Clashes -/

/-- **No clash** at the top level of a package. -/
structure Client.NoClash (c : Client) (options : PackageOptions) : Prop where
  /-- No two interfaces share their name. -/
  interfaces : (c.declarations.map (·.name.pascal)).Nodup
  /-- No function has the name of an interface. -/
  functions : ∀ e ∈ c.endpoints, e.name ∉ c.declarations.map (·.name.pascal)
  /-- No function has the name that the client is imported under. -/
  client : ∀ e ∈ c.endpoints, e.name ≠ options.clientName

namespace Document

variable (d : Document) (source : String)

/-- Interfaces are called after the keys of the definitions. -/
theorem map_pascal_declarations :
    (d.client source).value.declarations.map (·.name.pascal)
      = d.allDefinitions.keys.map Name.typeName := by
  rw [declarations_client, Definitions.declarations, List.map_map, Table.keys, List.map_map]
  rfl

/-- **Clashes** at the top level: there is none exactly if no two keys of the
    definitions have the same type name, no function has the type name of a key that
    leads with a digit, and none has the name of the client. What operations ask for
    are names of functions, and of those that do not end in a digit there are no
    others. -/
theorem noClash_iff (options : PackageOptions) (hkeys : d.allDefinitions.keys.Nodup) :
    ((d.client source).value.NoClash options
        ↔ (∀ key ∈ d.allDefinitions.keys, ∀ other ∈ d.allDefinitions.keys,
              Name.typeName key = Name.typeName other → key = other)
          ∧ (∀ key ∈ d.allDefinitions.keys, Name.leadsWithDigit key = true →
              Name.typeName key ∉ d.functionNames)
          ∧ options.clientName ∉ d.functionNames)
      ∧ (∀ site ∈ d.sites, site.wantedName ∈ d.functionNames)
      ∧ ∀ name ∈ d.functionNames, ¬ EndsInDigit name →
          ∃ site ∈ d.sites, site.wantedName = name := by
  have hinterfaces := d.map_pascal_declarations source
  have hfunctions : ∀ name, name ∈ d.functionNames
      ↔ ∃ e ∈ (d.client source).value.endpoints, e.name = name := by
    intro name
    rw [← d.map_name_endpoints source, List.mem_map]
  refine ⟨⟨?_, ?_⟩, fun site => d.wantedName_mem_functionNames,
    fun name => d.exists_site_of_mem_functionNames⟩
  · rintro ⟨hnodup, hapart, hclient⟩
    rw [hinterfaces] at hnodup hapart
    refine ⟨?_, ?_, ?_⟩
    · intro key hkey other hother hsame
      exact List.inj_on_of_nodup_map hnodup hkey hother hsame
    · intro key hkey _ hmem
      obtain ⟨e, he, hname⟩ := (hfunctions _).1 hmem
      exact hapart e he (hname ▸ List.mem_map_of_mem hkey)
    · intro hmem
      obtain ⟨e, he, hname⟩ := (hfunctions _).1 hmem
      exact hclient e he hname
  · rintro ⟨hinjective, hapart, hclient⟩
    refine ⟨?_, ?_, ?_⟩
    · rw [hinterfaces]
      exact List.Nodup.map_on (fun key hkey other hother => hinjective key hkey other hother) hkeys
    · intro e he hmem
      rw [hinterfaces] at hmem
      obtain ⟨key, hkey, hname⟩ := List.mem_map.1 hmem
      have hfunction : Name.typeName key ∈ d.functionNames := (hfunctions _).2 ⟨e, he, hname.symm⟩
      exact hapart key hkey (d.leadsWithDigit_of_mem_functionNames hfunction) hfunction
    · intro e he hname
      exact hclient ((hfunctions _).2 ⟨e, he, hname⟩)

/-- A document with named schemas and operations. -/
def ofNames (schemas operations : List String) : Document :=
  { definitions := schemas.map (fun key => (key, {}))
    paths := operations.map (fun name =>
      ("/" ++ name, { entries := [("get", .operation { operationId := some name })] })) }

/-- Keys that differ in their separator alone give two interfaces of one name. -/
theorem not_noClash_sample :
    (ofNames ["pet-store", "pet_store"] ["listPets"]).allDefinitions.keys.Nodup
      ∧ ¬ ((ofNames ["pet-store", "pet_store"] ["listPets"]).client "").value.NoClash {} := by
  have hkeys : (ofNames ["pet-store", "pet_store"] ["listPets"]).allDefinitions.keys.Nodup := by
    decide +kernel
  have hsame : Name.typeName "pet-store" = Name.typeName "pet_store" := by decide +kernel
  refine ⟨hkeys, fun h => ?_⟩
  have hinjective := ((noClash_iff _ "" {} hkeys).1.1 h).1
  exact absurd (hinjective "pet-store" (by decide +kernel) "pet_store" (by decide +kernel) hsame)
    (by decide)

end Document

end TypedClient
