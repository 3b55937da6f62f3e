import TypedClient.Proofs.FunctionNames
import TypedClient.Proofs.Imports
import TypedClient.Proofs.ScannedFunctions

/-! # Completeness of imports

    When a declared name that the functions use is imported. There are two ways
    for it to be noticed, and it is missed where both fail.

    * **Tracking** goes by the keys of the definitions: a reference counts if it
      names one. A reference that is spelled in another way still gives the
      type of the definition, but is not noticed.
    * **Scanning** goes by the text of the functions: a name counts if it is
      capitalized and stands in the code without its literals. A name with an
      underscore in front of a leading digit is never noticed, nor is a name
      that a stray quote hides.
-/

namespace TypedClient

open Scan

/-! ### Function names -/

/-- A function name is made of characters of bare names. -/
theorem Name.isFollowing_of_mem_functionName {s : String} {c : Char}
    (h : c ∈ (functionName s).toList) : isFollowing c = true := by
  obtain ⟨d, r, hchars, hd, hr⟩ := exists_typeChars_eq s.toList
  rw [functionName, String.toList_ofList, hchars, decapitalize] at h
  rcases List.mem_cons.1 h with rfl | h
  · rcases hd with hupper | rfl
    · exact isFollowing_of_isAlphanum (isAlphanum_toLower (isAlphanum_of_isUpper hupper))
    · decide
  · exact isFollowing_of_isAlphanum (hr c h)

theorem Document.quoteless_functionNames (d : Document) :
    ∀ name ∈ d.functionNames, Quoteless name.toList := by
  intro name hname
  obtain ⟨w, hw, hcases⟩ := FunctionNames.exists_of_mem_claimAll hname
  obtain ⟨site, -, rfl⟩ := List.mem_map.1 hw
  refine quoteless_of_isFollowing (fun c hc => ?_)
  rcases hcases with rfl | ⟨n, rfl⟩
  · exact Name.isFollowing_of_mem_functionName hc
  · rcases mem_or_isDigit_of_mem_numbered hc with hc | hdigit
    · exact Name.isFollowing_of_mem_functionName hc
    · exact isFollowing_of_isAlphanum (isAlphanum_of_isDigit hdigit)

/-! ### Endpoints of sites -/

theorem quoteless_of_isParameterChar {s : List Char}
    (h : ∀ c ∈ s, Name.isParameterChar c = true) : Quoteless s := by
  refine quoteless_of_isFollowing (fun c hc => ?_)
  have hchar := h c hc
  simp only [Name.isParameterChar, Bool.or_eq_true] at hchar
  rcases hchar with halnum | hunder
  · exact isFollowing_of_isAlphanum halnum
  · simp [Name.isFollowing, hunder]

/-- The type of an argument of parameters is that of one of them. -/
theorem exists_type_of_mem_zipWith {place : Place} {definitions : Definitions}
    {parameters : List Parameter} {names : List String} {a : Argument}
    (h : a ∈ List.zipWith (fun p name => p.argument name place definitions) parameters names) :
    ∃ p ∈ parameters, a.type = p.effectiveSchema.resolve := by
  rw [← List.map_uncurry_zip_eq_zipWith] at h
  obtain ⟨⟨p, name⟩, hmem, rfl⟩ := List.mem_map.1 h
  exact ⟨p, (List.of_mem_zip hmem).1, rfl⟩

namespace OperationSite

variable (site : OperationSite) (definitions : Definitions)

theorem given_arguments {name : String} {a : Argument}
    (h : a ∈ (site.endpoint definitions name).arguments) : ∃ sources, a.type.Given sources := by
  have hschema : ∀ p : Parameter, a.type = p.effectiveSchema.resolve →
      ∃ sources, a.type.Given sources :=
    fun p hp => ⟨_, hp ▸ Schema.given_resolve p.effectiveSchema⟩
  obtain ⟨inQuery, -, hquery⟩ :=
    @claimArguments_eq_append .query definitions
      (site.frontArguments definitions name) (site.declared.filter (fun p => p.location == .query))
  obtain ⟨tokens, htokens, hall⟩ := claimTokens_eq_append name
    (claimArguments .path definitions [] (site.declared.filter (fun p => p.location == .path)))
    (Name.pathTokens site.path)
  obtain ⟨inPath, -, hpath⟩ :=
    @claimArguments_eq_append .path definitions []
      (site.declared.filter (fun p => p.location == .path))
  have hfront : site.frontArguments definitions name = _ := htokens
  change a ∈ claimArguments .query definitions (site.frontArguments definitions name) _ at h
  rw [hquery, hfront, hpath, List.nil_append] at h
  rcases List.mem_append.1 h with h | h
  · rcases List.mem_append.1 h with h | h
    · obtain ⟨p, -, hp⟩ := exists_type_of_mem_zipWith h
      exact hschema p hp
    · obtain ⟨token, -, n, rfl⟩ := hall a h
      exact ⟨[], .leaf rfl rfl⟩
  · obtain ⟨p, -, hp⟩ := exists_type_of_mem_zipWith h
    exact hschema p hp

/-- **Endpoints are regular** under names without quotes. -/
theorem regular_endpoint {name : String} (hname : Quoteless name.toList) :
    (site.endpoint definitions name).Regular where
  name := hname
  arguments := fun a ha =>
    ⟨quoteless_of_isParameterChar ((site.wellNamed_endpoint definitions name).chars a ha),
      site.given_arguments definitions ha⟩
  body := by
    intro b hb
    obtain ⟨found, -, rfl⟩ := Option.map_eq_some_iff.1 hb
    refine ⟨quoteless_of_isParameterChar (fun c hc => ?_), _, Schema.given_resolve found.1⟩
    exact isParameterChar_of_mem_claimArgument (by decide) hc
  returns := by
    unfold endpoint Operation.endpoint
    dsimp only
    split
    · exact ⟨_, Schema.given_resolve _⟩
    · exact ⟨[], .leaf rfl rfl⟩

end OperationSite

theorem Document.regular_endpoints (d : Document) (source : String) :
    ∀ e ∈ (d.client source).value.endpoints, e.Regular := by
  intro e he
  obtain ⟨site, -, name, hname, rfl⟩ := exists_site he
  exact site.regular_endpoint d.allDefinitions (d.quoteless_functionNames name hname)

/-! ### Tracked names -/

/-- The schemas that the types of a site come from. -/
def OperationSite.schemas (site : OperationSite) : List Schema :=
  (site.declared.filter (fun p => p.location == .path || p.location == .query)).map
      (·.effectiveSchema)
    ++ site.bodySchema?.toList ++ (site.operation.success?.bind Response.jsonSchema?).toList

/-- **Tracked** names: a reference at some depth of a schema names a key of the
    definitions with that type name, or the schema of a body is itself a
    reference with that type name. -/
def Document.Tracks (d : Document) (name : String) : Prop :=
  ∃ site ∈ d.sites,
    (∃ s ∈ site.schemas, ∃ r ∈ s.references,
      d.allDefinitions.contains r = true ∧ Name.typeName r = name)
    ∨ site.bodyReference? = some name

/-- What the schema of a body mentions, its own reference included. -/
theorem mem_bodyMentions {s : Schema} {definitions : Definitions} {name : String} :
    name ∈ bodyMentions s definitions
      ↔ s.reference.map (fun r => Name.typeName (Name.referenceName r)) = some name
        ∨ name ∈ s.mentions definitions := by
  rw [bodyMentions, List.mem_append, Option.mem_toList]

namespace OperationSite

/-- What the parameters of a site mention that go in the path or the query. -/
theorem mem_mentionsOf {site : OperationSite} {definitions : Definitions} {name : String} :
    (name ∈ mentionsOf site.declared .path definitions
        ∨ name ∈ mentionsOf site.declared .query definitions)
      ↔ ∃ p ∈ site.declared.filter (fun p => p.location == .path || p.location == .query),
          name ∈ p.effectiveSchema.mentions definitions := by
  simp only [mentionsOf, List.mem_flatMap, List.mem_filter, Bool.or_eq_true]
  constructor
  · rintro (⟨p, ⟨hp, hpath⟩, hmem⟩ | ⟨p, ⟨hp, hquery⟩, hmem⟩)
    · exact ⟨p, ⟨hp, .inl hpath⟩, hmem⟩
    · exact ⟨p, ⟨hp, .inr hquery⟩, hmem⟩
  · rintro ⟨p, ⟨hp, hpath | hquery⟩, hmem⟩
    · exact .inl ⟨p, ⟨hp, hpath⟩, hmem⟩
    · exact .inr ⟨p, ⟨hp, hquery⟩, hmem⟩

theorem mem_mentions {site : OperationSite} {definitions : Definitions} {name : String} :
    name ∈ site.mentions definitions
      ↔ (∃ s ∈ site.schemas, name ∈ s.mentions definitions)
        ∨ site.bodyReference? = some name := by
  rw [mentions, Operation.mentions, List.mem_append, List.mem_append, List.mem_append]
  refine (or_congr (or_congr mem_mentionsOf (?hbody : _
      ↔ (∃ s ∈ site.bodySchema?.toList, name ∈ s.mentions definitions)
        ∨ site.bodyReference? = some name)) (?hreturns : _
      ↔ ∃ s ∈ (site.operation.success?.bind Response.jsonSchema?).toList,
          name ∈ s.mentions definitions)).trans ?_
  case hbody =>
    rw [bodyReference?, bodySchema?]
    cases site.operation.bodySchema? site.declared with
    | none => simp
    | some found => simp [mem_bodyMentions, or_comm]
  case hreturns =>
    cases site.operation.success?.bind Response.jsonSchema? with
    | none => simp
    | some returned => simp
  simp only [schemas, List.mem_append, List.mem_map, or_and_right, exists_or,
    exists_exists_and_eq_and]
  constructor
  · rintro ((hparameter | hbody | hreference) | hreturned)
    · exact .inl (.inl (.inl hparameter))
    · exact .inl (.inl (.inr hbody))
    · exact .inr hreference
    · exact .inl (.inr hreturned)
  · rintro (((hparameter | hbody) | hreturned) | hreference)
    · exact .inl (.inl hparameter)
    · exact .inl (.inr (.inl hbody))
    · exact .inr hreturned
    · exact .inl (.inr (.inr hreference))

end OperationSite

/-- The names that the sites of a document mention are the tracked ones. -/
theorem Document.tracks_iff {d : Document} {name : String} :
    d.Tracks name ↔ name ∈ d.sites.flatMap (·.mentions d.allDefinitions) := by
  rw [List.mem_flatMap, Tracks]
  simp only [OperationSite.mem_mentions, Schema.mem_mentions]

/-! ### Imported names -/

namespace Document

variable {d : Document} {source : String} {options : PackageOptions}

/-- A declared name is imported if it is tracked or stands in the code of the
    functions. -/
theorem mem_imported_iff_of_declares {name : String}
    (h : d.allDefinitions.declares name = true) :
    name ∈ (d.package source options).imported
      ↔ d.Tracks name
        ∨ Stands name.toList (blankLiterals ((d.client source).value.functions options)) := by
  rw [mem_imported, usedNames, List.mem_append, ← tracks_iff, scanned, Scan.mem_mentions,
    String.toList_ofList]
  simp only [h, true_and, and_true]

/-- **Completeness**: a declared name that the types of an endpoint hold is
    imported exactly if it is tracked or stands in the code without its literals.
    Where the code takes over no quotes from elsewhere, a name that is not tracked
    is imported exactly if it is capitalized. -/
theorem mem_imported_iff_of_mem_refs {e : Endpoint} (he : e ∈ (d.client source).value.endpoints)
    {name : String} (hname : name ∈ e.refs) (hdeclared : name ∈ d.allDefinitions.typeNames) :
    (name ∈ (d.package source options).imported
        ↔ d.Tracks name
          ∨ Stands name.toList (blankLiterals ((d.client source).value.functions options)))
      ∧ (Quoteless options.clientName.toList →
          (∀ e ∈ (d.client source).value.endpoints, e.Unquoted options.withoutComments) →
          (name ∈ (d.package source options).imported
            ↔ d.Tracks name ∨ IsCapitalized name.toList)) := by
  have hiff : name ∈ (d.package source options).imported
      ↔ d.Tracks name
        ∨ Stands name.toList (blankLiterals ((d.client source).value.functions options)) :=
    mem_imported_iff_of_declares (Definitions.declares_iff.2 hdeclared)
  refine ⟨hiff, fun hclient hunquoted => ?_⟩
  rw [hiff]
  refine or_congr_right ⟨fun h => h.1, fun hcap => ⟨hcap, .inl ?_⟩⟩
  have hreveals := Endpoint.reveals_pieces (d.regular_endpoints source) hclient hunquoted
  exact hreveals.shows name (List.mem_flatMap.2 ⟨e, he, hname⟩) hcap

/-- A document with an object under one key, and one operation that returns what
    a reference to `target` points at. -/
def ofReference (key target : String) : Document :=
  { definitions := [(key, { kinds := some (.single .object) })]
    paths := [("/models", { entries := [("get", .operation
      { responses := [("200", { schema := some { reference := some target } })] })] })] }

/-- The type of `3d-model` is declared and used under its name with an
    underscore, but neither noticed by its key nor by the scan. -/
theorem not_mem_imported_sample :
    ∃ e ∈ ((ofReference "3d-model" "#/definitions/3dModel").client "").value.endpoints,
      "_3dModel" ∈ e.refs
        ∧ "_3dModel" ∈ (ofReference "3d-model" "#/definitions/3dModel").allDefinitions.typeNames
        ∧ "_3dModel" ∉
          ((ofReference "3d-model" "#/definitions/3dModel").package "" {}).imported := by
  have hrefs : ∃ e ∈ ((ofReference "3d-model" "#/definitions/3dModel").client "").value.endpoints,
      "_3dModel" ∈ e.refs := by
    decide +kernel
  have hdeclared :
      "_3dModel" ∈ (ofReference "3d-model" "#/definitions/3dModel").allDefinitions.typeNames := by
    decide +kernel
  have htracked : ¬ (ofReference "3d-model" "#/definitions/3dModel").Tracks "_3dModel" := by
    rw [tracks_iff]
    decide +kernel
  obtain ⟨e, he, hname⟩ := hrefs
  refine ⟨e, he, hname, hdeclared, fun himported => ?_⟩
  rcases (mem_imported_iff_of_mem_refs he hname hdeclared).1.1 himported with
    htracks | ⟨⟨c, r, hchars, hupper, -⟩, -⟩
  · exact htracked htracks
  · have hc : '_' = c := (List.cons.inj (hchars : '_' :: "3dModel".toList = c :: r)).1
    rw [← hc] at hupper
    exact absurd hupper (by decide)

end Document

end TypedClient
