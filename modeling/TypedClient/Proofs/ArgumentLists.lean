import TypedClient.Proofs.FunctionNames
import TypedClient.Proofs.PathTokens

/-! # Lists of arguments

    Which arguments the endpoints of a document have, their identifiers aside.

    * **Merging**: a parameter of a path item counts for an operation unless that
      has one of its own with the same name and location.
    * **Order**: the parameters for the path come first, then the tokens of the
      path that none of these names, then the parameters for the query. No other
      location gives an argument.
    * **Identifiers** are claimed along the way, and nothing else hangs on them.
-/

namespace TypedClient

/-! ### What is called for -/

/-- The parameters that count for an operation: those of its path item that none of
    its own matches by name and location, then its own. -/
def overridden (shared own : List Parameter) : List Parameter :=
  shared.filter (fun s => ∀ o ∈ own, ¬ (o.name = s.name ∧ o.location = s.location)) ++ own

/-- An argument whose identifier does not matter. -/
def Argument.unnamed (a : Argument) : Argument :=
  { a with name := "" }

/-- The argument that a parameter calls for, its identifier aside. -/
def Parameter.calledFor (p : Parameter) (place : Place) (required : Bool)
    (definitions : Definitions) : Argument :=
  { name := ""
    key := p.name
    place, required
    type := p.effectiveSchema.resolve
    isArray := hasBrackets p.name.toList || p.effectiveSchema.isArray definitions
    description := p.description }

/-- The argument that a token calls for, its identifier aside: a text. -/
def tokenCalledFor (token : String) : Argument :=
  { name := ""
    key := token
    place := .path
    type := .string
    required := true
    isArray := false
    description := none }

/-- The names of the parameters for the path. -/
def pathNames (parameters : List Parameter) : List String :=
  (parameters.filter (fun p => p.location == .path)).map (·.name)

/-- **Called for** by a path and the parameters of an operation: one required
    argument for each parameter for the path, one for each token that none of them
    names, and one for each parameter for the query, required if that says so. -/
def argumentsCalledFor (definitions : Definitions) (path : String) (parameters : List Parameter) :
    List Argument :=
  (parameters.filter (fun p => p.location == .path)).map
      (fun p => p.calledFor .path true definitions)
    ++ ((Name.pathTokens path).filter (fun token => token ∉ pathNames parameters)).map
      tokenCalledFor
    ++ (parameters.filter (fun p => p.location == .query)).map
      (fun p => p.calledFor .query p.required definitions)

/-- Every token calls for a required argument for the path: by a parameter that it
    is the name of, or by itself. -/
theorem exists_key_argumentsCalledFor (definitions : Definitions) (parameters : List Parameter)
    {path token : String} (h : token ∈ Name.pathTokens path) :
    ∃ a ∈ argumentsCalledFor definitions path parameters,
      a.key = token ∧ a.place = .path ∧ a.required = true := by
  unfold argumentsCalledFor
  by_cases hname : token ∈ pathNames parameters
  · obtain ⟨p, hp, rfl⟩ := List.mem_map.1 hname
    exact ⟨p.calledFor .path true definitions,
      List.mem_append_left _ (List.mem_append_left _ (List.mem_map_of_mem hp)), rfl, rfl, rfl⟩
  · have hkept : token ∈ (Name.pathTokens path).filter (fun t => t ∉ pathNames parameters) :=
      List.mem_filter.2 ⟨h, by simpa using hname⟩
    exact ⟨tokenCalledFor token,
      List.mem_append_left _ (List.mem_append_right _ (List.mem_map_of_mem hkept)), rfl, rfl, rfl⟩

/-! ### Claims add what is called for -/

theorem mergeParameters_eq (shared own : List Parameter) :
    mergeParameters shared own = overridden shared own := by
  rw [mergeParameters, overridden]
  congr 1
  apply List.filter_congr
  intro s _
  rw [Bool.eq_iff_iff]
  simp

/-- Parameters add one argument each, behind those before. -/
theorem map_unnamed_claimArguments (place : Place) (definitions : Definitions)
    (before : List Argument) (parameters : List Parameter) :
    (claimArguments place definitions before parameters).map Argument.unnamed
      = before.map Argument.unnamed
        ++ parameters.map
            (fun p => p.calledFor place (p.required || place == .path) definitions) := by
  induction parameters generalizing before with
  | nil => exact (List.append_nil _).symm
  | cons p rest ih =>
    rw [claimArguments, ih, List.map_append, List.append_assoc]
    rfl

/-- Tokens add one argument each, unless an argument before has the token as key.
    No token is met twice, so those added on the way do not matter. -/
theorem map_unnamed_claimTokens (function : String) (before : List Argument)
    {tokens : List String} (h : tokens.Nodup) :
    (claimTokens function before tokens).value.map Argument.unnamed
      = before.map Argument.unnamed
        ++ (tokens.filter (fun token => token ∉ before.map (·.key))).map tokenCalledFor := by
  induction tokens generalizing before with
  | nil => exact (List.append_nil _).symm
  | cons token rest ih =>
    obtain ⟨htoken, hrest⟩ := List.nodup_cons.1 h
    have hany : before.any (fun a => a.key == token) = true ↔ token ∈ before.map (·.key) := by
      simp
    rw [claimTokens]
    by_cases hkey : token ∈ before.map (·.key)
    · rw [if_pos (hany.2 hkey), ih before hrest, List.filter_cons_of_neg (by simpa using hkey)]
    · rw [if_neg (fun hfound => hkey (hany.1 hfound)),
        List.filter_cons_of_pos (by simpa using hkey)]
      have hsame : ∀ (name : String), rest.filter
            (fun t => t ∉ (before ++ [tokenArgument token name]).map (·.key))
          = rest.filter (fun t => t ∉ before.map (·.key)) := by
        intro name
        apply List.filter_congr
        intro t ht
        have hne : t ≠ token := fun heq => htoken (heq ▸ ht)
        simp [tokenArgument, hne]
      show (claimTokens function _ rest).value.map _ = _
      rw [ih _ hrest, hsame, List.map_append, List.append_assoc]
      rfl

/-! ### Endpoints of sites -/

/-- **The arguments of a site** are those that its path and parameters call for. -/
theorem OperationSite.map_unnamed_arguments (site : OperationSite) (definitions : Definitions)
    (function : String) :
    (site.endpoint definitions function).arguments.map Argument.unnamed
      = argumentsCalledFor definitions site.path site.declared := by
  have hinPath := map_unnamed_claimArguments .path definitions []
    (site.declared.filter (fun p => p.location == .path))
  have hkeys : (claimArguments .path definitions []
      (site.declared.filter (fun p => p.location == .path))).map (·.key)
        = pathNames site.declared := by
    have hunnamed := congrArg (List.map (·.key)) hinPath
    rw [List.map_map, List.map_nil, List.nil_append, List.map_map] at hunnamed
    exact hunnamed
  show (claimArguments .query definitions (claimTokens function (claimArguments .path definitions []
    (site.declared.filter (fun p => p.location == .path))) (Name.pathTokens site.path)).value
    (site.declared.filter (fun p => p.location == .query))).map _ = _
  have hrequired : ∀ p : Parameter, (p.required || Place.query == Place.path) = p.required :=
    fun p => Bool.or_false p.required
  rw [map_unnamed_claimArguments,
    map_unnamed_claimTokens _ _ (Name.nodup_pathTokens site.path), hkeys, hinPath,
    argumentsCalledFor]
  simp only [hrequired, beq_self_eq_true, Bool.or_true, List.map_nil, List.nil_append]

/-! ### Endpoints of documents -/

namespace Document

variable (d : Document) (source : String)

/-- What does not hang on the names of functions can be told from the sites. -/
theorem map_endpoints {β : Type} {f : Endpoint → β} {g : OperationSite → β}
    (h : ∀ site name, f (site.endpoint d.allDefinitions name) = g site) :
    (d.client source).value.endpoints.map f = d.sites.map g := by
  rw [endpoints_client, List.map_zipWith]
  apply List.ext_getElem
  · rw [List.length_zipWith, length_functionNames, Nat.min_self, List.length_map]
  · intro i hi hi'
    rw [List.getElem_zipWith, List.getElem_map]
    exact h _ _

/-- **Exact arguments**: there is one endpoint for each supported operation of each
    path item, in order, and its arguments are those that the path and the resolved
    parameters call for. Every token of the path is the key of a required argument
    for the path. -/
theorem arguments_exact :
    (d.client source).value.endpoints.map
        (fun e => (e.path, e.method, e.arguments.map Argument.unnamed))
      = d.paths.flatMap (fun entry => entry.2.operations.1.map (fun found =>
          (entry.1, found.1, argumentsCalledFor d.allDefinitions entry.1
            (overridden (d.sharedParameters.resolveAll entry.2.parameters).value
              (d.sharedParameters.resolveAll found.2.parameters).value))))
      ∧ ∀ e ∈ (d.client source).value.endpoints, ∀ token ∈ Name.pathTokens e.path,
          ∃ a ∈ e.arguments, a.key = token ∧ a.place = .path ∧ a.required = true := by
  constructor
  · rw [d.map_endpoints source (g := fun site => (site.path, site.method,
      argumentsCalledFor d.allDefinitions site.path site.declared))
      (fun site name => by rw [site.map_unnamed_arguments]; rfl)]
    rw [sites, List.map_flatMap]
    simp only [PathItem.sites, List.map_map, mergeParameters_eq]
    rfl
  · intro e he token htoken
    obtain ⟨site, -, name, -, rfl⟩ := exists_site he
    obtain ⟨found, hfound, hkey, hplace, hrequired⟩ :=
      exists_key_argumentsCalledFor d.allDefinitions site.declared htoken
    have hmem : found ∈ (site.endpoint d.allDefinitions name).arguments.map Argument.unnamed := by
      rw [site.map_unnamed_arguments]
      exact hfound
    obtain ⟨a, ha, rfl⟩ := List.mem_map.1 hmem
    exact ⟨a, ha, hkey, hplace, hrequired⟩

end Document

end TypedClient
