import Mathlib.Data.List.Basic
import TypedClient.Client.OfDocument

/-! # Runs over the operations of a document

    A client is made by visiting one operation of the document after the other.
    Warnings aside, a visit is one step on the progress, and the client is what
    a run of such steps over all operations leaves.

    * **Sites**: what a visit needs to know of an operation, its merged
      parameters included, does not depend on the visits before it.
    * **Names** are the one thing that passes from visit to visit. They are
      handed out to the wanted names alone, so they can be told in advance.
    * **Runs**: the endpoints are those of the sites under these names, and the
      types used are those that the sites mention.
    * **Outcomes**: what a run takes from a site is the name it asks for, its
      endpoint under any name, and the types it mentions.
-/

namespace TypedClient

variable {α β : Type}

/-! ### Values without their warnings -/

/-- The value of a run of steps with warnings is the run of their values. -/
theorem Warned.value_foldlM (step : β → α → Warned β) (items : List α) (start : β) :
    (items.foldlM step start).value = items.foldl (fun b a => (step b a).value) start := by
  induction items generalizing start with
  | nil => rfl
  | cons item rest ih =>
    rw [List.foldlM_cons, List.foldl_cons]
    exact ih (step start item).value

/-! ### Sites -/

/-- An operation where it stands in a document. -/
structure OperationSite where
  /-- The path of its path item. -/
  path : String
  method : Method
  operation : Operation
  /-- Its parameters, those shared by the path item included. -/
  declared : List Parameter

namespace OperationSite

/-- The name that the operation of a site asks for. -/
def wantedName (site : OperationSite) : String :=
  site.operation.wantedName site.method site.path

/-- The endpoint of a site under a given name. -/
def endpoint (site : OperationSite) (definitions : Definitions) (name : String) : Endpoint :=
  (site.operation.endpoint name site.method site.path site.declared definitions).value

/-- The type names that a site mentions. -/
def mentions (site : OperationSite) (definitions : Definitions) : List String :=
  site.operation.mentions site.declared definitions

/-- The schema of the body at a site. -/
def bodySchema? (site : OperationSite) : Option Schema :=
  (site.operation.bodySchema? site.declared).map (·.1)

end OperationSite

/-- The sites of a path item. -/
def PathItem.sites (item : PathItem) (shared : SharedParameters) (path : String) :
    List OperationSite :=
  item.operations.1.map (fun entry =>
    { path
      method := entry.1
      operation := entry.2
      declared := mergeParameters (shared.resolveAll item.parameters).value
        (shared.resolveAll entry.2.parameters).value })

/-- The operation that an entry of a path item counts as. -/
def PathEntry.content : PathEntry → Operation
  | .operation o => o
  | .other _ => {}

theorem PathItem.sites_eq (item : PathItem) (shared : SharedParameters) (path : String) :
    item.sites shared path = item.entries.filterMap (fun entry =>
      (Method.ofKey? entry.1).map (fun method =>
        { path, method
          operation := entry.2.content
          declared := mergeParameters (shared.resolveAll item.parameters).value
            (shared.resolveAll entry.2.content.parameters).value })) := by
  rw [sites, operations, List.map_map, List.map_filterMap]
  apply List.filterMap_congr
  intro entry _
  cases Method.ofKey? entry.1 with
  | none => rfl
  | some method => cases hvalue : entry.2 <;> simp [PathEntry.content]

/-- The sites of a document, in reading order. -/
def Document.sites (d : Document) : List OperationSite :=
  d.paths.flatMap (fun entry => entry.2.sites d.sharedParameters entry.1)

/-! ### Names -/

/-- The names handed out for a list of wanted ones, one after the other. -/
def FunctionNames.claimAll (names : FunctionNames) : List String → List String
  | [] => []
  | wanted :: rest =>
    let claimed := (names.claim wanted).value
    claimed.1 :: claimAll claimed.2 rest

/-- The function names of a document, in the order of its sites. -/
def Document.functionNames (d : Document) : List String :=
  FunctionNames.claimAll [] (d.sites.map (·.wantedName))

/-! ### Steps -/

namespace Client.Progress

/-- **The step**: visits a site. -/
def visit (definitions : Definitions) (progress : Client.Progress) (site : OperationSite) :
    Client.Progress :=
  let claimed := (progress.names.claim site.wantedName).value
  { names := claimed.2
    endpoints := progress.endpoints ++ [site.endpoint definitions claimed.1]
    used := progress.used.merge (site.mentions definitions) }

theorem value_addPath (d : Document) (definitions : Definitions) (progress : Client.Progress)
    (entry : String × PathItem) :
    (addPath d definitions progress entry).value
      = (entry.2.sites d.sharedParameters entry.1).foldl (visit definitions) progress := by
  rw [PathItem.sites, List.foldl_map]
  exact Warned.value_foldlM _ _ _

/-- What a run of visits leaves behind, whatever it started from. -/
theorem foldl_visit (definitions : Definitions) (sites : List OperationSite)
    (progress : Client.Progress) :
    (sites.foldl (visit definitions) progress).endpoints
        = progress.endpoints ++ List.zipWith (fun site name => site.endpoint definitions name) sites
            (progress.names.claimAll (sites.map (·.wantedName)))
      ∧ (sites.foldl (visit definitions) progress).used
        = progress.used.merge (sites.flatMap (·.mentions definitions)) := by
  induction sites generalizing progress with
  | nil => exact ⟨(List.append_nil _).symm, rfl⟩
  | cons site rest ih =>
    obtain ⟨hendpoints, hused⟩ := ih (progress.visit definitions site)
    rw [List.foldl_cons]
    constructor
    · rw [hendpoints]
      simp only [visit, List.append_assoc, List.singleton_append, List.map_cons,
        FunctionNames.claimAll, List.zipWith_cons_cons]
    · rw [hused]
      simp only [visit, NameSet.merge, List.flatMap_cons, List.foldl_append]

end Client.Progress

/-! ### Runs -/

/-- **The run**: visits all sites of a document. -/
def Document.run (d : Document) : Client.Progress :=
  d.sites.foldl (Client.Progress.visit d.allDefinitions) {}

/-- The client of a document is what the run over its sites leaves. -/
theorem Document.value_client (d : Document) (source : String) :
    (d.client source).value
      = { title := d.info.title
          description := d.info.description
          version := d.info.version
          source
          definitions := d.allDefinitions
          declarations := d.allDefinitions.declarations
          endpoints := d.run.endpoints
          used := d.run.used } := by
  have hrun : (d.paths.foldlM (Client.Progress.addPath d d.allDefinitions) {}).value = d.run := by
    rw [Warned.value_foldlM, Document.run, Document.sites, List.foldl_flatMap]
    exact congrArg (fun step => d.paths.foldl step {})
      (funext fun progress => funext fun entry =>
        Client.Progress.value_addPath d d.allDefinitions progress entry)
  rw [← hrun]
  rfl

/-- The definitions of a client are those of its document. -/
@[simp]
theorem Document.definitions_client (d : Document) (source : String) :
    (d.client source).value.definitions = d.allDefinitions := by
  rw [value_client]

/-- The declarations of a client are those of the definitions. -/
@[simp]
theorem Document.declarations_client (d : Document) (source : String) :
    (d.client source).value.declarations = d.allDefinitions.declarations := by
  rw [value_client]

/-- **Endpoints** are those of the sites, in order, each under the name handed
    out for it. -/
theorem Document.endpoints_client (d : Document) (source : String) :
    (d.client source).value.endpoints
      = List.zipWith (fun site name => site.endpoint d.allDefinitions name) d.sites
          d.functionNames := by
  rw [value_client]
  exact (Client.Progress.foldl_visit d.allDefinitions d.sites {}).1

/-- **Types used** are those that the sites mention. -/
theorem Document.used_client (d : Document) (source : String) :
    (d.client source).value.used
      = NameSet.ofNames (d.sites.flatMap (·.mentions d.allDefinitions)) := by
  rw [value_client]
  exact (Client.Progress.foldl_visit d.allDefinitions d.sites {}).2

/-- An endpoint of a client is that of a site under one of the names handed out. -/
theorem Document.exists_site {d : Document} {source : String} {e : Endpoint}
    (h : e ∈ (d.client source).value.endpoints) :
    ∃ site ∈ d.sites, ∃ name ∈ d.functionNames, e = site.endpoint d.allDefinitions name := by
  rw [endpoints_client, ← List.map_uncurry_zip_eq_zipWith] at h
  obtain ⟨⟨site, name⟩, hmem, rfl⟩ := List.mem_map.1 h
  exact ⟨site, (List.of_mem_zip hmem).1, name, (List.of_mem_zip hmem).2, rfl⟩

/-! ### Outcomes -/

/-- What a run takes from a site: the name it asks for, its endpoint under any
    name, and the types it mentions. -/
structure Outcome where
  wantedName : String
  endpoint : String → Endpoint
  mentions : List String

/-- The outcome of a site. -/
def OperationSite.outcome (definitions : Definitions) (site : OperationSite) : Outcome :=
  ⟨site.wantedName, site.endpoint definitions, site.mentions definitions⟩

/-- A run takes nothing from the sites but their outcomes. -/
theorem Document.endpoints_eq_of_outcomes (d : Document) (source : String) :
    (d.client source).value.endpoints
      = List.zipWith (fun (o : Outcome) name => o.endpoint name)
          (d.sites.map (OperationSite.outcome d.allDefinitions))
          (FunctionNames.claimAll []
            ((d.sites.map (OperationSite.outcome d.allDefinitions)).map Outcome.wantedName)) := by
  rw [endpoints_client, List.zipWith_map_left, List.map_map]
  rfl

theorem Document.used_eq_of_outcomes (d : Document) (source : String) :
    (d.client source).value.used
      = NameSet.ofNames ((d.sites.map (OperationSite.outcome d.allDefinitions)).flatMap
          Outcome.mentions) := by
  rw [used_client, List.flatMap_map]
  rfl

/-- **Documents with the same outcomes** have the same client, if they say the
    same about themselves and have the same named schemas. -/
theorem Document.value_client_eq_of_outcomes {d d' : Document} (hinfo : d'.info = d.info)
    (hdefinitions : d'.allDefinitions = d.allDefinitions)
    (houtcomes : d'.sites.map (OperationSite.outcome d.allDefinitions)
      = d.sites.map (OperationSite.outcome d.allDefinitions)) (source : String) :
    (d'.client source).value = (d.client source).value := by
  have hendpoints : (d'.client source).value.endpoints = (d.client source).value.endpoints := by
    rw [endpoints_eq_of_outcomes, endpoints_eq_of_outcomes, hdefinitions, houtcomes]
  have hused : (d'.client source).value.used = (d.client source).value.used := by
    rw [used_eq_of_outcomes, used_eq_of_outcomes, hdefinitions, houtcomes]
  rw [value_client, value_client] at hendpoints hused ⊢
  simp only at hendpoints hused
  rw [hinfo, hdefinitions, hendpoints, hused]

end TypedClient
