import Mathlib.Data.List.Basic
import TypedClient.Proofs.ClientRun

/-! # The two dialects

    A document of the older dialect can be written in the newer one, and has the
    same client either way.

    * **Writing**: named schemas and shared parameters move among the components,
      with the references to the latter. The types that parameters give directly
      become schemas, and so do bodies and responses, under their format.
    * **References** of the older dialect are told apart by their new spelling, so
      that following them runs in a circle in the one document if it does so in
      the other.
    * **Outcomes** are the same in both dialects, operation for operation.
-/

namespace TypedClient

/-! ### Tables -/

namespace Table

variable {α β : Type}

/-- A table with its values changed. -/
def mapValues (f : α → β) (t : Table α) : Table β :=
  t.map (fun entry => (entry.1, f entry.2))

theorem find?_mapValues (f : α → β) (t : Table α) (key : String) :
    (t.mapValues f).find? key = (t.find? key).map f := by
  induction t with
  | nil => rfl
  | cons entry r ih =>
    obtain ⟨k, v⟩ := entry
    show find? key ((k, f v) :: mapValues f r) = _
    by_cases hk : k = key
    · simp [find?, hk]
    · simp [find?, hk, ih]

end Table

/-! ### The newer dialect -/

/-- Where the shared parameters of the older dialect are referred to. -/
def olderPrefix : List Char :=
  "#/parameters/".toList

/-- Where those of the newer dialect are. -/
def newerPrefix : List Char :=
  "#/components/parameters/".toList

/-- A reference to a shared parameter, in the newer dialect. -/
def newerReference (reference : String) : String :=
  if olderPrefix.isPrefixOf reference.toList then
    String.ofList (newerPrefix ++ reference.toList.drop olderPrefix.length)
  else reference

/-- A parameter in the newer dialect: one for the path or the query has a schema. -/
def Parameter.newer (p : Parameter) : Parameter :=
  if (p.location = .path ∨ p.location = .query) ∧ p.schema.isNone then
    { p with schema := some p.effectiveSchema }
  else p

/-- An entry of a list or table of parameters in the newer dialect. -/
def ParameterEntry.newer : ParameterEntry → ParameterEntry
  | .reference r => .reference (newerReference r)
  | .inline p => .inline p.newer

/-- A schema as the JSON payload of a body or response. -/
def jsonContent (schema : Schema) : Table MediaType :=
  [(jsonMediaType, { schema := some schema })]

/-- A response in the newer dialect: its schema stands under its format. -/
def Response.newer (r : Response) : Response :=
  match r.schema with
  | some schema => { r with content := jsonContent schema, schema := none }
  | none => r

/-- The body that the first parameter located there stands for, if it has a
    schema. -/
def bodyOfParameters? (declared : List Parameter) : Option RequestBody :=
  (declared.find? (fun p => p.location == .body)).bind (fun p =>
    p.schema.map (fun schema =>
      { description := p.description, content := jsonContent schema, required := p.required }))

/-- An operation in the newer dialect, given its parameters with the shared ones. -/
def Operation.newer (declared : List Parameter) (o : Operation) : Operation :=
  { o with
    parameters := o.parameters.map ParameterEntry.newer
    requestBody := bodyOfParameters? declared
    responses := Table.mapValues Response.newer o.responses }

/-- An entry of a path item in the newer dialect. -/
def PathEntry.newer (shared : SharedParameters) (inPath : List Parameter) : PathEntry → PathEntry
  | .operation o =>
    .operation (o.newer (mergeParameters inPath (shared.resolveAll o.parameters).value))
  | .other value => .other value

/-- A path item in the newer dialect. -/
def PathItem.newer (shared : SharedParameters) (item : PathItem) : PathItem :=
  { parameters := item.parameters.map ParameterEntry.newer
    entries :=
      Table.mapValues (PathEntry.newer shared (shared.resolveAll item.parameters).value)
        item.entries }

/-- A document of the older dialect, in the newer one. -/
def Document.newer (d : Document) : Document :=
  { d with
    paths := Table.mapValues (PathItem.newer d.sharedParameters) d.paths
    components := some
      { schemas := d.definitions
        parameters := Table.mapValues ParameterEntry.newer d.parameters }
    definitions := []
    parameters := [] }

/-! ### The older dialect -/

/-- Whether an entry does not refer to a part of the newer dialect. -/
def ParameterEntry.IsOlder : ParameterEntry → Prop
  | .reference r => ¬ "#/components/".toList <+: r.toList
  | .inline _ => True

/-- Whether an operation has nothing that only the newer dialect has. -/
structure Operation.IsOlder (o : Operation) : Prop where
  parameters : ∀ entry ∈ o.parameters, entry.IsOlder
  requestBody : o.requestBody = none
  /-- Responses give their schema directly. -/
  responses : ∀ entry ∈ o.responses, entry.2.content = []

/-- Whether a path item has nothing that only the newer dialect has. -/
structure PathItem.IsOlder (item : PathItem) : Prop where
  parameters : ∀ entry ∈ item.parameters, entry.IsOlder
  operations : ∀ entry ∈ item.entries, ∀ o, entry.2 = .operation o → o.IsOlder

/-- **Older documents** have nothing that only the newer dialect has. -/
structure Document.IsOlder (d : Document) : Prop where
  components : d.components = none
  /-- As in every table, no key stands there twice. -/
  definitions : d.definitions.keys.Nodup
  parameters : ∀ entry ∈ d.parameters, entry.2.IsOlder
  paths : ∀ entry ∈ d.paths, entry.2.IsOlder

/-! ### References -/

theorem Name.lastSegment_append (s r : List Char) :
    lastSegment (s ++ '/' :: r) = lastSegment r := by
  induction s with
  | nil => simp [lastSegment]
  | cons c t ih => simp [lastSegment, ih]

/-- Both prefixes end at a slash. -/
theorem olderPrefix_eq : olderPrefix = "#/parameters".toList ++ ['/'] := by
  decide

theorem newerPrefix_eq : newerPrefix = "#/components/parameters".toList ++ ['/'] := by
  decide

/-- A reference names the same parameter in either dialect. -/
theorem referenceName_newerReference (reference : String) :
    Name.referenceName (newerReference reference) = Name.referenceName reference := by
  unfold newerReference
  split
  · rename_i hprefix
    obtain ⟨rest, hrest⟩ := List.isPrefixOf_iff_prefix.1 hprefix
    have hdrop : reference.toList.drop olderPrefix.length = rest := by
      rw [← hrest, List.drop_left]
    rw [Name.referenceName, Name.referenceName, String.toList_ofList, hdrop, ← hrest,
      olderPrefix_eq, newerPrefix_eq, List.append_assoc, List.append_assoc, List.singleton_append,
      Name.lastSegment_append, Name.lastSegment_append]
  · rfl

/-- The new spelling of a reference of the older dialect to a shared parameter. -/
theorem toList_newerReference {reference : String} {rest : List Char}
    (h : reference.toList = olderPrefix ++ rest) :
    (newerReference reference).toList = newerPrefix ++ rest := by
  have hprefix : olderPrefix.isPrefixOf reference.toList = true :=
    List.isPrefixOf_iff_prefix.2 ⟨rest, h.symm⟩
  rw [newerReference, if_pos hprefix, String.toList_ofList, h, List.drop_left]

/-- Any other reference is left alone. -/
theorem newerReference_of_no_match {reference : String}
    (h : ¬ olderPrefix <+: reference.toList) : newerReference reference = reference := by
  rw [newerReference, if_neg (fun hprefix => h (List.isPrefixOf_iff_prefix.1 hprefix))]

theorem components_prefix_newerPrefix (rest : List Char) :
    "#/components/".toList <+: newerPrefix ++ rest := by
  have hprefix : "#/components/".toList <+: newerPrefix := by
    decide
  exact hprefix.trans (List.prefix_append newerPrefix rest)

/-- References of the older dialect are spelled differently in the newer one if
    they are different. -/
theorem newerReference_inj {first second : String}
    (hfirst : (ParameterEntry.reference first).IsOlder)
    (hsecond : (ParameterEntry.reference second).IsOlder)
    (h : newerReference first = newerReference second) : first = second := by
  by_cases hone : olderPrefix <+: first.toList
  · obtain ⟨rest, hrest⟩ := hone
    have hnewer := toList_newerReference hrest.symm
    by_cases htwo : olderPrefix <+: second.toList
    · obtain ⟨rest', hrest'⟩ := htwo
      have hnewer' := toList_newerReference hrest'.symm
      rw [h, hnewer'] at hnewer
      have heq : rest' = rest := List.append_cancel_left hnewer
      apply String.toList_inj.1
      rw [← hrest, ← hrest', heq]
    · -- What is spelled anew refers to a part of the newer dialect.
      rw [h, newerReference_of_no_match htwo] at hnewer
      exact absurd (hnewer ▸ components_prefix_newerPrefix rest) hsecond
  · rw [newerReference_of_no_match hone] at h
    by_cases htwo : olderPrefix <+: second.toList
    · obtain ⟨rest', hrest'⟩ := htwo
      have hnewer' := toList_newerReference hrest'.symm
      rw [← h] at hnewer'
      exact absurd (hnewer' ▸ components_prefix_newerPrefix rest') hfirst
    · rw [newerReference_of_no_match htwo] at h
      exact h

/-! ### Parameters -/

namespace Parameter

variable (p : Parameter)

@[simp]
theorem name_newer : p.newer.name = p.name := by
  unfold newer
  split <;> rfl

@[simp]
theorem location_newer : p.newer.location = p.location := by
  unfold newer
  split <;> rfl

@[simp]
theorem description_newer : p.newer.description = p.description := by
  unfold newer
  split <;> rfl

@[simp]
theorem required_newer : p.newer.required = p.required := by
  unfold newer
  split <;> rfl

/-- A parameter has the same values in either dialect. -/
@[simp]
theorem effectiveSchema_newer : p.newer.effectiveSchema = p.effectiveSchema := by
  unfold newer
  split
  · rfl
  · rfl

/-- A parameter in the body has its schema already. -/
theorem newer_of_body (h : p.location = .body) : p.newer = p := by
  simp [newer, h]

@[simp]
theorem argument_newer (name : String) (place : Place) (definitions : Definitions) :
    p.newer.argument name place definitions = p.argument name place definitions := by
  simp [argument]

end Parameter

section Lists

variable (parameters : List Parameter) (location : Location)

theorem filter_map_newer :
    (parameters.map Parameter.newer).filter (fun p => p.location == location)
      = (parameters.filter (fun p => p.location == location)).map Parameter.newer := by
  rw [List.filter_map]
  congr 1
  apply List.filter_congr
  intro p _
  simp

theorem find?_map_newer :
    (parameters.map Parameter.newer).find? (fun p => p.location == location)
      = (parameters.find? (fun p => p.location == location)).map Parameter.newer := by
  rw [List.find?_map]
  have htest : (fun p : Parameter => p.location == location) ∘ Parameter.newer
      = fun p => p.location == location := by
    funext p
    simp
  rw [htest]

theorem mergeParameters_map_newer (shared own : List Parameter) :
    mergeParameters (shared.map Parameter.newer) (own.map Parameter.newer)
      = (mergeParameters shared own).map Parameter.newer := by
  have hreplaced : ∀ s : Parameter,
      (own.map Parameter.newer).any
          (fun o => o.name == s.newer.name && o.location == s.newer.location)
        = own.any (fun o => o.name == s.name && o.location == s.location) := by
    intro s
    rw [List.any_map]
    congr 1
    funext o
    simp
  rw [mergeParameters, mergeParameters, List.map_append, List.filter_map]
  congr 2
  apply List.filter_congr
  intro s _
  simp only [Function.comp_apply, hreplaced]

theorem claimArguments_map_newer (place : Place) (definitions : Definitions)
    (before : List Argument) :
    claimArguments place definitions before (parameters.map Parameter.newer)
      = claimArguments place definitions before parameters := by
  induction parameters generalizing before with
  | nil => rfl
  | cons p rest ih =>
    rw [List.map_cons, claimArguments, claimArguments]
    simp only [Parameter.name_newer, Parameter.argument_newer]
    exact ih _

theorem mentionsOf_map_newer (definitions : Definitions) :
    mentionsOf (parameters.map Parameter.newer) location definitions
      = mentionsOf parameters location definitions := by
  rw [mentionsOf, mentionsOf, filter_map_newer, List.flatMap_map]
  apply List.flatMap_congr
  intro p _
  rw [Parameter.effectiveSchema_newer]

/-- The body that parameters stand for has the same schema and description in
    either dialect. -/
theorem bodySchema?_map_newer (o o' : Operation) (ho : o.requestBody = none)
    (ho' : o'.requestBody = none) :
    o'.bodySchema? (parameters.map Parameter.newer) = o.bodySchema? parameters := by
  rw [Operation.bodySchema?, Operation.bodySchema?, ho, ho', find?_map_newer]
  cases hfound : parameters.find? (fun p => p.location == .body) with
  | none => rfl
  | some p =>
    have hbody : p.location = .body := by simpa using List.find?_some hfound
    rw [Option.map_some, p.newer_of_body hbody]

end Lists

/-! ### Following references -/

namespace SharedParameters

/-- Shared parameters of the older dialect, in the newer one. -/
def newer (shared : SharedParameters) : SharedParameters :=
  ⟨[], Table.mapValues ParameterEntry.newer shared.old⟩

variable {shared : SharedParameters}

/-- The older dialect has no other shared parameters, and refers to no others. -/
structure IsOlder (shared : SharedParameters) : Prop where
  new : shared.new = []
  old : ∀ entry ∈ shared.old, entry.2.IsOlder

theorem IsOlder.of_find? (h : shared.IsOlder) {reference : String} {next : ParameterEntry}
    (hfound : shared.find? reference = some next) : next.IsOlder := by
  unfold find? at hfound
  rw [h.new] at hfound
  split at hfound
  · simp [Table.find?] at hfound
  · split at hfound
    · exact h.old _ (Table.mem_of_find?_eq_some hfound)
    · cases hfound

/-- **Look-up**: a reference names the same entry in either dialect. -/
theorem find?_newer (shared : SharedParameters) {reference : String}
    (hreference : (ParameterEntry.reference reference).IsOlder) :
    shared.newer.find? (newerReference reference)
      = (shared.find? reference).map ParameterEntry.newer := by
  have hnot : newerPrefix.isPrefixOf reference.toList = false := by
    rw [Bool.eq_false_iff]
    intro hprefix
    obtain ⟨rest, hrest⟩ := List.isPrefixOf_iff_prefix.1 hprefix
    exact hreference (hrest ▸ components_prefix_newerPrefix rest)
  have hname := referenceName_newerReference reference
  have holder : shared.find? reference = if olderPrefix.isPrefixOf reference.toList then
      shared.old.find? (Name.referenceName reference) else none := by
    show (if newerPrefix.isPrefixOf reference.toList then _ else _) = _
    rw [hnot]
    rfl
  rw [holder]
  by_cases hprefix : olderPrefix <+: reference.toList
  · obtain ⟨rest, hrest⟩ := hprefix
    have hlist := toList_newerReference hrest.symm
    have hnewer : newerPrefix.isPrefixOf (newerReference reference).toList = true := by
      rw [hlist]
      exact List.isPrefixOf_iff_prefix.2 (List.prefix_append _ _)
    rw [if_pos (List.isPrefixOf_iff_prefix.2 ⟨rest, hrest⟩)]
    show (if newerPrefix.isPrefixOf (newerReference reference).toList then _ else _) = _
    rw [if_pos hnewer, hname]
    exact Table.find?_mapValues _ _ _
  · rw [newerReference_of_no_match hprefix,
      if_neg (fun hp => hprefix (List.isPrefixOf_iff_prefix.1 hp))]
    show (if newerPrefix.isPrefixOf reference.toList then _
      else if olderPrefix.isPrefixOf reference.toList then _ else _) = _
    rw [hnot, if_neg (fun hp => hprefix (List.isPrefixOf_iff_prefix.1 hp))]
    rfl

/-- Striking out a reference of the older dialect strikes out its new spelling. -/
theorem strike_map_newer {reference : String} {unused : List String}
    (hreference : (ParameterEntry.reference reference).IsOlder)
    (hunused : ∀ r ∈ unused, (ParameterEntry.reference r).IsOlder) :
    strike (newerReference reference) (unused.map newerReference)
      = (strike reference unused).map newerReference := by
  rw [strike, strike, List.filter_map]
  congr 1
  apply List.filter_congr
  intro other hother
  have hsame : newerReference other = newerReference reference ↔ other = reference :=
    ⟨newerReference_inj (hunused other hother) hreference, fun heq => heq ▸ rfl⟩
  simp [hsame]

/-- **Following** an entry leads to the same parameter in either dialect, or in
    neither to any. -/
theorem IsOlder.value_follow_newer (h : shared.IsOlder) {unused : List String}
    (hunused : ∀ r ∈ unused, (ParameterEntry.reference r).IsOlder) {entry : ParameterEntry}
    (hentry : entry.IsOlder) :
    (shared.newer.follow (unused.map newerReference) entry.newer).value
      = (shared.follow unused entry).value.map Parameter.newer := by
  fun_induction follow shared unused entry with
  | case1 unused p =>
    rw [ParameterEntry.newer, follow]
    rfl
  | case2 unused reference hmem next hfound ih =>
    have hmem' : newerReference reference ∈ unused.map newerReference :=
      List.mem_map_of_mem hmem
    have hfound' := find?_newer shared hentry
    have hstruck : ∀ r ∈ strike reference unused, (ParameterEntry.reference r).IsOlder :=
      fun r hr => hunused r (List.mem_filter.1 hr).1
    rw [hfound, Option.map_some] at hfound'
    rw [ParameterEntry.newer, follow, dif_pos hmem']
    split
    · rename_i next' hnext'
      rw [hfound'] at hnext'
      rw [← Option.some.inj hnext', strike_map_newer hentry hunused]
      exact ih hstruck (h.of_find? hfound)
    · rename_i hnone
      rw [hfound'] at hnone
      cases hnone
  | case3 unused reference hmem hfound =>
    have hmem' : newerReference reference ∈ unused.map newerReference :=
      List.mem_map_of_mem hmem
    have hfound' := find?_newer shared hentry
    rw [hfound, Option.map_none] at hfound'
    rw [ParameterEntry.newer, follow, dif_pos hmem']
    split
    · rename_i next' hnext'
      rw [hfound'] at hnext'
      cases hnext'
    · rfl
  | case4 unused reference hmem =>
    have hmem' : newerReference reference ∉ unused.map newerReference := by
      intro hin
      obtain ⟨other, hother, hsame⟩ := List.mem_map.1 hin
      exact hmem (newerReference_inj (hunused other hother) hentry hsame ▸ hother)
    rw [ParameterEntry.newer, follow, dif_neg hmem']
    rfl

theorem reference?_newer (entry : ParameterEntry) :
    reference? entry.newer = (reference? entry).map newerReference := by
  cases entry <;> rfl

theorem IsOlder.references_newer (h : shared.IsOlder) :
    shared.newer.references = shared.references.map newerReference := by
  rw [references, references, h.new, List.append_nil, newer, List.nil_append, Table.mapValues,
    List.filterMap_map, List.map_filterMap]
  apply List.filterMap_congr
  intro entry _
  exact reference?_newer entry.2

theorem isOlder_of_reference? {entry : ParameterEntry} (hentry : entry.IsOlder) {reference : String}
    (h : reference? entry = some reference) : (ParameterEntry.reference reference).IsOlder := by
  cases entry with
  | reference r =>
    obtain rfl := Option.some.inj h
    exact hentry
  | inline p => cases h

theorem IsOlder.value_resolve_newer (h : shared.IsOlder) {entry : ParameterEntry}
    (hentry : entry.IsOlder) :
    (shared.newer.resolve entry.newer).value
      = (shared.resolve entry).value.map Parameter.newer := by
  have hunused : ∀ r ∈ (reference? entry).toList ++ shared.references,
      (ParameterEntry.reference r).IsOlder := by
    intro r hr
    rcases List.mem_append.1 hr with hr | hr
    · exact isOlder_of_reference? hentry (Option.mem_toList.1 hr)
    · rw [references, h.new, List.append_nil] at hr
      obtain ⟨other, hother, hreference⟩ := List.mem_filterMap.1 hr
      exact isOlder_of_reference? (h.old other hother) hreference
  have hlist : (reference? entry.newer).toList ++ shared.newer.references
      = ((reference? entry).toList ++ shared.references).map newerReference := by
    rw [reference?_newer, h.references_newer, List.map_append]
    cases reference? entry <;> rfl
  rw [resolve, resolve, hlist]
  exact h.value_follow_newer hunused hentry

/-- **Lists** of entries stand for the same parameters in either dialect. -/
theorem IsOlder.value_resolveAll_newer (h : shared.IsOlder) {entries : List ParameterEntry}
    (hentries : ∀ entry ∈ entries, entry.IsOlder) :
    (shared.newer.resolveAll (entries.map ParameterEntry.newer)).value
      = (shared.resolveAll entries).value.map Parameter.newer := by
  simp only [resolveAll, List.filterMap_map, List.map_filterMap]
  apply List.filterMap_congr
  intro entry hentry
  exact h.value_resolve_newer (hentries entry hentry)

end SharedParameters

/-! ### Responses -/

theorem Response.jsonSchema?_newer {r : Response} (h : r.content = []) :
    r.newer.jsonSchema? = r.jsonSchema? := by
  unfold newer
  split
  · rename_i schema hschema
    rw [jsonSchema?, jsonSchema?, h, hschema]
    rfl
  · rfl

/-- An operation returns the same in either dialect. -/
theorem Operation.IsOlder.returned_newer {o : Operation} (h : o.IsOlder)
    (declared : List Parameter) :
    (o.newer declared).success?.bind Response.jsonSchema?
      = o.success?.bind Response.jsonSchema? := by
  have hsuccess : (o.newer declared).success? = o.success?.map Response.newer := by
    have hstatus : ∀ status, (o.newer declared).responses.find? status
        = (o.responses.find? status).map Response.newer :=
      fun status => Table.find?_mapValues _ _ _
    simp only [success?, hstatus]
    induction successStatuses with
    | nil => rfl
    | cons status rest ih =>
      cases hfound : o.responses.find? status with
      | none => simpa [List.findSome?_cons, hfound] using ih
      | some r => simp [hfound]
  rw [hsuccess]
  cases hfound : o.success? with
  | none => rfl
  | some r =>
    obtain ⟨status, -, hstatus⟩ := List.exists_of_findSome?_eq_some hfound
    exact Response.jsonSchema?_newer (h.responses _ (Table.mem_of_find?_eq_some hstatus))

/-! ### Outcomes -/

/-- The outcome of a site hangs on nothing that differs in the dialects. -/
theorem OperationSite.outcome_eq {definitions : Definitions} {path : String} {method : Method}
    {o o' : Operation} {declared : List Parameter}
    (hid : o'.operationId = o.operationId) (hsummary : o'.summary = o.summary)
    (hdescription : o'.description = o.description) (hdeprecated : o'.deprecated = o.deprecated)
    (hbody : o'.bodySchema? (declared.map Parameter.newer) = o.bodySchema? declared)
    (hreturned : o'.success?.bind Response.jsonSchema? = o.success?.bind Response.jsonSchema?) :
    outcome definitions ⟨path, method, o', declared.map Parameter.newer⟩
      = outcome definitions ⟨path, method, o, declared⟩ := by
  have hname : o'.wantedName method path = o.wantedName method path := by
    rw [Operation.wantedName, Operation.wantedName, hid]
  have hendpoint : ∀ name,
      (o'.endpoint name method path (declared.map Parameter.newer) definitions).value
        = (o.endpoint name method path declared definitions).value := by
    intro name
    simp only [Operation.endpoint, filter_map_newer, claimArguments_map_newer, hbody, hreturned,
      hsummary, hdescription, hdeprecated]
  have hmentions : o'.mentions (declared.map Parameter.newer) definitions
      = o.mentions declared definitions := by
    simp only [Operation.mentions, mentionsOf_map_newer, hbody, hreturned]
  unfold outcome
  congr 1
  exact funext hendpoint

/-- The outcome of an operation is the same in either dialect. -/
theorem Operation.IsOlder.outcome_newer {o : Operation} (h : o.IsOlder) (definitions : Definitions)
    (path : String) (method : Method) (declared : List Parameter) :
    OperationSite.outcome definitions ⟨path, method, o.newer declared, declared.map Parameter.newer⟩
      = OperationSite.outcome definitions ⟨path, method, o, declared⟩ := by
  refine OperationSite.outcome_eq rfl rfl rfl rfl ?_ (h.returned_newer declared)
  cases hbody : bodyOfParameters? declared with
  | none =>
    -- Without a body of its own, the operation falls back on its parameters.
    exact bodySchema?_map_newer declared o (o.newer declared) h.requestBody hbody
  | some body =>
    obtain ⟨p, hp, hschema⟩ := Option.bind_eq_some_iff.1 hbody
    obtain ⟨schema, hs, rfl⟩ := Option.map_eq_some_iff.1 hschema
    rw [bodySchema?, bodySchema?, h.requestBody, hp]
    simp only [newer, hbody, hs]
    rfl

/-- An entry of a path item has the same outcome in either dialect. -/
theorem PathEntry.outcome_newer {entry : PathEntry} (h : ∀ o, entry = .operation o → o.IsOlder)
    {shared : SharedParameters} (hshared : shared.IsOlder) (definitions : Definitions)
    (path : String) (method : Method) (inPath : List Parameter) :
    OperationSite.outcome definitions
        ⟨path, method, (entry.newer shared inPath).content,
          mergeParameters (inPath.map Parameter.newer)
            (shared.newer.resolveAll (entry.newer shared inPath).content.parameters).value⟩
      = OperationSite.outcome definitions
          ⟨path, method, entry.content,
            mergeParameters inPath (shared.resolveAll entry.content.parameters).value⟩ := by
  cases entry with
  | operation o =>
    have ho := h o rfl
    have hown := hshared.value_resolveAll_newer ho.parameters
    have hdeclared := mergeParameters_map_newer inPath (shared.resolveAll o.parameters).value
    rw [← hown] at hdeclared
    have houtcome := ho.outcome_newer definitions path method
      (mergeParameters inPath (shared.resolveAll o.parameters).value)
    rw [← hdeclared] at houtcome
    exact houtcome
  | other value =>
    -- What cannot be read is an empty operation in both.
    have hdeclared := mergeParameters_map_newer inPath []
    have hbody := bodySchema?_map_newer (mergeParameters inPath []) {} {} rfl rfl
    have houtcome := @OperationSite.outcome_eq definitions path method {} {}
      (mergeParameters inPath []) rfl rfl rfl rfl hbody rfl
    rw [← hdeclared] at houtcome
    exact houtcome

/-- **Path items** have the same outcomes in either dialect. -/
theorem PathItem.IsOlder.outcomes_newer {item : PathItem} (h : item.IsOlder)
    {shared : SharedParameters} (hshared : shared.IsOlder) (definitions : Definitions)
    (path : String) :
    ((item.newer shared).sites shared.newer path).map (OperationSite.outcome definitions)
      = (item.sites shared path).map (OperationSite.outcome definitions) := by
  have hpath : (shared.newer.resolveAll (item.newer shared).parameters).value
      = (shared.resolveAll item.parameters).value.map Parameter.newer :=
    hshared.value_resolveAll_newer h.parameters
  rw [sites_eq, sites_eq, hpath, List.map_filterMap, List.map_filterMap]
  show (Table.mapValues _ item.entries).filterMap _ = _
  rw [Table.mapValues, List.filterMap_map]
  apply List.filterMap_congr
  intro entry hentry
  cases hmethod : Method.ofKey? entry.1 with
  | none => simp [hmethod]
  | some method =>
    have houtcome := PathEntry.outcome_newer (h.operations entry hentry) hshared definitions path
      method (shared.resolveAll item.parameters).value
    simpa [hmethod] using houtcome

namespace Document

variable {d : Document}

theorem IsOlder.shared (h : d.IsOlder) : d.sharedParameters.IsOlder where
  new := by
    rw [sharedParameters, h.components]
    rfl
  old := h.parameters

theorem sharedParameters_newer (d : Document) :
    d.newer.sharedParameters = d.sharedParameters.newer :=
  rfl

/-- The named schemas are the same in either dialect. -/
theorem IsOlder.allDefinitions_newer (h : d.IsOlder) :
    d.newer.allDefinitions = d.allDefinitions := by
  have holder : d.allDefinitions = d.definitions := by
    have hall : Table.addNew [] d.definitions = [] ++ d.definitions.filter (fun _ => true) :=
      Table.addNew_eq [] h.definitions
    rw [allDefinitions, h.components]
    exact hall.trans (List.filter_true d.definitions)
  rw [holder]
  rfl

/-- The operations of a document have the same outcomes in either dialect. -/
theorem IsOlder.outcomes_newer (h : d.IsOlder) (definitions : Definitions) :
    d.newer.sites.map (OperationSite.outcome definitions)
      = d.sites.map (OperationSite.outcome definitions) := by
  rw [sites, sites, sharedParameters_newer, List.map_flatMap, List.map_flatMap]
  show (Table.mapValues (PathItem.newer d.sharedParameters) d.paths).flatMap _ = _
  rw [Table.mapValues, List.flatMap_map]
  apply List.flatMap_congr
  intro entry hentry
  exact (h.paths entry hentry).outcomes_newer h.shared definitions entry.1

/-- **The dialects are alike**: a document of the older dialect has the same
    declarations and endpoints in the newer one, and uses the same types in the
    same order. -/
theorem client_newer (h : d.IsOlder) (source : String) :
    (d.newer.client source).value.declarations = (d.client source).value.declarations
      ∧ (d.newer.client source).value.endpoints = (d.client source).value.endpoints
      ∧ (d.newer.client source).value.used = (d.client source).value.used := by
  have hdefinitions := h.allDefinitions_newer
  have houtcomes := h.outcomes_newer d.allDefinitions
  refine ⟨?_, ?_, ?_⟩
  · rw [declarations_client, declarations_client, hdefinitions]
  · rw [endpoints_eq_of_outcomes, endpoints_eq_of_outcomes, hdefinitions, houtcomes]
  · rw [used_eq_of_outcomes, used_eq_of_outcomes, hdefinitions, houtcomes]

/-- A document in which an operation has a shared parameter by way of another one,
    and a shared body. -/
def ofShared : Document :=
  { definitions := [("Player", { kinds := some (.single .object) })]
    parameters :=
      [("limit", .inline { name := "limit", location := .query, kinds := some (.single .integer) }),
       ("size", .reference "#/parameters/limit"),
       ("player", .inline
        { name := "player", location := .body
          schema := some { reference := some "#/definitions/Player" } })]
    paths := [("/players",
      { parameters := [.reference "#/parameters/player"]
        entries := [("put", .operation
          { parameters := [.reference "#/parameters/size"]
            responses :=
              [("200", { schema := some { reference := some "#/definitions/Player" } })] })] })] }

theorem ofShared_isOlder : ofShared.IsOlder where
  components := rfl
  definitions := by decide
  parameters := by
    intro entry hentry
    simp only [ofShared, List.mem_cons, List.not_mem_nil, or_false] at hentry
    rcases hentry with rfl | rfl | rfl
    · exact trivial
    · show ¬ "#/components/".toList <+: "#/parameters/limit".toList
      decide
    · exact trivial
  paths := by
    intro entry hentry
    obtain rfl := List.mem_singleton.1 hentry
    constructor
    · intro parameter hparameter
      obtain rfl := List.mem_singleton.1 hparameter
      show ¬ "#/components/".toList <+: "#/parameters/player".toList
      decide
    · intro operation hoperation o ho
      obtain rfl := List.mem_singleton.1 hoperation
      obtain rfl := PathEntry.operation.inj ho
      refine ⟨?_, rfl, ?_⟩
      · intro parameter hparameter
        obtain rfl := List.mem_singleton.1 hparameter
        show ¬ "#/components/".toList <+: "#/parameters/size".toList
        decide
      · intro response hresponse
        obtain rfl := List.mem_singleton.1 hresponse
        rfl

/-- The shared parameters are found in both dialects. -/
theorem client_newer_sample :
    ofShared.IsOlder
      ∧ (ofShared.client "").value.endpoints.map (fun e =>
          (e.arguments.map (·.name), e.body.map (·.name))) = [(["limit"], some "data")]
      ∧ (ofShared.newer.client "").value.endpoints = (ofShared.client "").value.endpoints
      ∧ (ofShared.newer.client "").value.used = ["Player"] := by
  obtain ⟨-, hendpoints, hused⟩ := client_newer ofShared_isOlder ""
  have hplayer : (ofShared.client "").value.used = ["Player"] := by
    decide +kernel
  refine ⟨ofShared_isOlder, ?_, hendpoints, ?_⟩
  · decide +kernel
  · rw [hused, hplayer]

end Document

end TypedClient
