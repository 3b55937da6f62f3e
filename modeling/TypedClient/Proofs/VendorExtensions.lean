import TypedClient.Json.Printer
import TypedClient.Proofs.ClientRun
import TypedClient.Proofs.DocumentChanges

/-! # Vendor extensions

    Names that start with `x-` are free for extensions. What one of them does to
    the client of a document depends on where it stands.

    * **Path items and operations** take any extension: the path item reads it as
      an entry that no method asks for, the operation passes it over.
    * **Responses** are a table whose entries all have to be responses. An
      extension that reads as one is a response of no status, and has no effect.
      Any other one makes the whole operation unreadable, and what is left of it
      is an empty operation.
-/

namespace TypedClient

open Json

/-- Whether a name is that of an extension. -/
def IsExtension (name : String) : Prop :=
  ['x', '-'] <+: name.toList

instance (name : String) : Decidable (IsExtension name) :=
  inferInstanceAs (Decidable (['x', '-'] <+: name.toList))

/-- No method asks for an extension. -/
theorem IsExtension.ofKey? {name : String} (h : IsExtension name) : Method.ofKey? name = none := by
  obtain ⟨rest, hrest⟩ := h
  rw [Method.ofKey?, ← hrest]
  rfl

theorem IsExtension.ne_parameters {name : String} (h : IsExtension name) : name ≠ "parameters" := by
  rintro rfl
  exact absurd h (by decide)

/-! ### One more member -/

/-- An object gains a member, under a name that it does not have. -/
inductive Json.Content.Gains (name : String) (v : Content) : Content → Content → Prop
  | intro (deep : Bool) (before after : List (Option String × Content))
      (hfresh : hides id name (before ++ after) = false) :
      Gains name v (.object deep (before ++ after))
        (.object deep (before ++ (some name, v) :: after))

/-- A map gains an entry, under a key that it does not have. -/
inductive Datum.Gains (name : String) (value : Datum) : Datum → Datum → Prop
  | intro (before after : List (Datum × Datum))
      (hfresh : hides Datum.text? name (before ++ after) = false) :
      Gains name value (.map (before ++ after)) (.map (before ++ (.string name, value) :: after))

variable {name : String} {v : Content} {value : Datum}

/-- Data gain what their content gains. -/
theorem Json.Content.Gains.exists_gains (hv : v.datum? = some value) {c c' : Content} {d : Datum}
    (h : Content.Gains name v c c') (hd : c.datum? = some d) :
    ∃ d', c'.datum? = some d' ∧ Datum.Gains name value d d' := by
  obtain ⟨deep, before, after, hfresh⟩ := h
  cases deep with
  | true => cases hd
  | false =>
    rw [Content.datum?, Content.entries?_eq_mapM, Option.map_map, Option.map_eq_some_iff] at hd
    obtain ⟨values, hvalues, rfl⟩ := hd
    rw [Content.hides_of_entries hvalues] at hfresh
    obtain ⟨valuesBefore, hbefore, hvalues⟩ := Option.bind_eq_some_iff.mp
      (List.mapM_append.symm.trans hvalues)
    obtain ⟨valuesAfter, hafter, hvalues⟩ := Option.bind_eq_some_iff.mp hvalues
    obtain rfl := Option.some.inj hvalues
    have hx : readEntry id Content.datum? (some name, v) = some (name, value) := by
      rw [readEntry_of_key id rfl, hv, Option.map_some]
    rw [List.map_append] at hfresh
    rw [Function.comp_apply, List.map_append]
    refine ⟨_, ?_, .intro _ _ hfresh⟩
    rw [Content.datum?, Content.entries?_eq_mapM, mapM_append_cons_eq_some.mpr
      ⟨valuesBefore, (name, value), valuesAfter, hbefore, hx, hafter, rfl⟩]
    simp

/-- Data of a JSON text, before and after a gain. -/
theorem Json.Content.Gains.datum? (hv : v.datum? = some value) {c c' : Content} {d : Datum}
    (h : Content.Gains name v c c') (hd : c.datum? = some d) :
    ∃ d', c'.datum? = some d'
      ∧ (Datum.Gains name value d d' ∧ d.toJson?.isSome ∧ d'.toJson?.isSome) := by
  obtain ⟨d', hd', hgains⟩ := h.exists_gains hv hd
  obtain ⟨_, hold⟩ := c.exists_toJson_of_datum hd
  obtain ⟨_, hnew⟩ := c'.exists_toJson_of_datum hd'
  exact ⟨d', hd', hgains, Option.isSome_iff_exists.mpr ⟨_, hold⟩,
    Option.isSome_iff_exists.mpr ⟨_, hnew⟩⟩

namespace Datum

/-- A record does not look at a member whose name it does not know. -/
theorem Gains.fields? {names : List String} (hname : name ∉ names) {d d' : Datum}
    (h : Gains name value d d') : d'.fields? names = d.fields? names := by
  obtain ⟨before, after, _⟩ := h
  simp only [Datum.fields?, pickFields_append]
  refine congrArg _ (Option.bind_congr (fun given _ => ?_))
  simp [pickFields, fieldName?, hname]

end Datum

/-! ### Operations -/

namespace Operation

/-- An operation without a response of a given status. -/
def withoutResponse (status : String) (o : Operation) : Operation :=
  { o with responses := o.responses.filter (·.1 ≠ status) }

theorem not_mem_fieldNames (hname : IsExtension name) : name ∉ fieldNames := by
  have hfields : ∀ field ∈ fieldNames, ¬ IsExtension field := by decide
  exact fun hmem => hfields name hmem hname

/-- **Operations pass over extensions.** -/
theorem ofDatum?_gains (hname : IsExtension name) {d d' : Datum} (h : Datum.Gains name value d d') :
    Operation.ofDatum? d' = Operation.ofDatum? d := by
  rw [ofDatum?_eq, ofDatum?_eq, h.fields? (not_mem_fieldNames hname)]

variable {shown : Bool} {d d' : Datum}

/-- **An extension among the responses** that is no response makes the operation
    unreadable. -/
theorem ofDatum?_of_unreadable (hvalue : Response.ofDatum? value = none)
    (h : Datum.ChangedAt (Datum.Gains name value) [.field fieldNames "responses"] shown d d') :
    Operation.ofDatum? d' = none := by
  rw [ofDatum?_eq]
  rcases h.fields? (by decide) with ⟨_, hd'⟩ | ⟨f, _, _, _, hfound, ⟨⟨before, after, _⟩⟩, hd'⟩
  · rw [hd', Option.bind_none]
  · rw [hd', Option.bind_some]
    have hresponses : (f.withValue "responses"
        (.map (before ++ (.string name, value) :: after))).given.find? "responses"
        = some (.map (before ++ (.string name, value) :: after)) := by
      rw [Datum.Fields.withValue, Table.find?_adjust_self, hfound, Option.map_some]
    refine ofFields?_eq_none hresponses ?_
    rw [Datum.table?_eq_readTable]
    exact readTable_eq_none (by simp) (readEntry_of_unreadable Datum.text? (.string name) hvalue)

/-- An extension among the responses that is a response is one of the responses
    then, and changes nothing else. -/
theorem ofDatum?_of_readable {r : Response} (hvalue : Response.ofDatum? value = some r)
    (h : Datum.ChangedAt (Datum.Gains name value) [.field fieldNames "responses"] shown d d') :
    (Operation.ofDatum? d').map (withoutResponse name) = Operation.ofDatum? d := by
  rw [ofDatum?_eq, ofDatum?_eq]
  rcases h.fields? (by decide) with
    ⟨hd, hd'⟩ | ⟨f, _, _, hd, hfound, ⟨⟨before, after, hfresh⟩⟩, hd'⟩
  · rw [hd, hd']
    rfl
  · rw [hd, hd', Option.bind_some, Option.bind_some]
    have hresponses : f.defaulted "responses" [] (Datum.table? Response.ofDatum?)
        = ((f.withValue "responses" (.map (before ++ (.string name, value) :: after))).defaulted
            "responses" [] (Datum.table? Response.ofDatum?)).map (List.filter (·.1 ≠ name)) := by
      simp only [Datum.Fields.defaulted, Datum.Fields.withValue, Table.find?_adjust_self, hfound,
        Option.map_some, Datum.table?_eq_readTable]
      exact (readTable_gain Datum.text? before after rfl hvalue hfresh).symm
    simp (disch := decide) only [ofFields?, hresponses, Datum.Fields.defaulted_withValue_of_ne,
      Datum.Fields.optional_withValue_of_ne, Option.bind_eq_bind, Option.map_bind, Option.bind_map,
      Function.comp_def]
    rfl

end Operation

/-! ### Outcomes -/

/-- What a run takes from an entry of a path item under a method. -/
def PathEntry.outcome (entry : PathEntry) (definitions : Definitions) (shared : SharedParameters)
    (path : String) (method : Method) (inPath : List Parameter) : Outcome :=
  OperationSite.outcome definitions
    { path, method
      operation := entry.content
      declared := mergeParameters inPath (shared.resolveAll entry.content.parameters).value }

/-- Entries of which a run takes the same. -/
def PathEntry.Alike (entry entry' : PathEntry) : Prop :=
  entry'.outcome = entry.outcome

/-- A run asks for no response that stands under an extension. -/
theorem Operation.success?_withoutResponse (hname : IsExtension name) (o : Operation) :
    (o.withoutResponse name).success? = o.success? := by
  have hstatuses : ∀ status ∈ successStatuses, ¬ IsExtension status := by decide
  have hfind : ∀ status ∈ successStatuses,
      (o.withoutResponse name).responses.find? status = o.responses.find? status := by
    intro status hstatus
    have hne : status ≠ name := by
      rintro rfl
      exact hstatuses _ hstatus hname
    exact Table.find?_filter_of_ne hne o.responses
  simp only [success?, successStatuses, List.findSome?_cons, List.findSome?_nil,
    hfind "200" (by decide), hfind "201" (by decide), hfind "204" (by decide)]

theorem PathEntry.alike_of_content_eq {entry entry' : PathEntry}
    (h : entry'.content = entry.content) : entry.Alike entry' := by
  show entry'.outcome = entry.outcome
  unfold PathEntry.outcome
  rw [h]

/-- Entries are alike if their operations are the same but for an extension among
    the responses. -/
theorem PathEntry.alike_of_withoutResponse (hname : IsExtension name) {entry entry' : PathEntry}
    (h : entry'.content.withoutResponse name = entry.content) : entry.Alike entry' := by
  have hsuccess := Operation.success?_withoutResponse hname entry'.content
  funext definitions shared path method inPath
  unfold PathEntry.outcome OperationSite.outcome
  rw [← h]
  congr 1
  · funext function
    simp only [OperationSite.endpoint, Operation.endpoint, hsuccess]
    rfl
  · simp only [OperationSite.mentions, Operation.mentions, hsuccess]
    rfl

/-- Path items of which a run takes the same. -/
def PathItem.Alike (item item' : PathItem) : Prop :=
  ∀ (definitions : Definitions) (shared : SharedParameters) (path : String),
    (item'.sites shared path).map (OperationSite.outcome definitions)
      = (item.sites shared path).map (OperationSite.outcome definitions)

/-- What a run takes from a path item is what it takes from its entries. -/
theorem PathItem.outcomes_eq (item : PathItem) (definitions : Definitions)
    (shared : SharedParameters) (path : String) :
    (item.sites shared path).map (OperationSite.outcome definitions)
      = item.entries.filterMap (fun entry => (Method.ofKey? entry.1).map (fun method =>
          entry.2.outcome definitions shared path method
            (shared.resolveAll item.parameters).value)) := by
  rw [sites_eq, List.map_filterMap]
  refine List.filterMap_congr (fun entry _ => ?_)
  rw [Option.map_map]
  rfl

/-- Path items are alike if their entries are the same but for an extension, which
    no method asks for. -/
theorem PathItem.alike_of_filter (hname : IsExtension name) {item item' : PathItem}
    (hparameters : item'.parameters = item.parameters)
    (hentries : item'.entries.filter (·.1 ≠ name) = item.entries) : item.Alike item' := by
  intro definitions shared path
  rw [outcomes_eq, outcomes_eq, ← hentries, hparameters, List.filterMap_filter]
  refine List.filterMap_congr (fun entry _ => ?_)
  by_cases hkey : entry.1 = name
  · simp [hkey, hname.ofKey?]
  · simp [hkey]

/-- A path item stays alike where an entry does. -/
theorem PathItem.alike_adjust {item : PathItem} {key : String} {entry entry' : PathEntry}
    {change : PathEntry → PathEntry} (hfound : item.entries.find? key = some entry)
    (h : (change entry).Alike entry') :
    Alike { item with entries := item.entries.adjust key change }
      { item with entries := item.entries.adjust key (fun _ => entry') } := by
  obtain ⟨before, after, hadjust⟩ := Table.exists_adjust_eq hfound
  intro definitions shared path
  have houtcome : entry'.outcome = (change entry).outcome := h
  rw [outcomes_eq, outcomes_eq]
  simp only [hadjust, List.filterMap_append, List.filterMap_cons, houtcome]

/-- A document has the same client where a path item stays alike. -/
theorem Document.value_client_adjust {d : Document} {path : String} {item item' : PathItem}
    {change : PathItem → PathItem} (hfound : d.paths.find? path = some item)
    (h : (change item).Alike item') (source : String) :
    (({ d with paths := d.paths.adjust path (fun _ => item') } : Document).client source).value
      = (({ d with paths := d.paths.adjust path change } : Document).client source).value := by
  obtain ⟨before, after, hadjust⟩ := Table.exists_adjust_eq hfound
  refine Document.value_client_eq_of_outcomes ?info ?definitions ?outcomes source
  case info => rfl
  case definitions => rfl
  have houtcomes := h d.allDefinitions d.sharedParameters path
  simp only [Document.sites, hadjust, List.flatMap_append, List.flatMap_cons, List.map_append]
  exact congrArg (fun outcomes => _ ++ (outcomes ++ _)) houtcomes

/-! ### Gaining an extension -/

section Gaining

variable (hname : IsExtension name) (hv : v.datum? = some value)

/-- What stands in a JSON text is an entry of a path item, be it an operation or
    not. -/
theorem PathEntry.exists_ofDatum {c : Content} {d : Datum} (hd : c.datum? = some d) :
    ∃ entry, PathEntry.ofDatum? d = some entry
      ∧ entry.content = (Operation.ofDatum? d).getD {} := by
  obtain ⟨json, hjson⟩ := c.exists_toJson_of_datum hd
  rw [PathEntry.ofDatum?, hjson]
  cases Operation.ofDatum? d with
  | none => exact ⟨_, rfl, rfl⟩
  | some operation => exact ⟨_, rfl, rfl⟩

/-- What is no record is no operation. -/
theorem PathEntry.ofDatum?_of_fields_none {d : Datum}
    (h : d.fields? Operation.fieldNames = none) : PathEntry.ofDatum? d = d.toJson?.map .other := by
  rw [PathEntry.ofDatum?, Operation.ofDatum?_eq, h]
  rfl

theorem PathEntry.content_of_ofDatum {d : Datum} {entry : PathEntry}
    (h : PathEntry.ofDatum? d = some entry) :
    entry.content = (Operation.ofDatum? d).getD {} := by
  rw [PathEntry.ofDatum?] at h
  cases hd : Operation.ofDatum? d with
  | some operation =>
    rw [hd] at h
    cases h
    rfl
  | none =>
    rw [hd] at h
    obtain ⟨json, _, rfl⟩ := Option.map_eq_some_iff.mp h
    rfl

include hname hv

/-- An operation that gains an extension stays as it is. -/
theorem PathEntry.follows_gain :
    Content.Follows (Content.Gains name v) [] PathEntry.ofContent? PathEntry.Alike := by
  intro shown c c' hchange entry hentry
  obtain ⟨d, hd, hentry⟩ := Option.bind_eq_some_iff.mp hentry
  obtain ⟨d', hd', hdata⟩ := hchange.datum? (Content.Gains.datum? hv) hd
  obtain ⟨entry', hentry', hcontent'⟩ := PathEntry.exists_ofDatum hd'
  refine ⟨entry', by rw [PathEntry.ofContent?, hd', Option.bind_some, hentry'], ?_⟩
  cases hdata with
  | here hgains =>
    rw [Operation.ofDatum?_gains hname hgains.1, ← PathEntry.content_of_ofDatum hentry] at hcontent'
    exact PathEntry.alike_of_content_eq hcontent'

/-- What is left of an entry whose responses gain an extension: all of it, if the
    extension is a response. -/
def PathEntry.afterGain (value : Datum) (entry : PathEntry) : PathEntry :=
  if (Response.ofDatum? value).isSome then entry else .other .null

/-- An operation whose responses gain an extension is left as it is or is none. -/
theorem PathEntry.follows_gain_responses :
    Content.Follows (Content.Gains name v) [.field Operation.fieldNames "responses"]
      PathEntry.ofContent? (fun entry entry' => (entry.afterGain value).Alike entry') := by
  intro shown c c' hchange entry hentry
  obtain ⟨d, hd, hentry⟩ := Option.bind_eq_some_iff.mp hentry
  obtain ⟨d', hd', hdata⟩ := hchange.datum? (Content.Gains.datum? hv) hd
  obtain ⟨entry', hentry', hcontent'⟩ := PathEntry.exists_ofDatum hd'
  refine ⟨entry', by rw [PathEntry.ofContent?, hd', Option.bind_some, hentry'], ?_⟩
  have hgains := hdata.mono And.left
  cases shown with
  | true =>
    show (entry.afterGain value).Alike entry'
    rw [PathEntry.afterGain]
    cases hvalue : Response.ofDatum? value with
    | none =>
      rw [Operation.ofDatum?_of_unreadable hvalue hgains] at hcontent'
      exact PathEntry.alike_of_content_eq hcontent'
    | some r =>
      -- It is a response of no status then, and the operation without it is the old one.
      refine PathEntry.alike_of_withoutResponse hname ?_
      show entry'.content.withoutResponse name = entry.content
      rw [hcontent', PathEntry.content_of_ofDatum hentry,
        ← Operation.ofDatum?_of_readable hvalue hgains]
      cases Operation.ofDatum? d' <;> rfl
  | false =>
    -- Only a second field of responses hides the gain, and makes the operation none.
    rcases hgains.fields? (by decide) with ⟨hfields, hfields'⟩ | ⟨_, _, _, _, _, hrest, _⟩
    · rw [PathEntry.ofDatum?_of_fields_none hfields] at hentry
      rw [PathEntry.ofDatum?_of_fields_none hfields', hdata.toJson?_eq And.right, hentry] at hentry'
      exact (Option.some.inj hentry').symm
    · cases hrest

/-- The table of entries gains the extension, and nothing else. -/
theorem PathItem.entriesOf?_gain {before after : List (Option String × Content)}
    (hfresh : hides id name (before ++ after) = false) :
    (entriesOf? (before ++ (some name, v) :: after)).map (List.filter (·.1 ≠ name))
      = entriesOf? (before ++ after) := by
  obtain ⟨entry, hentry, _⟩ := PathEntry.exists_ofDatum hv
  have hread : PathEntry.ofContent? v = some entry := by
    rw [PathEntry.ofContent?, hv, Option.bind_some, hentry]
  have hother := isParameters_of_ne hname.ne_parameters v
  have hhides : hides id name
      (before.filter (!isParameters ·) ++ after.filter (!isParameters ·)) = false := by
    rw [← List.filter_append, hides_filter_isParameters hname.ne_parameters, hfresh]
  rw [entriesOf?, entriesOf?, List.filter_append, List.filter_append,
    List.filter_cons_of_pos (by simp [hother])]
  exact readTable_gain id _ _ rfl hread hhides

/-- A path item that gains an extension stays alike. -/
theorem PathItem.follows_gain :
    Content.Follows (Content.Gains name v) [] PathItem.ofContent? PathItem.Alike := by
  intro shown c c' hchange item hitem
  cases hchange with
  | here hgains =>
    obtain ⟨deep, before, after, hfresh⟩ := hgains
    cases deep with
    | true => cases hitem
    | false =>
      have hown : (before ++ (some name, v) :: after).filter isParameters
          = (before ++ after).filter isParameters := by
        simp [isParameters_of_ne hname.ne_parameters]
      rw [ofContent?_object, ← entriesOf?_gain hname hv hfresh] at hitem
      rw [ofContent?_object, hown]
      obtain ⟨parameters, hparameters, hitem⟩ := Option.bind_eq_some_iff.mp hitem
      rw [Option.map_map, Option.map_eq_some_iff] at hitem
      obtain ⟨entries, hentries, rfl⟩ := hitem
      refine ⟨{ parameters, entries }, by rw [hparameters, hentries]; rfl, ?_⟩
      exact alike_of_filter hname rfl rfl

end Gaining

/-! ### Documents -/

/-- A place where a document may gain an extension. -/
inductive Document.ExtensionPlace where
  | pathItem (path : String)
  | operation (path key : String) (hkey : key ≠ "parameters")
  /-- Among the responses of an operation. -/
  | responses (path key : String) (hkey : key ≠ "parameters")

namespace Document.ExtensionPlace

def steps : ExtensionPlace → List Step
  | .pathItem path => [.field fieldNames "paths", .member path]
  | .operation path key _ => [.field fieldNames "paths", .member path, .member key]
  | .responses path key _ =>
    [.field fieldNames "paths", .member path, .member key, .field Operation.fieldNames "responses"]

/-- What is left of a document that gains an extension: all of it, unless the
    extension stands among responses and is none. Then the operation is lost. -/
def afterGain (value : Datum) : ExtensionPlace → Document → Document
  | .pathItem _, d => d
  | .operation _ _ _, d => d
  | .responses path key _, d =>
    { d with paths := Table.adjust path (fun item => { item with
        entries := Table.adjust key (PathEntry.afterGain value) item.entries }) d.paths }

/-- A path item that gains an extension, at a key or itself, changes the client as
    the path item is changed. -/
theorem follows_path {steps : List Step} {change : PathItem → PathItem}
    (h : Content.Follows (Content.Gains name v) steps PathItem.ofContent?
      (fun item item' => (change item).Alike item')) (path : String) :
    Content.Follows (Content.Gains name v) (.field fieldNames "paths" :: .member path :: steps)
      Document.ofContent? (fun d d' => ∀ source, (d'.client source).value
        = (({ d with paths := d.paths.adjust path change } : Document).client source).value) := by
  refine (Document.follows_paths (h.table path)).mono ?_
  rintro d _ ⟨_, ⟨item, item', hfound, halike, rfl⟩, rfl⟩ source
  exact Document.value_client_adjust hfound halike source

/-- An entry that gains an extension changes its path item as the entry is
    changed. -/
theorem follows_entry {steps : List Step} {change : PathEntry → PathEntry}
    (h : Content.Follows (Content.Gains name v) steps PathEntry.ofContent?
      (fun entry entry' => (change entry).Alike entry')) {key : String}
    (hkey : key ≠ "parameters") :
    Content.Follows (Content.Gains name v) (.member key :: steps) PathItem.ofContent?
      (fun item item' =>
        PathItem.Alike { item with entries := item.entries.adjust key change } item') := by
  refine (PathItem.follows_entry h hkey).mono ?_
  rintro item _ ⟨entry, entry', hfound, halike, rfl⟩
  exact PathItem.alike_adjust hfound halike

/-- A document that gains an extension has the client of what is left of it. -/
theorem follows (p : ExtensionPlace) (hname : IsExtension name) (hv : v.datum? = some value) :
    Content.Follows (Content.Gains name v) p.steps Document.ofContent? (fun d d' =>
      ∀ source, (d'.client source).value = ((p.afterGain value d).client source).value) := by
  cases p with
  | pathItem path =>
    have hitem : Content.Follows (Content.Gains name v) [] PathItem.ofContent?
        (fun item item' => PathItem.Alike ((fun item => item) item) item') :=
      PathItem.follows_gain hname hv
    refine (follows_path hitem path).mono (fun d d' h source => ?_)
    rw [h, Table.adjust_id]
    rfl
  | operation path key hkey =>
    have hentry : Content.Follows (Content.Gains name v) [] PathEntry.ofContent?
        (fun entry entry' => PathEntry.Alike ((fun entry => entry) entry) entry') :=
      PathEntry.follows_gain hname hv
    refine (follows_path (follows_entry hentry hkey) path).mono (fun d d' h source => ?_)
    simp only [Table.adjust_id] at h
    exact h source
  | responses path key hkey =>
    exact follows_path (follows_entry (PathEntry.follows_gain_responses hname hv) hkey) path

end Document.ExtensionPlace

/-- **Vendor extensions**: a text that gains an extension is accepted. Its client
    is the same, unless the extension stands among responses and does not read as
    one: then it is that of a document in which the operation is none. -/
theorem Document.value_client_of_gain {text text' : String} {c c' : Content} {shown : Bool}
    {d : Document} (p : Document.ExtensionPlace) (hname : IsExtension name)
    (hd : Document.ofJsonText text = .ok d) (hc : Json.Holds text c) (hc' : Json.Holds text' c')
    (hv : v.datum? = some value)
    (hchange : Content.ChangedAt (Content.Gains name v) p.steps shown c c') :
    ∃ d', Document.ofJsonText text' = .ok d' ∧ ∀ source,
      (d'.client source).value
        = ((if shown then p.afterGain value d else d).client source).value := by
  obtain ⟨_, hheld, hread⟩ := Document.ofJsonText_eq_ok_iff.mp hd
  obtain rfl := hc.2.symm.trans hheld.2
  obtain ⟨d', hd', hchanges⟩ := p.follows hname hv hchange hread
  refine ⟨d', Document.ofJsonText_eq_ok_iff.mpr ⟨c', hc', hd'⟩, fun source => ?_⟩
  cases shown with
  | true => exact hchanges source
  | false =>
    obtain rfl : d' = d := hchanges
    rfl

/-! ### An operation lost -/

/-- The text of a document with an operation that has given responses. -/
def petsText (responses : List (String × Json)) : String :=
  Json.compact (.object [("paths", .object [("/pets", .object [("get", .object
    [("operationId", .string "listPets"), ("responses", .object responses)])])])])

/-- The content of that text. -/
def petsContent (responses : List (Option String × Content)) : Content :=
  .object false [(some "paths", .object false [(some "/pets", .object false [(some "get",
    .object false [(some "operationId", .string "listPets"),
      (some "responses", .object false responses)])])])]

/-- The document that the text is read as. -/
def pets (responses : Table Response) : Document :=
  let operation : Operation := { operationId := some "listPets", responses }
  { paths := [("/pets", { entries := [("get", .operation operation)] })] }

/-- A flag for internal use among the responses takes the operation its name. -/
theorem Document.value_client_of_gain_sample :
    ∃ d d', Document.ofJsonText (petsText [("200", .object [])]) = .ok d
      ∧ Document.ofJsonText (petsText [("200", .object []), ("x-internal", .bool true)]) = .ok d'
      ∧ (d.client "pets.json").value.endpoints.map (·.name) = ["listPets"]
      ∧ (d'.client "pets.json").value.endpoints.map (·.name) = ["getPets"] := by
  have hc : Json.Holds (petsText [("200", .object [])])
      (petsContent [(some "200", .object false [])]) :=
    ⟨by decide +kernel, Content.eq_of_same _ _ (by decide +kernel)⟩
  have hc' : Json.Holds (petsText [("200", .object []), ("x-internal", .bool true)])
      (petsContent [(some "200", .object false []), (some "x-internal", .bool true)]) :=
    ⟨by decide +kernel, Content.eq_of_same _ _ (by decide +kernel)⟩
  have hd : Document.ofJsonText (petsText [("200", .object [])]) = .ok (pets [("200", {})]) :=
    Document.ofJsonText_eq_ok_iff.mpr ⟨_, hc, rfl⟩
  have hchange : Content.ChangedAt (Content.Gains "x-internal" (.bool true))
      (Document.ExtensionPlace.responses "/pets" "get" (by decide)).steps true
      (petsContent [(some "200", .object false [])])
      (petsContent [(some "200", .object false []), (some "x-internal", .bool true)]) :=
    .lastMember [] rfl <| .lastMember [] rfl <| .lastMember [] rfl <| .lastMember [_] rfl <|
      .here <| .intro false [_] [] rfl
  obtain ⟨d', hd', hclient⟩ := Document.value_client_of_gain
    (.responses "/pets" "get" (by decide)) (by decide) hd hc hc' rfl hchange
  refine ⟨_, d', hd, hd', by decide +kernel, ?_⟩
  rw [hclient]
  decide +kernel

end TypedClient
