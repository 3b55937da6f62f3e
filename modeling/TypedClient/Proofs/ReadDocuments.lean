import TypedClient.Document.Reading
import TypedClient.Proofs.DistinctKeys
import TypedClient.Proofs.StatusKeys
import TypedClient.Proofs.WrittenFiles

/-! # Documents that are read

    A document that is read has distinct keys: among its named schemas, among its paths,
    and in all that is in them. References are followed, types resolved and clashes of
    names found under that condition, and no document is read that does not meet it.

    * **Records** are read field by field. What every field keeps holds of the record.
    * **JSON texts** are read by their content, **YAML texts** node by node.
-/

namespace TypedClient

variable {α β : Type} {p : α → Prop}

/-! ### From JSON texts -/

namespace Json.Content

section Readers

variable {σ : Type} {read : Content → Option α} (h : ∀ c, ∀ value ∈ read c, p value)

include h in
theorem forall_mem_of_orNull? {c : Content} {value : Option α}
    (hvalue : c.orNull? read = some value) : ∀ found ∈ value, p found := by
  unfold orNull? at hvalue
  split at hvalue
  · obtain rfl := Option.some.inj hvalue
    simp
  · obtain ⟨found, hfound, rfl⟩ := Option.map_eq_some_iff.1 hvalue
    simpa using h _ found hfound

include h in
theorem forall_mem_of_list? {c : Content} {values : List α} (hvalues : c.list? read = some values) :
    ∀ value ∈ values, p value := by
  unfold list? at hvalues
  split at hvalues
  · exact forall_mem_of_mapM_eq_some h hvalues
  · cases hvalues

include h in
theorem distinct_of_table? {c : Content} {t : Table α} (ht : c.table? read = some t) :
    t.Distinct p := by
  match c, ht with
  | .object false members, ht =>
    exact distinct_of_readTable h (table?_eq_readTable read members ▸ ht)

/-- The reader of a field **keeps** what holds of a record. -/
def Field.Keeps (inv : σ → Prop) (field : Field σ) : Prop :=
  ∀ state, inv state → ∀ c, ∀ after ∈ field.read state c, inv after

variable {inv : σ → Prop} {fields : List (Field σ)} {state final : σ}

theorem keeps_namedFields? (hfields : ∀ field ∈ fields, field.Keeps inv) {seen : List String}
    (hstate : inv state) {members : List (Option String × Content)}
    (hfinal : namedFields? fields seen state members = some final) : inv final := by
  induction members generalizing seen state with
  | nil => exact Option.some.inj hfinal ▸ hstate
  | cons member rest ih =>
    obtain ⟨_ | name, value⟩ := member
    · cases hfinal
    · rw [namedFields?] at hfinal
      split at hfinal
      · split at hfinal
        · exact ih hstate hfinal
        · cases hfinal
      · rename_i field hfield
        split at hfinal
        · cases hfinal
        · obtain ⟨after, hafter, hfinal⟩ := Option.bind_eq_some_iff.1 hfinal
          have hkeeps := hfields field (List.mem_of_find?_eq_some hfield)
          exact ih (hkeeps state hstate value after hafter) hfinal

theorem keeps_orderedFields? (hfields : ∀ field ∈ fields, field.Keeps inv) (hstate : inv state)
    {items : List Content} (hfinal : orderedFields? state fields items = some final) :
    inv final := by
  induction fields generalizing state items with
  | nil =>
    cases items with
    | nil => exact Option.some.inj hfinal ▸ hstate
    | cons _ _ => cases hfinal
  | cons field rest ih =>
    obtain ⟨hfield, hrest⟩ := List.forall_mem_cons.1 hfields
    cases items with
    | nil =>
      rw [orderedFields?] at hfinal
      split at hfinal
      · exact Option.some.inj hfinal ▸ hstate
      · cases hfinal
    | cons item items =>
      obtain ⟨after, hafter, hfinal⟩ := Option.bind_eq_some_iff.1 hfinal
      exact ih hrest (hfield state hstate item after hafter) hfinal

/-- What all fields keep holds of a record that is read. -/
theorem keeps_record? (hfields : ∀ field ∈ fields, field.Keeps inv) (hstate : inv state)
    {c : Content} (hfinal : record? fields state c = some final) : inv final := by
  unfold record? at hfinal
  split at hfinal
  · exact keeps_namedFields? hfields hstate hfinal
  · exact keeps_orderedFields? hfields hstate hfinal
  · cases hfinal

end Readers

end Json.Content

section OfContent

open Json

theorem Schema.distinctNames_of_ofContent? (c : Content) :
    ∀ s ∈ Schema.ofContent? c, s.DistinctNames := by
  intro s h
  obtain ⟨d, -, rfl⟩ := Option.map_eq_some_iff.1 h
  cases hs : Schema.ofDatum? d with
  | none => exact distinctWithin_empty.distinctNames
  | some s => exact distinctNames_of_ofDatum? hs

theorem ParameterEntry.distinct_of_ofContent? (c : Content) :
    ∀ entry ∈ ParameterEntry.ofContent? c, entry.Distinct := by
  intro entry h
  obtain ⟨d, -, h⟩ := Option.bind_eq_some_iff.1 h
  exact distinct_of_ofDatum? d entry h

theorem PathItem.distinct_of_ofContent? (c : Content) :
    ∀ item ∈ PathItem.ofContent? c, item.Distinct := by
  intro item h
  match c, h with
  | .object false members, h =>
    rw [PathItem.ofContent?_object, Option.mem_def] at h
    obtain ⟨parameters, hparameters, h⟩ := Option.bind_eq_some_iff.1 h
    obtain ⟨entries, hentries, rfl⟩ := Option.map_eq_some_iff.1 h
    refine ⟨?_, distinct_of_readTable (fun c entry hentry => ?_) hentries⟩
    · unfold parametersOf? at hparameters
      split at hparameters
      · obtain rfl := Option.some.inj hparameters
        simp
      · exact Content.forall_mem_of_list? ParameterEntry.distinct_of_ofContent? hparameters
      · cases hparameters
    · obtain ⟨d, -, hd⟩ := Option.bind_eq_some_iff.1 hentry
      exact PathEntry.distinct_of_ofDatum? d entry hd

theorem Components.keeps_fields : ∀ field ∈ fields, field.Keeps Components.Distinct := by
  refine List.forall_mem_cons.2 ⟨fun k hk c after hafter => ?schemas,
    List.forall_mem_singleton.2 (fun k hk c after hafter => ?parameters)⟩
  case schemas =>
    obtain ⟨schemas, hschemas, rfl⟩ := Option.map_eq_some_iff.1 hafter
    exact { hk with
      schemas := Content.distinct_of_table? Schema.distinctNames_of_ofContent? hschemas }
  case parameters =>
    obtain ⟨parameters, hparameters, rfl⟩ := Option.map_eq_some_iff.1 hafter
    exact { hk with
      parameters := Content.distinct_of_table? ParameterEntry.distinct_of_ofContent? hparameters }

theorem Components.distinct_empty : Components.Distinct {} :=
  ⟨.nil, .nil⟩

theorem Components.distinct_of_ofContent? (c : Content) :
    ∀ components ∈ Components.ofContent? c, components.Distinct :=
  fun _ h => Content.keeps_record? keeps_fields distinct_empty h

theorem Document.keeps_fields : ∀ field ∈ fields, field.Keeps Document.Distinct := by
  refine List.forall_mem_cons.2 ⟨fun d hd c after hafter => ?openapi,
    List.forall_mem_cons.2 ⟨fun d hd c after hafter => ?swagger,
    List.forall_mem_cons.2 ⟨fun d hd c after hafter => ?info,
    List.forall_mem_cons.2 ⟨fun d hd c after hafter => ?paths,
    List.forall_mem_cons.2 ⟨fun d hd c after hafter => ?components,
    List.forall_mem_cons.2 ⟨fun d hd c after hafter => ?definitions,
    List.forall_mem_singleton.2 (fun d hd c after hafter => ?parameters)⟩⟩⟩⟩⟩⟩ <;>
  obtain ⟨value, hvalue, rfl⟩ := Option.map_eq_some_iff.1 hafter
  case openapi => exact { hd with }
  case swagger => exact { hd with }
  case info => exact { hd with }
  case paths =>
    exact { hd with paths := Content.distinct_of_table? PathItem.distinct_of_ofContent? hvalue }
  case components =>
    exact { hd with
      components := Content.forall_mem_of_orNull? Components.distinct_of_ofContent? hvalue }
  case definitions =>
    exact { hd with
      definitions := Content.distinct_of_table? Schema.distinctNames_of_ofContent? hvalue }
  case parameters =>
    exact { hd with
      parameters := Content.distinct_of_table? ParameterEntry.distinct_of_ofContent? hvalue }

/-- The document that says nothing. -/
theorem Document.distinct_empty : Document.Distinct {} where
  paths := .nil
  components := by simp
  definitions := .nil
  parameters := .nil

theorem Document.distinct_of_ofJsonText {text : String} {d : Document}
    (h : Document.ofJsonText text = .ok d) : d.Distinct := by
  obtain ⟨c, -, hread⟩ := Document.ofJsonText_eq_ok_iff.1 h
  exact Content.keeps_record? keeps_fields distinct_empty hread

end OfContent

/-! ### From YAML texts -/

namespace Yaml

namespace Decoder

/-- All that a reader can give is as it should be. -/
def Ensures (d : Decoder α) (p : α → Prop) : Prop :=
  ∀ anchored value, Gives anchored d value → p value

variable {d : Decoder α} {q : β → Prop}

theorem Ensures.pure {value : α} (h : p value) : Ensures (pure value) p :=
  fun _ _ hgives => hgives.of_pure ▸ h

theorem Ensures.throw (problem : Problem) : Ensures (throw problem : Decoder α) p :=
  fun _ value hgives => absurd hgives (not_gives_throw problem value)

theorem Ensures.refuse (mark : Mark) (mismatch : Mismatch) :
    Ensures (refuse mark mismatch : Decoder α) p :=
  fun _ value hgives => absurd hgives (not_gives_refuse mark mismatch value)

theorem Ensures.bind {first : Decoder β} {next : β → Decoder α} (hfirst : Ensures first q)
    (hnext : ∀ value, q value → Ensures (next value) p) : Ensures (first >>= next) p := by
  intro anchored value hgives
  obtain ⟨found, hfound, hgives⟩ := hgives.of_bind
  exact hnext found (hfirst anchored found hfound) anchored value hgives

/-- What is given first may be anything. -/
theorem Ensures.behind {first : Decoder β} {next : β → Decoder α}
    (hnext : ∀ value, Ensures (next value) p) : Ensures (first >>= next) p :=
  .bind (q := fun _ => True) (fun _ _ _ => trivial) (fun value _ => hnext value)

theorem Ensures.placing (h : Ensures d p) (mark : Mark) : Ensures (placing mark d) p :=
  fun anchored value hgives => h anchored value hgives.of_placing

theorem Ensures.within (h : Ensures d p) (key : Node) : Ensures (within key d) p :=
  fun anchored value hgives => h anchored value hgives.of_within

theorem Ensures.atItem (h : Ensures d p) (index : Nat) : Ensures (atItem index d) p :=
  fun anchored value hgives => h anchored value (hgives.of_withReader (by intro context; rfl))

theorem Ensures.entering (h : Ensures d p) (mark : Mark) : Ensures (entering mark d) p :=
  fun anchored value hgives => h anchored value hgives.of_entering

/-- What each step keeps holds in the end. -/
theorem ensures_foldlM {σ : Type} {inv : σ → Prop} {step : σ → β → Decoder σ}
    (hstep : ∀ state, inv state → ∀ item, Ensures (step state item) inv) {state : σ}
    (hstate : inv state) (items : List β) : Ensures (items.foldlM step state) inv := by
  induction items generalizing state with
  | nil => exact .pure hstate
  | cons item rest ih =>
    rw [List.foldlM_cons]
    exact (hstep state hstate item).bind (fun after hafter => ih hafter)

end Decoder

open Decoder

namespace Node

variable {σ : Type} {read : Node → Decoder α} (h : ∀ node, Ensures (read node) p)

theorem ensures_unexpected (expected : String) (node : Node) :
    Ensures (node.unexpected expected : Decoder α) p :=
  fun _ value hgives => absurd hgives (not_gives_unexpected expected node value)

/-- Where nothing is written for a collection, its default counts. -/
theorem ensures_blank {default : α} (hdefault : p default) (expected : String) (node : Node) :
    Ensures (if node.isBlank then Pure.pure default else node.unexpected expected) p := by
  split
  · exact .pure hdefault
  · exact ensures_unexpected expected node

include h in
theorem ensures_orNull (node : Node) :
    Ensures (node.orNull read) (fun value => ∀ found ∈ value, p found) := by
  have hsome : ∀ node,
      Ensures (do return some (← read node)) (fun value => ∀ found ∈ value, p found) :=
    fun node => (h node).bind (fun value hvalue => .pure (by simpa using hvalue))
  refine .behind (fun node => ?_)
  split
  · split
    · exact .pure (by simp)
    · exact hsome _
    · exact .throw _
  · exact hsome _

include h in
theorem ensures_eachItem (index : Nat) (items : List Node) :
    Ensures (eachItem read index items) (fun values => ∀ value ∈ values, p value) := by
  induction items generalizing index with
  | nil => exact .pure (by simp)
  | cons item rest ih =>
    refine ((h item).atItem index).bind (fun value hvalue => ?_)
    exact (ih (index + 1)).bind (fun values hvalues =>
      .pure (List.forall_mem_cons.2 ⟨hvalue, hvalues⟩))

include h in
theorem ensures_list (node : Node) :
    Ensures (node.list read) (fun values => ∀ value ∈ values, p value) := by
  refine .behind (fun node => ?_)
  split
  · exact (ensures_eachItem h 0 _).entering _
  · exact ensures_blank (by simp) "a sequence" _

/-- What each step keeps holds of the state in the end. -/
theorem ensures_foldEntries {inv : σ → Prop} {step : σ → String → Node → Decoder σ}
    (hstep : ∀ state, inv state → ∀ name node, Ensures (step state name node) inv)
    (expected : String) {state : σ} (hstate : inv state) (entries : List (Node × Node)) :
    Ensures (foldEntries step expected state entries) inv := by
  induction entries generalizing state with
  | nil => exact .pure hstate
  | cons entry rest ih =>
    refine .behind (fun name => ?_)
    exact ((hstep state hstate name entry.2).within entry.1).bind (fun after hafter => ih hafter)

include h in
theorem ensures_table (node : Node) : Ensures (node.table read) (Table.Distinct p) := by
  refine .behind (fun node => ?_)
  split
  · refine (ensures_foldEntries (fun t ht name node => ?_) "a string" .nil _).entering _
    exact (h node).bind (fun value hvalue => .pure (ht.insert name hvalue))
  · exact ensures_blank .nil "a map" _

/-- What all fields keep holds of a record that is read. -/
theorem ensures_record {inv : σ → Prop} {known : List (Field σ)}
    (hknown : ∀ field ∈ known, ∀ state, inv state → ∀ node, Ensures (field.read state node) inv)
    {initial : σ} (hinitial : inv initial) (name : String) (node : Node) :
    Ensures (node.record name known initial) inv := by
  have hfields : ∀ entries seen state, inv state →
      Ensures (fields known seen state entries) inv := by
    intro entries
    induction entries with
    | nil => exact fun _ _ hstate => .pure hstate
    | cons entry rest ih =>
      intro seen state hstate
      refine .behind (fun name => ?_)
      split
      · exact ih _ _ hstate
      · rename_i field hfield
        have hread := hknown field (List.mem_of_find?_eq_some hfield) state hstate entry.2
        split
        · exact .throw _
        · exact (hread.within entry.1).bind (fun after hafter => ih _ _ hafter)
  refine .behind (fun node => ?_)
  split
  · exact (hfields _ [] initial hinitial).entering _
  · exact ensures_blank hinitial name _

/-! ### Values -/

theorem ensures_scalarJson (mark : Mark) (s : Scalar) :
    Ensures (scalarJson mark s) Json.DistinctNames := by
  refine .behind (fun value => ?_)
  cases value with
  | null => exact .pure .null
  | bool b => exact .pure (.bool b)
  | natural n => exact .pure (.number _)
  | signed i => exact .pure (.number _)
  | wide value width => exact .refuse mark _
  | float x => exact .pure (Json.distinctNames_ofFloat x)
  | text => exact .pure (.string _)

theorem ensures_jsonEntries {read : Node → Decoder Json}
    (h : ∀ node, Ensures (read node) Json.DistinctNames) (expected : String)
    {members : Table Json} (hmembers : members.Distinct Json.DistinctNames)
    (entries : List (Node × Node)) :
    Ensures (jsonEntries read expected members entries) (Table.Distinct Json.DistinctNames) := by
  induction entries generalizing expected members with
  | nil => exact .pure hmembers
  | cons entry rest ih =>
    refine .behind (fun name => ?_)
    exact ((h entry.2).within entry.1).bind
      (fun value hvalue => ih _ (hmembers.insert name hvalue))

/-- A value has distinct names, as in data. -/
theorem ensures_json (depth : Nat) (node : Node) :
    Ensures (node.json depth) Json.DistinctNames := by
  induction depth generalizing node with
  | zero =>
    unfold json
    refine .behind (fun node => ?_)
    split
    · exact ensures_scalarJson _ _
    · split
      · exact .refuse _ _
      · exact .throw _
    · split
      · exact .refuse _ _
      · exact .throw _
    · exact .throw _
  | succ depth ih =>
    unfold json
    refine .behind (fun node => ?_)
    split
    · exact ensures_scalarJson _ _
    · split
      · exact .refuse _ _
      · exact ((ensures_eachItem ih 0 _).placing _).bind
          (fun values hvalues => .pure (.array hvalues))
    · split
      · exact .refuse _ _
      · refine ((ensures_jsonEntries ih "a string key" .nil _).placing _).bind
          (fun members hmembers => .pure (.object hmembers.keys hmembers.values))
    · exact .throw _

end Node

end Yaml

section OfNode

open Yaml Yaml.Decoder

theorem Schema.ensures_ofNode (node : Node) : Ensures (Schema.ofNode node) Schema.DistinctNames := by
  have hjson : Ensures node.anyJson Json.DistinctNames :=
    .behind (fun context => Node.ensures_json context.depth node)
  exact hjson.bind (fun value hvalue => .pure (readDistinct_of_distinctNames hvalue).node)

theorem ParameterEntry.ensures_ofNode (node : Node) :
    Ensures (ParameterEntry.ofNode node) ParameterEntry.Distinct := by
  refine .behind (fun d => ?_)
  split
  · rename_i entry hentry
    exact .pure (distinct_of_ofDatum? d entry hentry)
  · exact .throw _

theorem Components.ensures_ofNode (node : Node) :
    Ensures (Components.ofNode node) Components.Distinct := by
  refine Node.ensures_record ?_ distinct_empty "struct Components" node
  refine List.forall_mem_cons.2 ⟨fun k hk node => ?schemas,
    List.forall_mem_singleton.2 (fun k hk node => ?parameters)⟩
  case schemas =>
    exact (Node.ensures_table Schema.ensures_ofNode node).bind
      (fun schemas hschemas => .pure { hk with schemas := hschemas })
  case parameters =>
    exact (Node.ensures_table ParameterEntry.ensures_ofNode node).bind
      (fun parameters hparameters => .pure { hk with parameters := hparameters })

namespace PathItem

/-- The parameters of a path item while its entries are read. -/
def YamlDraft.Distinct (draft : YamlDraft) : Prop :=
  ∀ entry ∈ draft.parameters.getD [], entry.Distinct

theorem YamlDraft.ensures_entries {draft : YamlDraft} (hdraft : draft.Distinct)
    (entries : List (Node × Node)) : Ensures (draft.entries entries) YamlDraft.Distinct := by
  induction entries generalizing draft with
  | nil => exact .pure hdraft
  | cons entry rest ih =>
    refine .behind (fun name => ?_)
    split
    · split
      · exact .throw _
      · exact ((Node.ensures_list ParameterEntry.ensures_ofNode entry.2).within entry.1).bind
          (fun parameters hparameters => ih hparameters)
    · exact .behind (fun d => ih hdraft)

theorem YamlDraft.ensures_finish {draft : YamlDraft} (hdraft : draft.Distinct) :
    Ensures draft.finish PathItem.Distinct := by
  refine .bind (q := Table.Distinct PathEntry.Distinct) ?_ (fun t ht => .pure ⟨hdraft, ht⟩)
  refine ensures_foldlM (fun t ht entry => ?_) .nil _
  split
  · rename_i value hvalue
    exact .pure (ht.insert entry.1 (PathEntry.distinct_of_ofDatum? _ value hvalue))
  · exact .throw _

theorem ensures_ofNode (node : Node) : Ensures (PathItem.ofNode node) PathItem.Distinct := by
  refine .behind (fun node => ?_)
  split
  · refine Ensures.entering ?_ _
    exact (YamlDraft.ensures_entries (by simp [YamlDraft.Distinct]) _).bind
      (fun draft hdraft => YamlDraft.ensures_finish hdraft)
  · exact Node.ensures_blank ⟨by simp, .nil⟩ "struct PathItem" _

end PathItem

theorem Document.ensures_ofNode (node : Node) :
    Ensures (Document.ofNode node) Document.Distinct := by
  refine Node.ensures_record ?_ distinct_empty "struct Document" node
  refine List.forall_mem_cons.2 ⟨fun d hd node => ?openapi,
    List.forall_mem_cons.2 ⟨fun d hd node => ?swagger,
    List.forall_mem_cons.2 ⟨fun d hd node => ?info,
    List.forall_mem_cons.2 ⟨fun d hd node => ?paths,
    List.forall_mem_cons.2 ⟨fun d hd node => ?components,
    List.forall_mem_cons.2 ⟨fun d hd node => ?definitions,
    List.forall_mem_singleton.2 (fun d hd node => ?parameters)⟩⟩⟩⟩⟩⟩
  case openapi => exact .behind (fun _ => .pure { hd with })
  case swagger => exact .behind (fun _ => .pure { hd with })
  case info => exact .behind (fun _ => .pure { hd with })
  case paths =>
    exact (Node.ensures_table PathItem.ensures_ofNode node).bind
      (fun paths hpaths => .pure { hd with paths := hpaths })
  case components =>
    exact (Node.ensures_orNull Components.ensures_ofNode node).bind
      (fun components hcomponents => .pure { hd with components := hcomponents })
  case definitions =>
    exact (Node.ensures_table Schema.ensures_ofNode node).bind
      (fun definitions hdefinitions => .pure { hd with definitions := hdefinitions })
  case parameters =>
    exact (Node.ensures_table ParameterEntry.ensures_ofNode node).bind
      (fun parameters hparameters => .pure { hd with parameters := hparameters })

theorem Document.distinct_of_ofYamlText {text : String} {d : Document}
    (h : Document.ofYamlText text = .ok d) : d.Distinct := by
  obtain ⟨root, -, hgives⟩ := gives_of_decode h
  exact ensures_ofNode root _ d hgives

end OfNode

/-! ### Documents that are read -/

theorem eq_ok_of_mapError {ε ε' : Type} {x : Except ε α} {f : ε → ε'} {value : α}
    (h : x.mapError f = .ok value) : x = .ok value := by
  cases x with
  | error problem => cases h
  | ok found =>
    cases h
    rfl

/-- **Documents that are read** have distinct keys, whatever the format. -/
theorem Document.distinct_of_read {format : Format} {text : String} {d : Document}
    (h : Document.read format text = .ok d) : d.Distinct := by
  unfold Document.read at h
  cases format with
  | json => exact distinct_of_ofJsonText (eq_ok_of_mapError h)
  | yaml => exact distinct_of_ofYamlText (eq_ok_of_mapError h)
  | any =>
    simp only at h
    split at h
    · rename_i hjson
      cases h
      exact distinct_of_ofJsonText hjson
    · split at h
      · rename_i hyaml
        cases h
        exact distinct_of_ofYamlText hyaml
      · cases h

/-- **Commands** work on such documents only, be they found in a file or in the reply
    to a request, whatever the surroundings answer. -/
theorem CommandLine.distinct_of_loadDocument {config : Config} {s s' : Session} {d : Document}
    (h : Completes (loadDocument config) s d s') : d.Distinct := by
  unfold loadDocument at h
  split at h
  · obtain ⟨text, _, -, h⟩ := completes_bind_iff.1 h
    split at h
    · rename_i hread
      cases h
      exact Document.distinct_of_read hread
    · cases h
  · obtain ⟨_, _, -, h⟩ := completes_bind_iff.1 h
    obtain ⟨body, _, -, h⟩ := completes_bind_iff.1 h
    split at h
    · rename_i hread
      cases h
      exact Document.distinct_of_read hread
    · cases h

end TypedClient
