import TypedClient.Proofs.JsonContent
import TypedClient.Proofs.TableChanges

/-! # Changes inside JSON texts

    A change of a text at one place, and what readers make of it. Objects may
    repeat their names, so a change does not have to show: a later member of
    the same name hides it wherever only the last one counts.

    * **Places** are lists of steps. A field of a record is reached by its
      name, or by its number where a list stands for the record.
    * **Following**: a reader follows a change if it reads the changed value
      exactly when it reads the other one, and what it reads is changed in one
      way where the change shows, and the same where it does not.
    * **Tables, lists and records** follow at a place if what they hold follows
      at the rest of it.
-/

namespace TypedClient

/-- A step from a JSON value to a part of it. -/
inductive Step where
  | member (name : String)
  | item (index : Nat)
  /-- The field of a record that has these names: a member, or an item of a list
      that stands for the record. -/
  | field (names : List String) (name : String)

namespace Step

/-- The member of an object that a step leads to. -/
def name? : Step → Option String
  | .member name => some name
  | .item _ => none
  | .field _ name => some name

/-- The item of a list that a step leads to. -/
def index? : Step → Option Nat
  | .member _ => none
  | .item index => some index
  | .field names name => if name ∈ names then some (names.idxOf name) else none

end Step

/-! ### Changes -/

/-- **A change** of a content at a place; it shows if no object on the way has a
    later member of the same name. -/
inductive Json.Content.ChangedAt (R : Content → Content → Prop) :
    List Step → Bool → Content → Content → Prop
  | here {c c' : Content} (h : R c c') : ChangedAt R [] true c c'
  | member {step : Step} {steps : List Step} {name : String} {shown deep : Bool}
      (before after : List (Option String × Content)) {c c' : Content}
      (hstep : step.name? = some name) (h : ChangedAt R steps shown c c') :
      ChangedAt R (step :: steps) (shown && !hides id name after)
        (.object deep (before ++ (some name, c) :: after))
        (.object deep (before ++ (some name, c') :: after))
  | item {step : Step} {steps : List Step} {shown deep : Bool} (before after : List Content)
      {c c' : Content} (hstep : step.index? = some before.length)
      (h : ChangedAt R steps shown c c') :
      ChangedAt R (step :: steps) shown
        (.array deep (before ++ c :: after)) (.array deep (before ++ c' :: after))

/-- A change of data at a place, see `Json.Content.ChangedAt`. -/
inductive Datum.ChangedAt (S : Datum → Datum → Prop) : List Step → Bool → Datum → Datum → Prop
  | here {d d' : Datum} (h : S d d') : ChangedAt S [] true d d'
  | member {step : Step} {steps : List Step} {name : String} {shown : Bool}
      (before after : List (Datum × Datum)) {d d' : Datum}
      (hstep : step.name? = some name) (h : ChangedAt S steps shown d d') :
      ChangedAt S (step :: steps) (shown && !hides Datum.text? name after)
        (.map (before ++ (.string name, d) :: after))
        (.map (before ++ (.string name, d') :: after))
  | item {step : Step} {steps : List Step} {shown : Bool} (before after : List Datum)
      {d d' : Datum} (hstep : step.index? = some before.length)
      (h : ChangedAt S steps shown d d') :
      ChangedAt S (step :: steps) shown
        (.sequence (before ++ d :: after)) (.sequence (before ++ d' :: after))

namespace Json.Content

/-- A change of the last member is not hidden. -/
theorem ChangedAt.lastMember {R : Content → Content → Prop} {step : Step} {steps : List Step}
    {name : String} {shown deep : Bool} (before : List (Option String × Content)) {c c' : Content}
    (hstep : step.name? = some name) (h : ChangedAt R steps shown c c') :
    ChangedAt R (step :: steps) shown (.object deep (before ++ [(some name, c)]))
      (.object deep (before ++ [(some name, c')])) := by
  have hmember := @ChangedAt.member R step steps name shown deep before [] c c' hstep h
  rwa [show hides id name ([] : List (Option String × Content)) = false from rfl, Bool.not_false,
    Bool.and_true] at hmember

theorem data?_eq_mapM (items : List Content) : data? items = items.mapM datum? := by
  induction items with
  | nil => rfl
  | cons item rest ih =>
    rw [data?, ih, List.mapM_cons]

/-- Members are read as data entry by entry. -/
theorem entries?_eq_mapM (members : List (Option String × Content)) :
    entries? members
      = (members.mapM (readEntry id datum?)).map (List.map (fun e => (.string e.1, e.2))) := by
  induction members with
  | nil => rfl
  | cons entry rest ih =>
    obtain ⟨_ | name, value⟩ := entry
    · rfl
    · rw [entries?, ih, List.mapM_cons]
      show value.datum?.bind _ = ((value.datum?.map _).bind _).map _
      cases value.datum? with
      | none => rfl
      | some datum => cases rest.mapM (readEntry id datum?) <;> rfl

/-- The names of members are the keys of their data. -/
theorem hides_of_entries {name : String} {members : List (Option String × Content)}
    {values : List (String × Datum)} (h : members.mapM (readEntry id datum?) = some values) :
    hides id name members
      = hides Datum.text? name (values.map (fun e => (Datum.string e.1, e.2))) := by
  rw [hides_eq_decide h, hides, List.any_map, Bool.eq_iff_iff, decide_eq_true_iff]
  simp [Table.keys, Datum.text?]

/-- **Data change** where the content does. -/
theorem ChangedAt.datum? {R : Content → Content → Prop} {S : Datum → Datum → Prop}
    (hRS : ∀ {c c' d}, R c c' → c.datum? = some d → ∃ d', c'.datum? = some d' ∧ S d d')
    {steps : List Step} {shown : Bool} {c c' : Content} (h : ChangedAt R steps shown c c')
    {d : Datum} (hd : c.datum? = some d) :
    ∃ d', c'.datum? = some d' ∧ Datum.ChangedAt S steps shown d d' := by
  induction h generalizing d with
  | here h =>
    obtain ⟨d', hd', hS⟩ := hRS h hd
    exact ⟨d', hd', .here hS⟩
  | @member step steps name shown deep before after c c' hstep _ ih =>
    cases deep with
    | true => cases hd
    | false =>
      rw [Content.datum?, entries?_eq_mapM, Option.map_map, Option.map_eq_some_iff] at hd
      obtain ⟨values, hvalues, rfl⟩ := hd
      obtain ⟨valuesBefore, _, valuesAfter, hbefore, hx, hafter, rfl⟩ :=
        mapM_append_cons_eq_some.mp hvalues
      rw [readEntry_of_key id rfl, Option.map_eq_some_iff] at hx
      obtain ⟨e, he, rfl⟩ := hx
      obtain ⟨e', he', hchange⟩ := ih he
      rw [Function.comp_apply, List.map_append, List.map_cons, hides_of_entries hafter]
      refine ⟨_, ?_, .member _ _ hstep hchange⟩
      have hx' : readEntry id Content.datum? (some name, c') = some (name, e') := by
        rw [readEntry_of_key id rfl, he', Option.map_some]
      rw [Content.datum?, entries?_eq_mapM, mapM_append_cons_eq_some.mpr
        ⟨valuesBefore, (name, e'), valuesAfter, hbefore, hx', hafter, rfl⟩]
      simp
  | @item step steps shown deep before after c c' hstep _ ih =>
    cases deep with
    | true => cases hd
    | false =>
      rw [Content.datum?, data?_eq_mapM, Option.map_eq_some_iff] at hd
      obtain ⟨values, hvalues, rfl⟩ := hd
      obtain ⟨valuesBefore, e, valuesAfter, hbefore, he, hafter, rfl⟩ :=
        mapM_append_cons_eq_some.mp hvalues
      obtain ⟨e', he', hchange⟩ := ih he
      rw [← length_of_mapM_eq_some hbefore] at hstep
      refine ⟨_, ?_, .item _ _ hstep hchange⟩
      rw [Content.datum?, data?_eq_mapM, mapM_append_cons_eq_some.mpr
        ⟨valuesBefore, e', valuesAfter, hbefore, he', hafter, rfl⟩]
      rfl

end Json.Content

/-! ### JSON values of data -/

namespace Datum

theorem itemsToJson?_eq_mapM (items : List Datum) : itemsToJson? items = items.mapM toJson? := by
  induction items with
  | nil => rfl
  | cons item rest ih =>
    rw [itemsToJson?, ih, List.mapM_cons]

/-- Entries become the members of an object as they become those of a table. -/
theorem entriesToJson?_eq_readTable (entries : List (Datum × Datum)) :
    entriesToJson? [] entries = readTable text? toJson? entries := by
  have hrun : ∀ members : Table Json, entriesToJson? members entries
      = entries.foldlM (fun t entry =>
          (readEntry text? toJson? entry).map (fun e => Table.insert e.1 e.2 t)) members := by
    induction entries with
    | nil => exact fun _ => rfl
    | cons entry rest ih =>
      intro members
      obtain ⟨key, value⟩ := entry
      rw [List.foldlM_cons]
      cases key with
      | string name =>
        rw [readEntry_of_key text? rfl, entriesToJson?]
        cases value.toJson? with
        | none => rfl
        | some j => exact ih _
      | _ => rfl
  rw [hrun, foldlM_insert_readEntry]
  rfl

theorem table?_eq_readTable {α : Type} (read : Datum → Option α) (entries : List (Datum × Datum)) :
    table? read (.map entries) = readTable text? read entries := by
  have hstep : ∀ (t : Table α) (entry : Datum × Datum),
      (do let name ← text? entry.1
          let value ← read entry.2
          return t.insert name value)
        = (readEntry text? read entry).map (fun e => Table.insert e.1 e.2 t) := by
    intro t entry
    rw [readEntry]
    cases text? entry.1 with
    | none => rfl
    | some name => cases read entry.2 <;> rfl
  show entries.foldlM _ [] = _
  rw [funext fun t => funext fun entry => hstep t entry, foldlM_insert_readEntry]
  rfl

end Datum

namespace Json.Content

mutual

/-- Data of a JSON text have a JSON value: all their keys are texts. -/
theorem exists_toJson_of_datum : (c : Content) → {d : Datum} → c.datum? = some d →
    ∃ j, d.toJson? = some j
  | .null, _, rfl => ⟨_, rfl⟩
  | .bool _, _, rfl => ⟨_, rfl⟩
  | .number (.int i), _, rfl => by
    by_cases hi : 0 ≤ i <;> simp [numberDatum, hi, Datum.toJson?]
  | .number (.float _), _, rfl => ⟨_, rfl⟩
  | .string _, _, rfl => ⟨_, rfl⟩
  | .array false items, _, h => by
    rw [Content.datum?, Option.map_eq_some_iff] at h
    obtain ⟨data, hdata, rfl⟩ := h
    obtain ⟨js, hjs⟩ := exists_toJson_of_data items hdata
    exact ⟨.array js, by rw [Datum.toJson?, hjs, Option.map_some]⟩
  | .object false members, _, h => by
    rw [Content.datum?, Option.map_eq_some_iff] at h
    obtain ⟨entries, hentries, rfl⟩ := h
    obtain ⟨js, hjs⟩ := exists_toJson_of_entries members hentries []
    exact ⟨.object js, by rw [Datum.toJson?, hjs, Option.map_some]⟩

theorem exists_toJson_of_data : (items : List Content) → {data : List Datum} →
    data? items = some data → ∃ js, Datum.itemsToJson? data = some js
  | [], _, rfl => ⟨[], rfl⟩
  | item :: rest, _, h => by
    rw [data?, Option.bind_eq_bind, Option.bind_eq_some_iff] at h
    obtain ⟨d, hd, h⟩ := h
    obtain ⟨data, hdata, h⟩ := Option.bind_eq_some_iff.mp h
    cases h
    obtain ⟨j, hj⟩ := exists_toJson_of_datum item hd
    obtain ⟨js, hjs⟩ := exists_toJson_of_data rest hdata
    exact ⟨j :: js, by rw [Datum.itemsToJson?, hj, hjs]; rfl⟩

theorem exists_toJson_of_entries : (members : List (Option String × Content)) →
    {entries : List (Datum × Datum)} → entries? members = some entries →
    ∀ t, ∃ js, Datum.entriesToJson? t entries = some js
  | [], _, rfl, t => ⟨t, rfl⟩
  | (some name, value) :: rest, _, h, t => by
    rw [entries?, Option.bind_eq_bind, Option.bind_eq_some_iff] at h
    obtain ⟨d, hd, h⟩ := h
    obtain ⟨entries, hentries, h⟩ := Option.bind_eq_some_iff.mp h
    cases h
    obtain ⟨j, hj⟩ := exists_toJson_of_datum value hd
    obtain ⟨js, hjs⟩ := exists_toJson_of_entries rest hentries (Table.insert name j t)
    exact ⟨js, by rw [Datum.entriesToJson?, hj]; exact hjs⟩

end

end Json.Content

/-! ### Following changes of data -/

variable {α β : Type} {S : Datum → Datum → Prop} {steps : List Step} {read : Datum → Option α}
  {change : α → α}

namespace Datum

/-- **Following**: the reader reads a changed value exactly when it reads the
    other one, and the change of the value is a change of what is read. -/
def Follows (S : Datum → Datum → Prop) (steps : List Step) (read : Datum → Option α)
    (change : α → α) : Prop :=
  ∀ ⦃shown : Bool⦄ ⦃d d' : Datum⦄, ChangedAt S steps shown d d' →
    read d' = (read d).map (fun a => if shown then change a else a)

/-- A table follows in the value of a key if that value follows. -/
theorem Follows.table (h : Follows S steps read change) (name : String) :
    Follows S (.member name :: steps) (table? read) (Table.adjust name change) := by
  intro shown d d' hchange
  cases hchange with
  | @member _ _ name' shown before after d d' hstep hrest =>
    cases hstep
    rw [table?_eq_readTable, table?_eq_readTable,
      readTable_change text? before after rfl (h hrest)]
    refine Option.map_congr (fun t _ => ?_)
    cases hides text? name after with
    | true => cases shown <;> rfl
    | false =>
      cases shown with
      | true => rfl
      | false => exact Table.adjust_id name t
  | item _ _ hstep _ => cases hstep

/-- A list follows in an item if that item follows. -/
theorem Follows.list (h : Follows S steps read change) (index : Nat) :
    Follows S (.item index :: steps) (list? read) (fun items => items.modify index change) := by
  intro shown d d' hchange
  cases hchange with
  | member _ _ hstep _ => cases hstep
  | @item _ _ shown before after d d' hstep hrest =>
    cases hstep
    show (before ++ d' :: after).mapM read = ((before ++ d :: after).mapM read).map _
    rw [mapM_change before after (h hrest)]
    refine Option.map_congr (fun items _ => ?_)
    cases shown with
    | true => rfl
    | false => exact List.modify_id _ _

end Datum

/-- Puts a value at a place of a JSON value, if there is such a place. -/
def Json.replaceAt (value : Json) : List Step → Json → Json
  | [], _ => value
  | step :: steps, .object members =>
    match step.name? with
    | some name => .object (Table.adjust name (replaceAt value steps) members)
    | none => .object members
  | step :: steps, .array items =>
    match step.index? with
    | some index => .array (items.modify index (replaceAt value steps))
    | none => .array items
  | _ :: _, json => json

namespace Datum

/-- The JSON value of data whose keys are texts. -/
def json (d : Datum) : Json :=
  d.toJson?.getD .null

/-- What has a JSON value gives way to a value that has one too. -/
structure Becomes (value d d' : Datum) : Prop where
  old : d.toJson?.isSome
  new : value.toJson?.isSome
  eq : d' = value

/-- The JSON value of data follows where a part becomes another value. -/
theorem follows_toJson (value : Datum) (steps : List Step) :
    Follows (Becomes value) steps toJson? (Json.replaceAt value.json steps) := by
  induction steps with
  | nil =>
    intro shown d d' hchange
    cases hchange with
    | here h =>
      obtain ⟨j, hj⟩ := Option.isSome_iff_exists.mp h.old
      obtain ⟨new, hnew⟩ := Option.isSome_iff_exists.mp h.new
      rw [hj, h.eq, json, hnew]
      rfl
  | cons step steps ih =>
    intro shown d d' hchange
    cases hchange with
    | @member _ _ name shown before after d d' hstep hrest =>
      rw [toJson?, toJson?, entriesToJson?_eq_readTable, entriesToJson?_eq_readTable,
        readTable_change text? before after rfl (ih hrest), Option.map_map, Option.map_map]
      refine Option.map_congr (fun members _ => ?_)
      simp only [Function.comp_apply, Json.replaceAt, hstep]
      cases hides text? name after with
      | true => cases shown <;> rfl
      | false =>
        cases shown with
        | true => rfl
        | false => exact congrArg Json.object (Table.adjust_id name members)
    | @item _ _ shown before after d d' hstep hrest =>
      rw [toJson?, toJson?, itemsToJson?_eq_mapM, itemsToJson?_eq_mapM,
        mapM_change before after (ih hrest), Option.map_map, Option.map_map]
      refine Option.map_congr (fun items _ => ?_)
      simp only [Function.comp_apply, Json.replaceAt, hstep]
      cases shown with
      | true => rfl
      | false => exact congrArg Json.array (List.modify_id _ _)

theorem ChangedAt.mono {T : Datum → Datum → Prop} (hST : ∀ {e e'}, S e e' → T e e') {shown : Bool}
    {d d' : Datum} (h : ChangedAt S steps shown d d') : ChangedAt T steps shown d d' := by
  induction h with
  | here h => exact .here (hST h)
  | member before after hstep _ ih => exact .member before after hstep ih
  | item before after hstep _ ih => exact .item before after hstep ih

/-- Every change of data replaces something by something. -/
theorem ChangedAt.exists_becomes (hS : ∀ {e e'}, S e e' → e.toJson?.isSome ∧ e'.toJson?.isSome)
    {shown : Bool} {d d' : Datum} (h : ChangedAt S steps shown d d') :
    ∃ value, ChangedAt (Becomes value) steps shown d d' := by
  induction h with
  | @here d d' h => exact ⟨d', .here ⟨(hS h).1, (hS h).2, rfl⟩⟩
  | member before after hstep _ ih =>
    obtain ⟨value, h⟩ := ih
    exact ⟨value, .member before after hstep h⟩
  | item before after hstep _ ih =>
    obtain ⟨value, h⟩ := ih
    exact ⟨value, .item before after hstep h⟩

/-- The JSON value of data is the same where a change does not show. -/
theorem ChangedAt.toJson?_eq (hS : ∀ {e e'}, S e e' → e.toJson?.isSome ∧ e'.toJson?.isSome)
    {d d' : Datum} (h : ChangedAt S steps false d d') : d'.toJson? = d.toJson? := by
  obtain ⟨value, h⟩ := h.exists_becomes hS
  rw [follows_toJson value steps h]
  exact Option.map_id'

/-! ### Records of data -/

theorem pickFields_append (names : List String) (given : Table Datum)
    (entries more : List (Datum × Datum)) :
    pickFields names given (entries ++ more)
      = (pickFields names given entries).bind (fun given => pickFields names given more) := by
  induction entries generalizing given with
  | nil => rfl
  | cons entry rest ih =>
    rw [List.cons_append, pickFields, pickFields]
    split
    · rfl
    · exact ih given
    · split
      · rfl
      · exact ih _

/-- A field that is given changes while others are picked. -/
theorem pickFields_adjust {names : List String} {given : Table Datum} {name : String}
    (h : given.contains name = true) (change : Datum → Datum) (entries : List (Datum × Datum)) :
    pickFields names (given.adjust name change) entries
      = (pickFields names given entries).map (Table.adjust name change) := by
  induction entries generalizing given with
  | nil => rfl
  | cons entry rest ih =>
    rw [pickFields, pickFields]
    cases fieldName? names entry.1 with
    | none => rfl
    | some found =>
      cases found with
      | none => exact ih h
      | some other =>
        simp only [Table.contains_adjust]
        cases hother : given.contains other with
        | true => rfl
        | false =>
          simp only [Bool.false_eq_true, if_false]
          rw [← Table.adjust_append_of_contains h, ih (Table.contains_append_of_contains h _)]

/-- A field that is given stays as it is while others are picked. -/
theorem find?_of_pickFields {names : List String} {given found : Table Datum} {name : String}
    {value : Datum} (h : given.find? name = some value) {entries : List (Datum × Datum)}
    (hfound : pickFields names given entries = some found) : found.find? name = some value := by
  induction entries generalizing given with
  | nil =>
    cases hfound
    exact h
  | cons entry rest ih =>
    rw [pickFields] at hfound
    split at hfound
    · cases hfound
    · exact ih h hfound
    · split at hfound
      · cases hfound
      · exact ih (Table.find?_append_of_eq_some h _) hfound

/-- A record whose field is given once more is none. -/
theorem pickFields_of_hides {names : List String} {name : String} (hname : name ∈ names)
    {given : Table Datum} (h : given.contains name = true) {entries : List (Datum × Datum)}
    (hhides : hides text? name entries = true) : pickFields names given entries = none := by
  induction entries generalizing given with
  | nil => cases hhides
  | cons entry rest ih =>
    obtain ⟨key, value⟩ := entry
    rw [pickFields]
    by_cases hkey : text? key = some name
    · cases key with
      | string s =>
        cases hkey
        simp [fieldName?, hname, h]
      | _ => cases hkey
    · have hrest : hides text? name rest = true := by
        simpa [hides, hkey] using hhides
      split
      · rfl
      · exact ih h hrest
      · split
        · rfl
        · exact ih (Table.contains_append_of_contains h _) hrest

theorem pickFields_cons_string {names : List String} {name : String} (hname : name ∈ names)
    (given : Table Datum) (value : Datum) (rest : List (Datum × Datum)) :
    pickFields names given ((.string name, value) :: rest)
      = if given.contains name then none else pickFields names (given ++ [(name, value)]) rest := by
  rw [pickFields, fieldName?, if_pos hname]

/-- The field of an entry, when the entries before it are picked. -/
theorem find?_append_field {given : Table Datum} {name : String}
    (h : given.contains name = false) (value : Datum) :
    Table.find? name (given ++ [(name, value)]) = some value := by
  rw [Table.find?_append_of_not_contains h]
  simp [Table.find?]

/-- A field of a record is the value that stands under its name. -/
theorem find?_of_mem_of_pickFields {names : List String} {name : String} (hname : name ∈ names)
    {entries : List (Datum × Datum)} {value : Datum} (hmem : (.string name, value) ∈ entries)
    {given : Table Datum} (h : pickFields names [] entries = some given) :
    given.find? name = some value := by
  obtain ⟨before, after, rfl⟩ := List.append_of_mem hmem
  rw [pickFields_append, Option.bind_eq_some_iff] at h
  obtain ⟨earlier, _, h⟩ := h
  rw [pickFields_cons_string hname] at h
  split at h
  · cases h
  · rename_i hfresh
    rw [Bool.not_eq_true] at hfresh
    exact find?_of_pickFields (find?_append_field hfresh value) h

/-- **One entry of a record with another value**: there is one field with another
    value. -/
theorem pickFields_change {names : List String} {name : String} (hname : name ∈ names)
    (before after : List (Datum × Datum)) (value other : Datum) :
    pickFields names [] (before ++ (.string name, other) :: after)
      = (pickFields names [] (before ++ (.string name, value) :: after)).map
          (Table.adjust name (fun _ => other)) := by
  rw [pickFields_append, pickFields_append, Option.map_bind]
  -- What is picked in front of the entry is the same in both.
  refine Option.bind_congr (fun given _ => ?_)
  rw [Function.comp_apply, pickFields_cons_string hname, pickFields_cons_string hname]
  cases hgiven : given.contains name with
  | true => rfl
  | false =>
    have hchanged : given ++ [(name, other)]
        = Table.adjust name (fun _ => other) (given ++ [(name, value)]) := by
      rw [Table.adjust_append_of_not_contains hgiven]
      simp [Table.adjust]
    have hcontains : Table.contains name (given ++ [(name, value)]) = true := by
      rw [Table.contains, find?_append_field hgiven]
      rfl
    simp only [Bool.false_eq_true, if_false]
    rw [hchanged, pickFields_adjust hcontains]

/-- A field that is picked is not given again. -/
theorem hides_of_pickFields {names : List String} {name : String} (hname : name ∈ names)
    {before after : List (Datum × Datum)} {value : Datum} {found : Table Datum}
    (h : pickFields names [] (before ++ (.string name, value) :: after) = some found) :
    hides text? name after = false := by
  rw [pickFields_append, Option.bind_eq_some_iff] at h
  obtain ⟨given, _, h⟩ := h
  rw [pickFields_cons_string hname] at h
  split at h
  · cases h
  · rename_i hfresh
    rw [Bool.not_eq_true] at hfresh
    have hcontains : Table.contains name (given ++ [(name, value)]) = true := by
      rw [Table.contains, find?_append_field hfresh]
      rfl
    rw [← Bool.not_eq_true]
    intro hhides
    rw [pickFields_of_hides hname hcontains hhides] at h
    cases h

/-- An item of a list is the field whose name has its index. -/
theorem zip_fields {names : List String} {name : String} (hname : name ∈ names)
    {before : List Datum} (hindex : names.idxOf name = before.length) (after : List Datum) :
    ∃ earlier later : Table Datum, earlier.contains name = false
      ∧ ∀ value, names.zip (before ++ value :: after) = earlier ++ (name, value) :: later := by
  obtain ⟨front, rest, rfl, hfront⟩ := List.eq_append_cons_of_mem hname
  -- In front of the item there are as many names as items.
  rw [List.idxOf_append_of_notMem hfront, List.idxOf_cons_self, Nat.add_zero] at hindex
  refine ⟨front.zip before, rest.zip after, ?_, fun value => ?_⟩
  · have hnone : Table.find? name (front.zip before) = none := by
      refine Table.find?_eq_none_iff.mpr (fun hkey => hfront ?_)
      obtain ⟨entry, hentry, rfl⟩ := List.mem_map.mp hkey
      exact (List.of_mem_zip hentry).1
    rw [Table.contains, hnone]
    rfl
  · rw [List.zip_append hindex, List.zip_cons_cons]

/-- The fields of a record with another value for one that is given. -/
def Fields.withValue (f : Fields) (name : String) (value : Datum) : Fields :=
  { f with given := f.given.adjust name (fun _ => value) }

/-- **Records under a change of a field**: both are none, or they differ in the
    value of that field. -/
theorem ChangedAt.fields? {names : List String} {name : String} (hname : name ∈ names)
    {shown : Bool} {d d' : Datum} (h : ChangedAt S (.field names name :: steps) shown d d') :
    (d.fields? names = none ∧ d'.fields? names = none)
      ∨ ∃ f e e', d.fields? names = some f ∧ f.given.find? name = some e
        ∧ ChangedAt S steps shown e e' ∧ d'.fields? names = some (f.withValue name e') := by
  cases h with
  | @member _ _ _ shown before after e e' hstep hrest =>
    cases hstep
    simp only [Datum.fields?]
    rw [pickFields_change hname before after e e']
    cases hfound : pickFields names [] (before ++ (.string name, e) :: after) with
    | none => exact .inl ⟨rfl, rfl⟩
    | some found =>
      have hfield : found.find? name = some e :=
        find?_of_mem_of_pickFields hname (by simp) hfound
      rw [hides_of_pickFields hname hfound, Bool.not_false, Bool.and_true]
      exact .inr ⟨⟨found, false⟩, e, e', rfl, hfield, hrest, rfl⟩
  | @item _ _ shown before after e e' hstep hrest =>
    rw [Step.index?, if_pos hname, Option.some.injEq] at hstep
    obtain ⟨earlier, later, hfresh, hzip⟩ := zip_fields hname hstep after
    have hlength : (before ++ e' :: after).length = (before ++ e :: after).length := by simp
    simp only [Datum.fields?, hzip, hlength]
    split
    · refine .inr ⟨_, e, e', rfl, ?_, hrest, ?_⟩
      · rw [Table.find?_append_of_not_contains hfresh]
        simp [Table.find?]
      · simp [Fields.withValue, Table.adjust_append_of_not_contains hfresh, Table.adjust]
    · exact .inl ⟨rfl, rfl⟩

/-- Names that do not hold that of the changed field tell nothing of the change,
    unless a list reaches that far. -/
theorem ChangedAt.fields?_eq {names others : List String} {name : String} (hname : name ∉ others)
    (hothers : others.length ≤ names.idxOf name) {shown : Bool} {d d' : Datum}
    (h : ChangedAt S (.field names name :: steps) shown d d') :
    d'.fields? others = d.fields? others := by
  cases h with
  | @member _ _ _ shown before after e e' hstep hrest =>
    cases hstep
    simp only [Datum.fields?, pickFields_append]
    refine congrArg _ (Option.bind_congr (fun given _ => ?_))
    simp [pickFields, fieldName?, hname]
  | @item _ _ shown before after e e' hstep hrest =>
    rw [Step.index?] at hstep
    split at hstep
    · rw [Option.some.injEq] at hstep
      have hlong : ∀ value, ¬ (before ++ value :: after).length ≤ others.length := by
        intro value
        rw [List.length_append, List.length_cons]
        omega
      rw [Datum.fields?, Datum.fields?, if_neg (hlong e'), if_neg (hlong e)]
    · cases hstep

/-- Reads what may also be null. -/
def nullable? (read : Datum → Option α) : Datum → Option (Option α)
  | .null => some none
  | d => (read d).map some

/-- What is changed inside of it is not null. -/
theorem Follows.nullable {step : Step} (h : Follows S (step :: steps) read change) :
    Follows S (step :: steps) (nullable? read) (Option.map change) := by
  intro shown d d' hchange
  have hnullable : nullable? read d = (read d).map some
      ∧ nullable? read d' = (read d').map some := by
    cases hchange <;> exact ⟨rfl, rfl⟩
  rw [hnullable.1, hnullable.2, h hchange, Option.map_map, Option.map_map]
  cases shown <;> rfl

namespace Fields

variable {f : Fields} {name other : String} {e e' : Datum}

theorem required_withValue_of_ne (h : other ≠ name) (value : Datum) (read : Datum → Option α) :
    (f.withValue name value).required other read = f.required other read := by
  rw [required, withValue, Table.find?_adjust_of_ne h, required]

theorem defaulted_withValue_of_ne (h : other ≠ name) (value : Datum) (default : α)
    (read : Datum → Option α) :
    (f.withValue name value).defaulted other default read = f.defaulted other default read := by
  rw [defaulted, withValue, Table.find?_adjust_of_ne h, defaulted]

theorem optional_withValue_of_ne (h : other ≠ name) (value : Datum) (read : Datum → Option α) :
    (f.withValue name value).optional other read = f.optional other read := by
  rw [optional, withValue, Table.find?_adjust_of_ne h, optional]

theorem defaulted_withValue (hfound : f.given.find? name = some e) {change : α → α}
    (h : read e' = (read e).map change) (default : α) :
    (f.withValue name e').defaulted name default read
      = (f.defaulted name default read).map change := by
  simp only [defaulted, withValue, Table.find?_adjust_self, hfound, Option.map_some]
  exact h

theorem optional_eq_nullable (hfound : f.given.find? name = some e) :
    f.optional name read = nullable? read e := by
  simp only [optional, hfound]
  cases e <;> rfl

theorem optional_withValue (hfound : f.given.find? name = some e) {change : Option α → Option α}
    (h : nullable? read e' = (nullable? read e).map change) :
    (f.withValue name e').optional name read = (f.optional name read).map change := by
  have hfound' : (f.withValue name e').given.find? name = some e' := by
    rw [withValue, Table.find?_adjust_self, hfound, Option.map_some]
  rw [optional_eq_nullable hfound', optional_eq_nullable hfound, h]

end Fields

/-- **A record follows in a field** if what is made of its fields does. -/
theorem Follows.record (names : List String) {name : String} (hname : name ∈ names)
    {make : Fields → Option β} {change : β → β}
    (h : ∀ {shown : Bool} {f : Fields} {e e' : Datum}, f.given.find? name = some e →
      ChangedAt S steps shown e e' →
        make (f.withValue name e') = (make f).map (fun b => if shown then change b else b)) :
    Follows S (.field names name :: steps) (fun d => (d.fields? names).bind make) change := by
  intro shown d d' hchange
  rcases hchange.fields? hname with ⟨hd, hd'⟩ | ⟨f, e, e', hd, hfound, hrest, hd'⟩
  · simp only [hd, hd', Option.bind_none, Option.map_none]
  · simp only [hd, hd', Option.bind_some]
    exact h hfound hrest

end Datum

end TypedClient
