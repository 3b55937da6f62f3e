import Mathlib.Data.List.Forall2
import TypedClient.Document.OfJson

/-! # The content of JSON texts

    What a JSON text holds, without the places in it. A text is read as a
    document by its content alone: where the parts of a text stand matters to
    complaints only.

    * **Content** keeps everything a reader may meet: repeated names, numbers
      and strings that can only be skipped, lists and objects inside too many
      others, and the point at which the text stops being JSON.
    * **Readers** of contents either give a value or none. Each of them agrees
      with the reader of trees with places that it stands beside.
-/

namespace TypedClient.Json

/-- What a text holds, without places. -/
inductive Content where
  | null
  | bool (value : Bool)
  | number (value : Number)
  | string (value : String)
  /-- A number or a string that can be skipped but not read. -/
  | unreadable
  /-- A list; `deep` says that it stands inside too many others. -/
  | array (deep : Bool) (items : List Content)
  /-- An object; a name that cannot be read is missing. -/
  | object (deep : Bool) (members : List (Option String × Content))
  /-- The point at which the text stops being JSON. -/
  | broken

mutual

/-- The content of a tree. -/
def Located.content : Located → Content
  | .null _ => .null
  | .bool value _ => .bool value
  | .number (.ok n) _ => .number n
  | .number (.error _) _ => .unreadable
  | .string (.ok s) _ => .string s
  | .string (.error _) _ => .unreadable
  | .array _ depth items => .array depth.isSome items.content
  | .object _ depth members => .object depth.isSome members.content
  | .broken _ _ => .broken

/-- The contents of items. -/
def Items.content : Items → List Content
  | .stop _ => []
  | .item value _ rest => value.content :: rest.content
  | .broken _ _ => [.broken]

/-- The contents of members under their names. -/
def Members.content : Members → List (Option String × Content)
  | .stop _ => []
  | .member name _ value _ rest => (name.toOption, value.content) :: rest.content
  | .broken _ _ => [(none, .broken)]

end

deriving instance DecidableEq for Number

namespace Content

/-! ### Comparing contents -/

mutual

/-- Whether two contents are the same. -/
def same : Content → Content → Bool
  | .null, .null => true
  | .bool a, .bool b => a == b
  | .number m, .number n => decide (m = n)
  | .string s, .string t => s == t
  | .unreadable, .unreadable => true
  | .array deep items, .array deep' items' => deep == deep' && sameItems items items'
  | .object deep members, .object deep' members' => deep == deep' && sameMembers members members'
  | .broken, .broken => true
  | _, _ => false

/-- Whether two lists of items are the same. -/
def sameItems : List Content → List Content → Bool
  | [], [] => true
  | item :: rest, item' :: rest' => item.same item' && sameItems rest rest'
  | _, _ => false

/-- Whether two lists of members are the same. -/
def sameMembers : List (Option String × Content) → List (Option String × Content) → Bool
  | [], [] => true
  | (name, value) :: rest, (name', value') :: rest' =>
    name == name' && value.same value' && sameMembers rest rest'
  | _, _ => false

end

mutual

theorem eq_of_same : (c c' : Content) → c.same c' = true → c = c'
  | .null, .null, _ => rfl
  | .bool a, .bool b, h => congrArg bool (eq_of_beq h)
  | .number m, .number n, h => congrArg number (of_decide_eq_true h)
  | .string s, .string t, h => congrArg string (eq_of_beq h)
  | .unreadable, .unreadable, _ => rfl
  | .array deep items, .array deep' items', h => by
    rw [same, Bool.and_eq_true] at h
    rw [eq_of_beq h.1, eq_of_sameItems items items' h.2]
  | .object deep members, .object deep' members', h => by
    rw [same, Bool.and_eq_true] at h
    rw [eq_of_beq h.1, eq_of_sameMembers members members' h.2]
  | .broken, .broken, _ => rfl

theorem eq_of_sameItems : (items items' : List Content) → sameItems items items' = true →
    items = items'
  | [], [], _ => rfl
  | item :: rest, item' :: rest', h => by
    rw [sameItems, Bool.and_eq_true] at h
    rw [eq_of_same item item' h.1, eq_of_sameItems rest rest' h.2]

theorem eq_of_sameMembers : (members members' : List (Option String × Content)) →
    sameMembers members members' = true → members = members'
  | [], [], _ => rfl
  | (name, value) :: rest, (name', value') :: rest', h => by
    rw [sameMembers, Bool.and_eq_true, Bool.and_eq_true] at h
    rw [eq_of_beq h.1.1, eq_of_same value value' h.1.2, eq_of_sameMembers rest rest' h.2]

end

/-! ### Reading contents -/

mutual

/-- Reads a content as data of unknown shape. -/
def datum? : Content → Option Datum
  | .null => some .null
  | .bool value => some (.bool value)
  | .number n => some (numberDatum n)
  | .string s => some (.string s)
  | .array false items => (data? items).map .sequence
  | .object false members => (entries? members).map .map
  | _ => none

/-- Reads items as data of unknown shape. -/
def data? : List Content → Option (List Datum)
  | [] => some []
  | item :: rest => do
    let datum ← item.datum?
    let data ← data? rest
    return datum :: data

/-- Reads members as data of unknown shape. -/
def entries? : List (Option String × Content) → Option (List (Datum × Datum))
  | [] => some []
  | (some name, value) :: rest => do
    let datum ← value.datum?
    let data ← entries? rest
    return (.string name, datum) :: data
  | (none, _) :: _ => none

end

mutual

/-- Whether a content can be skipped. -/
def skips : Content → Bool
  | .array _ items => skipsItems items
  | .object _ members => skipsMembers members
  | .broken => false
  | _ => true

/-- Whether items can be skipped. -/
def skipsItems : List Content → Bool
  | [] => true
  | item :: rest => item.skips && skipsItems rest

/-- Whether members can be skipped. -/
def skipsMembers : List (Option String × Content) → Bool
  | [] => true
  | (_, value) :: rest => value.skips && skipsMembers rest

end

variable {α σ : Type}

def text? : Content → Option String
  | .string s => some s
  | _ => none

/-- Reads what may also be null. -/
def orNull? (read : Content → Option α) : Content → Option (Option α)
  | .null => some none
  | c => (read c).map some

/-- Reads members one after the other into a state. -/
def foldInto? (step : σ → String → Content → Option σ) (state : σ) :
    List (Option String × Content) → Option σ
  | [] => some state
  | (some name, value) :: rest => do
    let state ← step state name value
    foldInto? step state rest
  | (none, _) :: _ => none

/-- Reads an object whose names may be any. -/
def table? (read : Content → Option α) : Content → Option (Table α)
  | .object false members =>
    foldInto? (fun t name value => (read value).map (fun v => t.insert name v)) [] members
  | _ => none

def list? (read : Content → Option α) : Content → Option (List α)
  | .array false items => items.mapM read
  | _ => none

/-- A field of a record that is being read. -/
structure Field (σ : Type) where
  name : String
  /-- Whether a list that stands for the record may end before it. -/
  hasDefault : Bool
  /-- Reads its value into the record. -/
  read : σ → Content → Option σ

/-- Reads the fields of a record from members. Unknown names are skipped, a
    known one may come only once. -/
def namedFields? (fields : List (Field σ)) (seen : List String) (state : σ) :
    List (Option String × Content) → Option σ
  | [] => some state
  | (none, _) :: _ => none
  | (some name, value) :: rest =>
    match fields.find? (fun field => field.name == name) with
    | none => if value.skips then namedFields? fields seen state rest else none
    | some field =>
      if seen.contains name then none
      else do
        let state ← field.read state value
        namedFields? fields (name :: seen) state rest

/-- Reads the fields of a record from items, by order. -/
def orderedFields? (state : σ) : List (Field σ) → List Content → Option σ
  | [], [] => some state
  | [], _ :: _ => none
  | field :: fields, item :: rest => do
    let state ← field.read state item
    orderedFields? state fields rest
  | field :: fields, [] => if (field :: fields).all (·.hasDefault) then some state else none

/-- Reads a record, from an object by name or from a list by order. -/
def record? (fields : List (Field σ)) (initial : σ) : Content → Option σ
  | .object false members => namedFields? fields [] initial members
  | .array false items => orderedFields? initial fields items
  | _ => none

end Content

/-! ### Readers of trees and of contents -/

/-- What comes of a sequence of two steps comes of both. -/
theorem toOption_bind {ε α β : Type} (x : Except ε α) (f : α → Except ε β) :
    (x >>= f).toOption = x.toOption.bind (fun a => (f a).toOption) := by
  cases x <;> rfl

theorem toOption_map {ε α β : Type} (x : Except ε α) (f : α → β) :
    (x.map f).toOption = x.toOption.map f := by
  cases x <;> rfl

theorem toOption_placing {α : Type} (place : Position) (x : Except Problem α) :
    (placing place x).toOption = x.toOption := by
  cases x <;> rfl

theorem toOption_faulty {α : Type} (x : Except Fault α) : (faulty x).toOption = x.toOption := by
  cases x <;> rfl

/-- A list or object inside too many others is refused, any other one is read. -/
theorem toOption_checkDepth_bind {α : Type} (depth : Option Fault) (f : Unit → Except Problem α) :
    (checkDepth depth >>= f).toOption = if depth.isSome then none else (f ()).toOption := by
  cases depth <;> rfl

mutual

theorem Located.toOption_datum : (l : Located) → l.datum.toOption = l.content.datum?
  | .null _ => rfl
  | .bool _ _ => rfl
  | .number (.ok _) _ => rfl
  | .number (.error _) _ => rfl
  | .string (.ok _) _ => rfl
  | .string (.error _) _ => rfl
  | .array _ depth items => by
    rw [Located.datum, toOption_checkDepth_bind, toOption_bind, items.toOption_data,
      Located.content]
    cases depth with
    | some _ => rfl
    | none =>
      show _ = (Content.data? items.content).map Datum.sequence
      cases Content.data? items.content <;> rfl
  | .object _ depth members => by
    rw [Located.datum, toOption_checkDepth_bind, toOption_bind, members.toOption_data,
      Located.content]
    cases depth with
    | some _ => rfl
    | none =>
      show _ = (Content.entries? members.content).map Datum.map
      cases Content.entries? members.content <;> rfl
  | .broken _ _ => rfl

theorem Items.toOption_data : (items : Items) → items.data.toOption = Content.data? items.content
  | .stop _ => rfl
  | .item value _ rest => by
    rw [Items.data, toOption_bind, value.toOption_datum, Items.content, Content.data?]
    refine Option.bind_congr (fun _ _ => ?_)
    rw [toOption_bind, rest.toOption_data]
    rfl
  | .broken _ _ => rfl

theorem Members.toOption_data :
    (members : Members) → members.data.toOption = Content.entries? members.content
  | .stop _ => rfl
  | .member (.ok name) _ value _ rest => by
    rw [Members.data, toOption_bind, value.toOption_datum, Members.content]
    refine Option.bind_congr (fun _ _ => ?_)
    rw [toOption_bind, rest.toOption_data]
    rfl
  | .member (.error _) _ _ _ _ => rfl
  | .broken _ _ => rfl

end

mutual

theorem Located.toOption_skip :
    (l : Located) → l.skip.toOption = if l.content.skips then some () else none
  | .null _ => rfl
  | .bool _ _ => rfl
  | .number (.ok _) _ => rfl
  | .number (.error _) _ => rfl
  | .string (.ok _) _ => rfl
  | .string (.error _) _ => rfl
  | .array _ _ items => items.toOption_skip
  | .object _ _ members => members.toOption_skip
  | .broken _ _ => rfl

theorem Items.toOption_skip :
    (items : Items) →
      items.skip.toOption = if Content.skipsItems items.content then some () else none
  | .stop _ => rfl
  | .item value _ rest => by
    rw [Items.skip, toOption_bind, value.toOption_skip, Items.content, Content.skipsItems]
    cases value.content.skips with
    | true => exact rest.toOption_skip
    | false => rfl
  | .broken _ _ => rfl

theorem Members.toOption_skip :
    (members : Members) →
      members.skip.toOption = if Content.skipsMembers members.content then some () else none
  | .stop _ => rfl
  | .member _ _ value _ rest => by
    rw [Members.skip, toOption_bind, value.toOption_skip, Members.content, Content.skipsMembers]
    cases value.content.skips with
    | true => exact rest.toOption_skip
    | false => rfl
  | .broken _ _ => rfl

end

section Agreement

variable {α σ : Type} {read : Located → Except Problem α} {readContent : Content → Option α}

/-- **Agreement**: a reader of trees gives what a reader of contents does, and
    neither gives anything where the text stops being JSON. -/
structure Agree (read : Located → Except Problem α) (readContent : Content → Option α) : Prop where
  toOption_eq : ∀ l, (read l).toOption = readContent l.content
  broken : readContent .broken = none

theorem agree_datum : Agree Located.datum Content.datum? :=
  ⟨Located.toOption_datum, rfl⟩

/-- Where a value of the wrong kind stands, nothing is read. -/
theorem toOption_text (l : Located) : l.text.toOption = l.content.text? := by
  rcases l with _ | _ | ⟨_ | _, _⟩ | ⟨_ | _, _⟩ | _ | _ | _ <;> rfl

theorem agree_text : Agree Located.text Content.text? :=
  ⟨toOption_text, rfl⟩

theorem Agree.orNull (h : Agree read readContent) :
    Agree (Located.orNull read) (Content.orNull? readContent) := by
  refine ⟨fun l => ?_, ?_⟩
  · have hread := h.toOption_eq l
    rcases l with _ | _ | ⟨_ | _, _⟩ | ⟨_ | _, _⟩ | _ | _ | _
    · rfl
    all_goals
      show ((read _).map some).toOption = _
      rw [toOption_map, hread]
      rfl
  · show (readContent .broken).map some = none
    rw [h.broken]
    rfl

/-- Both go on from a value in the same way. -/
theorem Agree.map {β : Type} (h : Agree read readContent) (f : α → β) :
    Agree (fun l => do return f (← read l)) (fun c => (readContent c).map f) := by
  refine ⟨fun l => ?_, ?_⟩
  · show (read l >>= fun a => .ok (f a)).toOption = _
    rw [toOption_bind, h.toOption_eq]
    cases readContent l.content <;> rfl
  · rw [h.broken]
    rfl

theorem Members.toOption_foldInto {step : σ → String → Located → Except Problem σ}
    {stepContent : σ → String → Content → Option σ}
    (h : ∀ state name, Agree (step state name) (stepContent state name)) (state : σ) :
    (members : Members) → (members.foldInto step state).toOption
      = Content.foldInto? stepContent state members.content
  | .stop _ => rfl
  | .member (.ok name) _ value resume rest => by
    rw [foldInto, toOption_bind, toOption_placing, (h state name).toOption_eq, content]
    exact Option.bind_congr (fun state _ => toOption_foldInto h state rest)
  | .member (.error _) _ _ _ _ => rfl
  | .broken _ _ => rfl

theorem Agree.table (h : Agree read readContent) :
    Agree (Located.table read) (Content.table? readContent) := by
  have hstep : ∀ (t : Table α) (name : String),
      Agree (fun value => (read value).map (fun v => t.insert name v))
        (fun value => (readContent value).map (fun v => t.insert name v)) := by
    intro t name
    refine ⟨fun l => ?_, ?_⟩
    · rw [toOption_map, h.toOption_eq]
    · rw [h.broken]
      rfl
  refine ⟨fun l => ?_, rfl⟩
  rcases l with _ | _ | ⟨_ | _, _⟩ | ⟨_ | _, _⟩ | _ | ⟨_, depth, members⟩ | _
  case object =>
    rw [Located.table, toOption_checkDepth_bind, members.toOption_foldInto hstep]
    cases depth <;> rfl
  all_goals rfl

theorem Items.toOption_each (h : Agree read readContent) :
    (items : Items) → (items.each read).toOption = items.content.mapM readContent
  | .stop _ => rfl
  | .item value resume rest => by
    rw [each, toOption_bind, toOption_placing, h.toOption_eq, content, List.mapM_cons]
    refine Option.bind_congr (fun _ _ => ?_)
    rw [toOption_bind, toOption_each h rest]
    rfl
  | .broken _ _ => by
    rw [content, List.mapM_cons, h.broken]
    rfl

theorem Agree.list (h : Agree read readContent) :
    Agree (Located.list read) (Content.list? readContent) := by
  refine ⟨fun l => ?_, rfl⟩
  rcases l with _ | _ | ⟨_ | _, _⟩ | ⟨_ | _, _⟩ | ⟨_, depth, items⟩ | _ | _
  case array =>
    rw [Located.list, toOption_checkDepth_bind, items.toOption_each h]
    cases depth <;> rfl
  all_goals rfl

/-! ### Records -/

/-- Fields that are read in the same way. -/
structure FieldsAgree (f : Field σ) (g : Content.Field σ) : Prop where
  name_eq : f.name = g.name
  hasDefault_eq : f.hasDefault = g.hasDefault
  read : ∀ state, Agree (f.read state) (g.read state)

variable {fields : List (Field σ)} {contentFields : List (Content.Field σ)}

/-- Of fields that agree, the ones of a name agree. -/
theorem find?_agree (h : List.Forall₂ FieldsAgree fields contentFields) (name : String) :
    Option.Rel FieldsAgree (fields.find? (fun f => f.name == name))
      (contentFields.find? (fun g => g.name == name)) := by
  induction h with
  | nil => exact .none
  | cons hfirst _ ih =>
    rename_i f g _ _ _
    simp only [List.find?_cons, hfirst.name_eq]
    cases g.name == name with
    | true => exact .some hfirst
    | false => exact ih

theorem Members.toOption_record (h : List.Forall₂ FieldsAgree fields contentFields)
    (seen : List String) (state : σ) :
    (members : Members) → (members.record fields seen state).toOption
      = Content.namedFields? contentFields seen state members.content
  | .stop _ => rfl
  | .member (.error _) _ _ _ _ => rfl
  | .member (.ok name) _ value resume rest => by
    have hfound := find?_agree h name
    rw [record, content, Except.toOption, Content.namedFields?]
    cases hf : fields.find? (fun f => f.name == name) with
    | none =>
      rw [hf] at hfound
      cases hg : contentFields.find? (fun g => g.name == name) with
      | some _ => rw [hg] at hfound; cases hfound
      | none =>
        show (faulty value.skip >>= _).toOption = _
        rw [toOption_bind, toOption_faulty, value.toOption_skip]
        cases value.content.skips with
        | true => exact toOption_record h seen state rest
        | false => rfl
    | some f =>
      rw [hf] at hfound
      cases hg : contentFields.find? (fun g => g.name == name) with
      | none => rw [hg] at hfound; cases hfound
      | some g =>
        rw [hg] at hfound
        cases hfound with
        | some hagree =>
          show (if seen.contains name then _ else _ : Except Problem σ).toOption = _
          cases seen.contains name with
          | true => rfl
          | false =>
            show (placing resume (f.read state value) >>= _).toOption = _
            rw [toOption_bind, toOption_placing, (hagree.read state).toOption_eq]
            exact Option.bind_congr (fun state _ => toOption_record h (name :: seen) state rest)
  | .broken _ _ => rfl

/-- Fields that agree have the same defaults. -/
theorem hasDefault_agree (h : List.Forall₂ FieldsAgree fields contentFields) :
    fields.all (·.hasDefault) = contentFields.all (·.hasDefault) := by
  induction h with
  | nil => rfl
  | cons hfirst _ ih => rw [List.all_cons, List.all_cons, hfirst.hasDefault_eq, ih]

/-- A list ends well at its stop alone. -/
theorem Items.toOption_surplus (resume : Position) (items : Items) :
    (items.surplus resume).toOption = if items.content.isEmpty then some () else none := by
  rcases items with _ | _ | ⟨⟨flaw, _⟩, _⟩
  case broken => cases flaw <;> rfl
  all_goals rfl

/-- A list may end where all fields left have defaults. -/
theorem Items.toOption_record_stop (arity : String) (index : Nat) (resume place : Position)
    (state : σ) (fields : List (Field σ)) :
    (Items.record arity index resume state fields (.stop place)).toOption
      = if fields.all (·.hasDefault) then some state else none := by
  cases fields with
  | nil => rfl
  | cons f rest =>
    unfold Items.record
    cases hf : (f :: rest).findIdx? (fun field => !field.hasDefault) with
    | none =>
      have hall : (f :: rest).all (·.hasDefault) = true := by
        rw [List.findIdx?_eq_none_iff] at hf
        exact List.all_eq_true.mpr fun g hg => by simpa using hf g hg
      rw [hall]
      rfl
    | some missing =>
      have hall : (f :: rest).all (·.hasDefault) = false := by
        obtain ⟨g, hg, hdefault⟩ := List.findIdx?_isSome.symm.trans (by rw [hf]; rfl)
          |> List.any_eq_true.mp
        exact List.all_eq_false.mpr ⟨g, hg, by simpa using hdefault⟩
      rw [hall]
      rfl

theorem Items.toOption_record (arity : String) (h : List.Forall₂ FieldsAgree fields contentFields)
    (index : Nat) (resume : Position) (state : σ) (items : Items) :
    (items.record arity index resume state fields).toOption
      = Content.orderedFields? state contentFields items.content := by
  induction h generalizing index resume state items with
  | nil =>
    show (items.surplus resume >>= fun _ => .ok state).toOption = _
    rw [toOption_bind, items.toOption_surplus]
    cases items.content <;> rfl
  | cons hfirst hrest ih =>
    rename_i f g fields contentFields
    cases items with
    | item value next rest =>
      show (placing next (f.read state value) >>= _).toOption = _
      rw [toOption_bind, toOption_placing, (hfirst.read state).toOption_eq]
      exact Option.bind_congr (fun state _ => ih (index + 1) next state rest)
    | broken _ _ =>
      show none = (g.read state .broken).bind _
      rw [(hfirst.read state).broken]
      rfl
    | stop place =>
      rw [toOption_record_stop, hasDefault_agree (.cons hfirst hrest)]
      rfl

theorem Agree.record (name : String) (h : List.Forall₂ FieldsAgree fields contentFields)
    (initial : σ) :
    Agree (Located.record name fields initial) (Content.record? contentFields initial) := by
  refine ⟨fun l => ?_, rfl⟩
  rcases l with _ | _ | ⟨_ | _, _⟩ | ⟨_ | _, _⟩ | ⟨_, depth, items⟩ | ⟨_, depth, members⟩ | _
  case array =>
    rw [Located.record, toOption_checkDepth_bind, items.toOption_record _ h]
    cases depth <;> rfl
  case object =>
    rw [Located.record, toOption_checkDepth_bind, members.toOption_record h]
    cases depth <;> rfl
  all_goals rfl

end Agreement

end TypedClient.Json
