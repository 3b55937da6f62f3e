import TypedClient.Proofs.JsonContent

/-! # Documents from the content of JSON texts

    A JSON text is read as a document by its content. Beside every reader of
    `TypedClient.Document.OfJson` stands one of contents; the two agree, so a
    text is accepted exactly if its content is read and nothing follows it.
-/

namespace TypedClient

open Json

/-! ### Readers -/

/-- Reads a schema, from data that is read first. -/
def Schema.ofContent? (c : Content) : Option Schema :=
  c.datum?.map (fun datum => (Schema.ofDatum? datum).getD {})

/-- Reads an entry of a list or table of parameters, from data that is read first. -/
def ParameterEntry.ofContent? (c : Content) : Option ParameterEntry :=
  c.datum?.bind ParameterEntry.ofDatum?

def Info.ofContent? : Content → Option Info :=
  Content.record?
    [⟨"title", true, fun i c => c.text?.map (fun title => { i with title })⟩,
     ⟨"description", false, fun i c =>
        (c.orNull? Content.text?).map (fun description => { i with description })⟩,
     ⟨"version", true, fun i c => c.text?.map (fun version => { i with version })⟩] {}

/-- The fields of the shared parts of a document. -/
def Components.fields : List (Content.Field Components) :=
  [⟨"schemas", true, fun k c =>
      (c.table? Schema.ofContent?).map (fun schemas => { k with schemas })⟩,
   ⟨"parameters", true, fun k c =>
      (c.table? ParameterEntry.ofContent?).map (fun parameters => { k with parameters })⟩]

def Components.ofContent? : Content → Option Components :=
  Content.record? fields {}

/-- Adds a member to a path item that is being read. -/
def PathItem.Draft.addContent? (draft : Draft) (name : String) (c : Content) : Option Draft :=
  if name = "parameters" then
    match draft.parameters with
    | some _ => none
    | none => (c.list? ParameterEntry.ofContent?).map
        (fun parameters => { draft with parameters := some parameters })
  else c.datum?.map (fun datum => { draft with others := (name, datum) :: draft.others })

def PathItem.ofContent? : Content → Option PathItem
  | .object false members =>
    (Content.foldInto? PathItem.Draft.addContent? {} members).bind PathItem.Draft.finish?
  | _ => none

/-- The fields of a document. -/
def Document.fields : List (Content.Field Document) :=
  [⟨"openapi", false, fun d c =>
      (c.orNull? Content.text?).map (fun openapi => { d with openapi })⟩,
   ⟨"swagger", false, fun d c =>
      (c.orNull? Content.text?).map (fun swagger => { d with swagger })⟩,
   ⟨"info", true, fun d c => (Info.ofContent? c).map (fun info => { d with info })⟩,
   ⟨"paths", true, fun d c =>
      (c.table? PathItem.ofContent?).map (fun paths => { d with paths })⟩,
   ⟨"components", false, fun d c =>
      (c.orNull? Components.ofContent?).map (fun components => { d with components })⟩,
   ⟨"definitions", true, fun d c =>
      (c.table? Schema.ofContent?).map (fun definitions => { d with definitions })⟩,
   ⟨"parameters", true, fun d c =>
      (c.table? ParameterEntry.ofContent?).map (fun parameters => { d with parameters })⟩]

def Document.ofContent? : Content → Option Document :=
  Content.record? fields {}

/-! ### Agreement -/

theorem Schema.agree : Agree Schema.ofLocated Schema.ofContent? :=
  agree_datum.map (fun datum => (Schema.ofDatum? datum).getD {})

theorem ParameterEntry.agree : Agree ParameterEntry.ofLocated ParameterEntry.ofContent? := by
  refine ⟨fun l => ?_, rfl⟩
  rw [ParameterEntry.ofLocated, toOption_bind, agree_datum.toOption_eq]
  refine Option.bind_congr (fun datum _ => ?_)
  cases ParameterEntry.ofDatum? datum <;> rfl

theorem Info.agree : Agree Info.ofLocated Info.ofContent? := by
  refine Agree.record "struct Info" ?_ _
  refine .cons ⟨rfl, rfl, fun i => ?title⟩ (.cons ⟨rfl, rfl, fun i => ?description⟩
    (.cons ⟨rfl, rfl, fun i => ?version⟩ .nil))
  case title => exact agree_text.map (fun title => { i with title })
  case description => exact agree_text.orNull.map (fun description => { i with description })
  case version => exact agree_text.map (fun version => { i with version })

theorem Components.agree : Agree Components.ofLocated Components.ofContent? := by
  refine Agree.record "struct Components" ?_ _
  refine .cons ⟨rfl, rfl, fun k => ?schemas⟩ (.cons ⟨rfl, rfl, fun k => ?parameters⟩ .nil)
  case schemas => exact Schema.agree.table.map (fun schemas => { k with schemas })
  case parameters =>
    exact ParameterEntry.agree.table.map (fun parameters => { k with parameters })

theorem PathItem.Draft.agree_add (draft : Draft) (name : String) (afterName : Position) :
    Agree (draft.add name afterName) (draft.addContent? name) := by
  unfold PathItem.Draft.add PathItem.Draft.addContent?
  by_cases hname : name = "parameters"
  · simp only [hname, if_true]
    cases draft.parameters with
    | some _ => exact ⟨fun _ => rfl, rfl⟩
    | none => exact ParameterEntry.agree.list.map _
  · simp only [hname, if_false]
    exact agree_datum.map _

theorem PathItem.toOption_ofMembers (draft : PathItem.Draft) (members : Members) :
    (PathItem.ofMembers draft members).toOption
      = (Content.foldInto? PathItem.Draft.addContent? draft members.content).bind
          PathItem.Draft.finish? := by
  cases members with
  | stop _ =>
    show _ = draft.finish?
    unfold PathItem.ofMembers
    cases draft.finish? <;> rfl
  | member key afterName value resume rest =>
    cases key with
    | error _ => rfl
    | ok name =>
      rw [ofMembers, toOption_bind, toOption_placing, (draft.agree_add name afterName).toOption_eq]
      show _ = ((draft.addContent? name value.content).bind _).bind _
      rw [Option.bind_assoc]
      exact Option.bind_congr (fun draft _ => toOption_ofMembers draft rest)
  | broken _ _ => rfl

theorem PathItem.agree : Agree PathItem.ofLocated PathItem.ofContent? := by
  refine ⟨fun l => ?_, rfl⟩
  rcases l with _ | _ | ⟨_ | _, _⟩ | ⟨_ | _, _⟩ | _ | ⟨_, depth, members⟩ | _
  case object =>
    rw [PathItem.ofLocated, toOption_checkDepth_bind, PathItem.toOption_ofMembers]
    cases depth <;> rfl
  all_goals rfl

theorem Document.agree : Agree Document.ofLocated Document.ofContent? := by
  refine Agree.record "struct Document" ?_ _
  refine .cons ⟨rfl, rfl, fun d => ?openapi⟩ (.cons ⟨rfl, rfl, fun d => ?swagger⟩
    (.cons ⟨rfl, rfl, fun d => ?info⟩ (.cons ⟨rfl, rfl, fun d => ?paths⟩
      (.cons ⟨rfl, rfl, fun d => ?components⟩ (.cons ⟨rfl, rfl, fun d => ?definitions⟩
        (.cons ⟨rfl, rfl, fun d => ?parameters⟩ .nil))))))
  case openapi => exact agree_text.orNull.map (fun openapi => { d with openapi })
  case swagger => exact agree_text.orNull.map (fun swagger => { d with swagger })
  case info => exact Info.agree.map (fun info => { d with info })
  case paths => exact PathItem.agree.table.map (fun paths => { d with paths })
  case components => exact Components.agree.orNull.map (fun components => { d with components })
  case definitions => exact Schema.agree.table.map (fun definitions => { d with definitions })
  case parameters =>
    exact ParameterEntry.agree.table.map (fun parameters => { d with parameters })

/-! ### Texts -/

/-- A text holds a content, and nothing behind it. -/
def Json.Holds (text : String) (c : Content) : Prop :=
  (Source.read text).trailing = none ∧ (Source.read text).root.content = c

/-- A decoded text is one that holds what the reader of contents reads. -/
theorem Json.decode_eq_ok_iff {α : Type} {read : Located → Except Problem α}
    {readContent : Content → Option α} (h : Agree read readContent) {s : Source} {value : α} :
    s.decode read = .ok value ↔ s.trailing = none ∧ readContent s.root.content = some value := by
  rw [← h.toOption_eq, Source.decode]
  cases read s.root with
  | error problem => cases problem <;> simp [placing, Problem.resumeAt, Except.toOption]
  | ok result => cases s.trailing <;> simp [placing, Except.toOption]

/-- **Documents are read by content.** -/
theorem Document.ofJsonText_eq_ok_iff {text : String} {d : Document} :
    Document.ofJsonText text = .ok d ↔ ∃ c, Json.Holds text c ∧ Document.ofContent? c = some d := by
  rw [Document.ofJsonText, decode_eq_ok_iff Document.agree]
  constructor
  · rintro ⟨htrailing, hread⟩
    exact ⟨_, ⟨htrailing, rfl⟩, hread⟩
  · rintro ⟨_, ⟨htrailing, rfl⟩, hread⟩
    exact ⟨htrailing, hread⟩

end TypedClient
