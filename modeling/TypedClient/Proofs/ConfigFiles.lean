import TypedClient.Config.OfYaml
import TypedClient.Proofs.StatusKeys

/-! # What a configuration file says

    A configuration file is a map. What it says about a field stands under the name of
    the field, and it says nothing about fields whose names are no keys of it.

    * **Fields of records** are read one entry after the other. The reader of a field
      puts its own part of the record, and keeps all others.
    * **One entry**: a known name that comes twice is a mistake, so of a record that is
      read each part is the initial one, or what the one entry of its name says.
    * **Sections** are records inside of the record, and so the code of the package is
      spoken of field by field as well.
-/

namespace TypedClient

namespace Yaml

open Decoder

namespace Node

/-! ### Values under keys -/

section Values

variable (anchored : List (Nat × Node))

/-- The value under a key of a map. -/
def member? (name : String) (node : Node) : Option Node :=
  ((node.entries anchored).find? (fun entry => entry.1.spelling? anchored = some name)).map (·.2)

/-- The text under a key. -/
def textOf? (name : String) (node : Node) : Option String :=
  (node.member? anchored name).bind (spelling? anchored)

/-- Whether a node is a scalar that stands for a missing value. -/
def isMissing : Node → Bool
  | .scalar _ _ s => (isNull s).toOption == some true
  | _ => false

/-- The text of the node that a node stands for, unless that is a null. -/
def textUnlessNull? (node : Node) : Option String :=
  (node.target? anchored).bind (fun target =>
    if target.isMissing then none else target.spelling? anchored)

/-- The truth value of a scalar: a plain one, or a literal with the tag for it. -/
def truth? (node : Node) : Option Bool :=
  match node.target? anchored with
  | some (.scalar _ _ s) =>
    if s.style == .plain || (s.style == .literal && s.tag == some (Resolve.core "bool")) then
      Resolve.bool? s.text.toList
    else none
  | _ => none

/-- The truth value under a key. -/
def truthOf? (name : String) (node : Node) : Option Bool :=
  (node.member? anchored name).bind (truth? anchored)

end Values

variable {α β γ σ : Type} {anchored : List (Nat × Node)}

theorem truth_of_bool {node : Node} {b : Bool} (h : Gives anchored node.bool b) :
    node.truth? anchored = some b := by
  obtain ⟨target, hfollow, h⟩ := h.of_bind
  rw [truth?, target_of_follow hfollow]
  cases target with
  | scalar _ _ s =>
    simp only at h ⊢
    split at h
    · rename_i found hfound
      rw [hfound, h.of_pure]
    · exact absurd h (not_gives_unexpected _ _ _)
  | _ => exact absurd h (not_gives_unexpected _ _ _)

/-- What may be null is read as the text of its node, unless that is a null. -/
theorem textUnlessNull_of_orNull {expected : String} {node : Node} {text : Option String}
    (h : Gives anchored (node.orNull (Node.text expected)) text) :
    node.textUnlessNull? anchored = text := by
  obtain ⟨target, hfollow, h⟩ := h.of_bind
  have hread : target.isMissing = false →
      Gives anchored (do return some (← target.text expected)) text →
        (if target.isMissing then none else target.spelling? anchored) = text := by
    intro hpresent hgives
    obtain ⟨found, htext, hpure⟩ := hgives.of_bind
    rw [hpresent, if_neg (by decide), spelling_of_text htext]
    exact hpure.of_pure
  rw [textUnlessNull?, target_of_follow hfollow]
  show (if target.isMissing then none else target.spelling? anchored) = text
  cases target with
  | scalar _ _ s =>
    simp only at h
    split at h
    · rename_i hnull
      rw [isMissing, hnull]
      exact h.of_pure
    · rename_i hpresent
      exact hread (by rw [isMissing, hpresent]; rfl) h
    · exact absurd h (not_gives_throw _ _)
  | _ => exact hread rfl h

/-! ### Parts of records -/

variable {name : String} {π : σ → β} {f : Field σ}

/-- **The reader of a field puts** a part of the record, by its node. -/
def Field.Puts (anchored : List (Nat × Node)) (f : Field σ) (π : σ → β) (value : Node → β) : Prop :=
  ∀ before node after, Gives anchored (f.read before node) after → π after = value node

/-- **The reader of a field keeps** a part of the record. -/
def Field.Keeps (anchored : List (Nat × Node)) (f : Field σ) (π : σ → β) : Prop :=
  ∀ before node after, Gives anchored (f.read before node) after → π after = π before

theorem Field.keeps_put {read : Node → Decoder γ} {put : σ → γ → σ}
    (hput : ∀ state found, π (put state found) = π state) :
    Field.Keeps anchored ⟨name, fun state node => do return put state (← read node)⟩ π := by
  intro before node after h
  obtain ⟨found, -, h⟩ := h.of_bind
  rw [← h.of_pure]
  exact hput before found

theorem Field.puts_put {read : Node → Decoder γ} {put : σ → γ → σ} {value : Node → β}
    (hput : ∀ state node found, Gives anchored (read node) found →
      π (put state found) = value node) :
    Field.Puts anchored ⟨name, fun state node => do return put state (← read node)⟩ π value := by
  intro before node after h
  obtain ⟨found, hread, h⟩ := h.of_bind
  rw [← h.of_pure]
  exact hput before node found hread

section Fields

variable {known : List (Field σ)} {seen : List String} {state final : σ}
  {entries : List (Node × Node)}

/-- **The step**: an entry of a record is passed over, or it is the first of its name and
    its field is read. -/
theorem fields_cons {key value : Node}
    (h : Gives anchored (fields known seen state ((key, value) :: entries)) final) :
    ∃ found, key.spelling? anchored = some found ∧
      ((known.find? (fun field => field.name == found) = none
          ∧ Gives anchored (fields known seen state entries) final)
        ∨ ∃ field after, known.find? (fun field => field.name == found) = some field
          ∧ found ∉ seen ∧ Gives anchored (field.read state value) after
          ∧ Gives anchored (fields known (found :: seen) after entries) final) := by
  obtain ⟨found, htext, h⟩ := h.of_bind
  refine ⟨found, spelling_of_text htext, ?_⟩
  split at h
  · exact .inl ⟨‹_›, h⟩
  · split at h
    · exact absurd h (not_gives_throw _ _)
    · rename_i field hfield hseen
      obtain ⟨after, hread, h⟩ := h.of_bind
      refine .inr ⟨field, after, hfield, ?_, hread.of_within, h⟩
      simpa using hseen

variable (hothers : ∀ other ∈ known, other.name = name ∨ Field.Keeps anchored other π)

include hothers

/-- Behind its entry, a part of a record stays as it is. -/
theorem kept_of_seen (h : Gives anchored (fields known seen state entries) final)
    (hseen : name ∈ seen) : π final = π state := by
  induction entries generalizing seen state with
  | nil => rw [← h.of_pure]
  | cons entry rest ih =>
    obtain ⟨found, -, ⟨-, h⟩ | ⟨field, after, hfield, hfresh, hread, h⟩⟩ := fields_cons h
    · exact ih h hseen
    · have hname : field.name = found := by simpa using List.find?_some hfield
      have hkeeps := (hothers field (List.mem_of_find?_eq_some hfield)).resolve_left (by
        rintro rfl
        exact hfresh (hname ▸ hseen))
      rw [ih h (List.mem_cons_of_mem found hseen), hkeeps state entry.2 after hread]

/-- **The run**: a part of a record is what the entry of its name says, or the initial
    one. -/
theorem part_of_fields {value : Node → β}
    (hfield : known.find? (fun field => field.name == name) = some f)
    (hputs : Field.Puts anchored f π value)
    (h : Gives anchored (fields known seen state entries) final) (hseen : name ∉ seen) :
    π final = (((entries.find? (fun entry => entry.1.spelling? anchored = some name)).map
      (·.2)).map value).getD (π state) := by
  induction entries generalizing seen state with
  | nil => rw [← h.of_pure]; rfl
  | cons entry rest ih =>
    obtain ⟨found, hkey, ⟨hnone, h⟩ | ⟨field, after, hfound, hfresh, hread, h⟩⟩ := fields_cons h
    · have hne : found ≠ name := by
        rintro rfl
        rw [hnone] at hfield
        cases hfield
      rw [List.find?_cons_of_neg (by simp [hkey, hne]), ih h hseen]
    · by_cases hname : found = name
      · subst hname
        obtain rfl := Option.some.inj (hfound.symm.trans hfield)
        rw [List.find?_cons_of_pos (by simp [hkey]),
          kept_of_seen hothers h List.mem_cons_self, hputs state entry.2 after hread]
        rfl
      · have hfieldName : field.name = found := by simpa using List.find?_some hfound
        have hkeeps := (hothers field (List.mem_of_find?_eq_some hfound)).resolve_left (by
          rintro rfl
          exact hname hfieldName.symm)
        rw [List.find?_cons_of_neg (by simp [hkey, hname]),
          ih h (by simp [Ne.symm hname, hseen]), hkeeps state entry.2 after hread]

/-- **Parts of records**: what the node under its name says, or the initial one. -/
theorem part_of_record {label : String} {initial : σ} {node : Node} {value : Node → β}
    (hfield : known.find? (fun field => field.name == name) = some f)
    (hputs : Field.Puts anchored f π value)
    (h : Gives anchored (node.record label known initial) final) :
    π final = ((node.member? anchored name).map value).getD (π initial) := by
  obtain ⟨target, hfollow, h⟩ := h.of_bind
  rw [member?, Node.entries, target_of_follow hfollow]
  cases target with
  | mapping _ _ _ entries =>
    exact part_of_fields hothers hfield hputs h.of_entering List.not_mem_nil
  | scalar _ _ s =>
    simp only at h
    split at h
    · rw [← h.of_pure]
      rfl
    · exact absurd h (not_gives_unexpected _ _ _)
  | _ =>
    -- Nothing else is blank.
    simp only [isBlank, Bool.false_eq_true, if_false] at h
    exact absurd h (not_gives_unexpected _ _ _)

end Fields

/-- A part that is nothing at first is what the node under its name says, if there is
    one. -/
theorem optional_of_record {known : List (Field σ)} {label : String} {initial final : σ}
    {node : Node} {π : σ → Option β} {value : Node → Option β}
    (hothers : ∀ other ∈ known, other.name = name ∨ Field.Keeps anchored other π)
    (hfield : known.find? (fun field => field.name == name) = some f)
    (hputs : Field.Puts anchored f π value) (hinitial : π initial = none)
    (h : Gives anchored (node.record label known initial) final) :
    π final = (node.member? anchored name).bind value := by
  rw [part_of_record hothers hfield hputs h, hinitial]
  cases node.member? anchored name <;> rfl

/-- A part that a text is put into is the text under its name, if there is one. -/
theorem textOf_of_record {known : List (Field σ)} {label expected : String} {initial final : σ}
    {node : Node} {π : σ → Option String} {put : σ → String → σ}
    (hothers : ∀ other ∈ known, other.name = name ∨ Field.Keeps anchored other π)
    (hfield : known.find? (fun field => field.name == name)
      = some ⟨name, fun state node => do return put state (← node.text expected)⟩)
    (hput : ∀ state text, π (put state text) = some text) (hinitial : π initial = none)
    (h : Gives anchored (node.record label known initial) final) :
    π final = node.textOf? anchored name := by
  refine optional_of_record hothers hfield (Field.puts_put ?_) hinitial h
  intro state child text hread
  exact (hput state text).trans (spelling_of_text hread).symm

end Node

end Yaml

open Yaml Yaml.Decoder

/-! ### Configurations -/

variable {anchored : List (Nat × Node)} {node : Node}

/-- What a node says about the code of the package. -/
def PackageLayer.saidBy (anchored : List (Nat × Node)) (node : Node) : PackageLayer :=
  { clientModule := node.textOf? anchored "http_client_import"
    clientName := node.textOf? anchored "http_client_name"
    typesModule := node.textOf? anchored "types_module"
    withoutComments := node.truthOf? anchored "no_jsdoc" }

/-- What a node says about a configuration. -/
def ConfigLayer.saidBy (anchored : List (Nat × Node)) (node : Node) : ConfigLayer :=
  { apiUrl := node.textOf? anchored "api_url"
    documentPath := node.textOf? anchored "swagger_path"
    input := (node.member? anchored "input").bind (Node.textUnlessNull? anchored)
    outputFolder := node.textOf? anchored "output_dir"
    clientNamespace := node.textOf? anchored "namespace"
    formatted := node.truthOf? anchored "format"
    client := ((node.member? anchored "client").map (PackageLayer.saidBy anchored)).getD {} }

theorem PackageLayer.eq_saidBy {layer : PackageLayer}
    (h : Gives anchored (PackageLayer.ofNode node) layer) :
    layer = PackageLayer.saidBy anchored node := by
  have hmodule : layer.clientModule = node.textOf? anchored "http_client_import" :=
    Node.textOf_of_record (by simp [-bind_pure_comp, Node.Field.keeps_put]) rfl
      (fun _ _ => rfl) rfl h
  have hname : layer.clientName = node.textOf? anchored "http_client_name" :=
    Node.textOf_of_record (by simp [-bind_pure_comp, Node.Field.keeps_put]) rfl
      (fun _ _ => rfl) rfl h
  have htypes : layer.typesModule = node.textOf? anchored "types_module" :=
    Node.textOf_of_record (by simp [-bind_pure_comp, Node.Field.keeps_put]) rfl
      (fun _ _ => rfl) rfl h
  have hcomments : layer.withoutComments = node.truthOf? anchored "no_jsdoc" :=
    Node.optional_of_record (by simp [-bind_pure_comp, Node.Field.keeps_put]) rfl
      (Node.Field.puts_put fun _ _ _ hread => (Node.truth_of_bool hread).symm) rfl h
  rw [saidBy, ← hmodule, ← hname, ← htypes, ← hcomments]

theorem ConfigLayer.eq_saidBy {layer : ConfigLayer}
    (h : Gives anchored (ConfigLayer.ofNode node) layer) :
    layer = ConfigLayer.saidBy anchored node := by
  have hurl : layer.apiUrl = node.textOf? anchored "api_url" :=
    Node.textOf_of_record (by simp [-bind_pure_comp, Node.Field.keeps_put]) rfl
      (fun _ _ => rfl) rfl h
  have hpath : layer.documentPath = node.textOf? anchored "swagger_path" :=
    Node.textOf_of_record (by simp [-bind_pure_comp, Node.Field.keeps_put]) rfl
      (fun _ _ => rfl) rfl h
  have hinput : layer.input
      = (node.member? anchored "input").bind (Node.textUnlessNull? anchored) :=
    Node.optional_of_record (by simp [-bind_pure_comp, Node.Field.keeps_put]) rfl
      (Node.Field.puts_put fun _ _ _ hread => (Node.textUnlessNull_of_orNull hread).symm) rfl h
  have hfolder : layer.outputFolder = node.textOf? anchored "output_dir" :=
    Node.textOf_of_record (by simp [-bind_pure_comp, Node.Field.keeps_put]) rfl
      (fun _ _ => rfl) rfl h
  have hnamespace : layer.clientNamespace = node.textOf? anchored "namespace" :=
    Node.textOf_of_record (by simp [-bind_pure_comp, Node.Field.keeps_put]) rfl
      (fun _ _ => rfl) rfl h
  have hformatted : layer.formatted = node.truthOf? anchored "format" :=
    Node.optional_of_record (by simp [-bind_pure_comp, Node.Field.keeps_put]) rfl
      (Node.Field.puts_put fun _ _ _ hread => (Node.truth_of_bool hread).symm) rfl h
  have hclient : layer.client
      = ((node.member? anchored "client").map (PackageLayer.saidBy anchored)).getD {} :=
    Node.part_of_record (by simp [-bind_pure_comp, Node.Field.keeps_put]) rfl
      (Node.Field.puts_put fun _ _ _ hread => PackageLayer.eq_saidBy hread) h
  rw [saidBy, ← hurl, ← hpath, ← hinput, ← hfolder, ← hnamespace, ← hformatted, ← hclient]

/-- **Configuration files**: what a file that is read says is what its root says. -/
theorem ConfigLayer.eq_saidBy_of_text {text : String} {layer : ConfigLayer}
    (h : ConfigLayer.ofYamlText text = .ok layer) :
    ∃ root, Yaml.root? text = some root ∧ layer = saidBy root.anchored.reverse root := by
  obtain ⟨root, hroot, hgives⟩ := gives_of_decode h
  exact ⟨root, hroot, eq_saidBy hgives⟩

end TypedClient
