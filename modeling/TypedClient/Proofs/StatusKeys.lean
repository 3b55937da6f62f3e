import TypedClient.Document.OfYaml
import TypedClient.Proofs.DocumentChanges

/-! # Integers as keys of responses

    A status code looks like an integer, and a YAML text may well hold it as one.
    Tables that are read as they come take any scalar as the text that it is. The
    entries of a path item are read as data first, and data keep an integer.

    * **Operations** need texts as the keys of their responses, so an operation
      with an integer there is none.
    * **Other entries** of a path item may be any JSON value. The keys of an
      object are texts as well, so it is no JSON value either.

    What is left is to refuse the text as a whole.
-/

namespace TypedClient

namespace Yaml

open Decoder

/-! ### What a tree holds -/

namespace Node

section Targets

variable (anchored : List (Nat × Node))

/-- The node that a node stands for. -/
def target? : Node → Option Node
  | .alias number => anchored.lookup number
  | node => some node

/-- The text of a scalar. -/
def spelling? (node : Node) : Option String :=
  match node.target? anchored with
  | some (.scalar _ _ s) => some s.text
  | _ => none

/-- The entries of a map; nothing else has entries. -/
def entries (node : Node) : List (Node × Node) :=
  match node.target? anchored with
  | some (.mapping _ _ _ entries) => entries
  | _ => []

/-- Whether a node is a scalar that stands for an integer without a minus. -/
def isInteger (node : Node) : Bool :=
  match node.target? anchored with
  | some (.scalar _ _ s) =>
    match s.value with
    | .ok (.natural _) => true
    | _ => false
  | _ => false

end Targets

/-- A document with an operation whose responses have an integer as a key. -/
def HasIntegerStatus (root : Node) : Prop :=
  let anchored := root.anchored.reverse
  ∃ top ∈ root.entries anchored, top.1.spelling? anchored = some "paths" ∧
    ∃ path ∈ top.2.entries anchored,
      ∃ operation ∈ path.2.entries anchored, operation.1.spelling? anchored ≠ some "parameters" ∧
        ∃ field ∈ operation.2.entries anchored, field.1.spelling? anchored = some "responses" ∧
          ∃ status ∈ field.2.entries anchored, status.1.isInteger anchored = true
  deriving Decidable

end Node

/-- The node that a text is read from. -/
def root? (text : String) : Option Node :=
  (Tree.load? text).map (fun tree => tree.root.getD (Node.empty .start))

/-! ### What a reader gives -/

namespace Decoder

variable {α β : Type} {anchored : List (Nat × Node)}

/-- A reader gives a value somewhere, where some nodes have numbers. -/
def Gives (anchored : List (Nat × Node)) (d : Decoder α) (value : α) : Prop :=
  ∃ context followed followed', context.anchored = anchored
    ∧ d context followed = .ok (value, followed')

theorem Gives.of_bind {d : Decoder α} {f : α → Decoder β} {value : β}
    (h : Gives anchored (d >>= f) value) :
    ∃ first, Gives anchored d first ∧ Gives anchored (f first) value := by
  obtain ⟨context, followed, followed', hcontext, hrun⟩ := h
  replace hrun : (d context followed >>= fun result => f result.1 context result.2)
      = .ok (value, followed') := hrun
  cases hd : d context followed with
  | error problem =>
    rw [hd] at hrun
    cases hrun
  | ok result =>
    rw [hd] at hrun
    exact ⟨result.1, ⟨context, followed, result.2, hcontext, hd⟩,
      ⟨context, result.2, followed', hcontext, hrun⟩⟩

theorem Gives.of_pure {value given : α} (h : Gives anchored (pure given) value) :
    given = value := by
  obtain ⟨_, _, _, _, hrun⟩ := h
  cases hrun
  rfl

theorem not_gives_throw (problem : Problem) (value : α) :
    ¬ Gives anchored (throw problem) value := by
  rintro ⟨_, _, _, _, hrun⟩
  cases hrun

theorem not_gives_refuse (mark : Mark) (mismatch : Mismatch) (value : α) :
    ¬ Gives anchored (refuse mark mismatch) value := by
  rintro ⟨_, _, _, _, hrun⟩
  cases hrun

theorem Gives.of_read {f : Context → Decoder α} {value : α}
    (h : Gives anchored (read >>= f) value) :
    ∃ context, context.anchored = anchored ∧ Gives anchored (f context) value := by
  obtain ⟨context, ⟨_, _, _, hcontext, hrun⟩, hf⟩ := h.of_bind
  cases hrun
  exact ⟨context, hcontext, hf⟩

theorem Gives.of_placing {mark : Mark} {d : Decoder α} {value : α}
    (h : Gives anchored (placing mark d) value) : Gives anchored d value := by
  obtain ⟨context, followed, followed', hcontext, hrun⟩ := h
  refine ⟨context, followed, followed', hcontext, ?_⟩
  rw [placing] at hrun
  split at hrun
  · cases hrun
  · exact hrun

/-- Surroundings may change, as long as the numbers of nodes stay. -/
theorem Gives.of_withReader {change : Context → Context} {d : Decoder α} {value : α}
    (hchange : ∀ context, (change context).anchored = context.anchored)
    (h : Gives anchored (withReader change d) value) : Gives anchored d value := by
  obtain ⟨context, followed, followed', hcontext, hrun⟩ := h
  exact ⟨change context, followed, followed', (hchange context).trans hcontext, hrun⟩

theorem Gives.of_within {key : Node} {d : Decoder α} {value : α}
    (h : Gives anchored (within key d) value) : Gives anchored d value :=
  h.of_withReader (by intro context; rfl)

theorem Gives.of_entering {mark : Mark} {d : Decoder α} {value : α}
    (h : Gives anchored (entering mark d) value) : Gives anchored d value := by
  obtain ⟨context, _, hrun⟩ := h.of_read
  cases hdepth : context.depth with
  | zero =>
    rw [hdepth] at hrun
    exact absurd hrun (not_gives_throw _ _)
  | succ depth =>
    rw [hdepth] at hrun
    exact hrun.of_placing.of_withReader (by intro context; rfl)

end Decoder

/-- A text that is read has a root, and the reader gives the value there. -/
theorem gives_of_decode {α : Type} {read : Node → Decoder α} {text : String} {value : α}
    (h : decode read text = .ok value) :
    ∃ root, root? text = some root ∧ Gives root.anchored.reverse (read root) value := by
  rw [decode] at h
  cases htree : Tree.load? text with
  | none =>
    rw [htree] at h
    cases h
  | some tree =>
    rw [htree] at h
    refine ⟨tree.root.getD (Node.empty .start), by rw [root?, htree]; rfl, ?_⟩
    simp only at h
    split at h
    · rename_i hrun
      cases h
      have hplaced : Gives _ (placing .start (read (tree.root.getD (Node.empty .start)))) value :=
        ⟨_, _, _, rfl, hrun⟩
      exact hplaced.of_placing
    · cases h
    · cases h

namespace Node

variable {α σ : Type} {anchored : List (Nat × Node)}

/-! ### Texts and tables -/

theorem target_of_follow {node target : Node} (h : Gives anchored node.follow target) :
    node.target? anchored = some target := by
  match node, h with
  | .alias number, h =>
    obtain ⟨context, rfl, h⟩ := h.of_read
    obtain ⟨followed, _, h⟩ := h.of_bind
    -- Beyond the limit, and for a number that no node has, nothing is given.
    split at h
    · exact absurd h (not_gives_throw _ _)
    · obtain ⟨_, _, h⟩ := h.of_bind
      cases hfound : context.anchored.lookup number with
      | none =>
        rw [hfound] at h
        exact absurd h (not_gives_throw _ _)
      | some found =>
        rw [hfound] at h
        exact hfound.trans (congrArg some h.of_pure)
  | .scalar _ _ _, h => exact congrArg some h.of_pure
  | .sequence _ _ _ _, h => exact congrArg some h.of_pure
  | .mapping _ _ _ _, h => exact congrArg some h.of_pure

/-- What is read behind a node is read from the node that it stands for. -/
theorem gives_of_follow {node target : Node} {read : Node → Decoder α} {value : α}
    (h : Gives anchored (node.follow >>= read) value)
    (htarget : node.target? anchored = some target) : Gives anchored (read target) value := by
  obtain ⟨found, hfollow, h⟩ := h.of_bind
  obtain rfl := Option.some.inj ((target_of_follow hfollow).symm.trans htarget)
  exact h

theorem not_gives_unexpected (expected : String) (node : Node) (value : α) :
    ¬ Gives anchored (node.unexpected expected) value := by
  match node with
  | .scalar _ _ _ => exact not_gives_refuse _ _ _
  | .sequence _ _ _ _ => exact not_gives_refuse _ _ _
  | .mapping _ _ _ _ => exact not_gives_refuse _ _ _
  | .alias _ => exact not_gives_throw _ _

/-- A text that is asked for is the spelling of a scalar. -/
theorem spelling_of_text {expected name : String} {node : Node}
    (h : Gives anchored (node.text expected) name) : node.spelling? anchored = some name := by
  obtain ⟨target, hfollow, h⟩ := h.of_bind
  rw [spelling?, target_of_follow hfollow]
  match target, h with
  | .scalar _ _ _, h => exact congrArg some h.of_pure
  | .sequence _ _ _ _, h => exact absurd h (not_gives_unexpected _ _ _)
  | .mapping _ _ _ _, h => exact absurd h (not_gives_unexpected _ _ _)
  | .alias _, h => exact absurd h (not_gives_unexpected _ _ _)

/-- Each entry takes a step, from some state to some other one. -/
theorem exists_step_of_foldEntries {step : σ → String → Node → Decoder σ} {expected : String}
    {state final : σ} {entries : List (Node × Node)}
    (h : Gives anchored (foldEntries step expected state entries) final) {entry : Node × Node}
    (hmem : entry ∈ entries) :
    ∃ before name after, Gives anchored (step before name entry.2) after := by
  induction entries generalizing state with
  | nil => cases hmem
  | cons first rest ih =>
    obtain ⟨name, _, h⟩ := h.of_bind
    obtain ⟨after, hstep, h⟩ := h.of_bind
    rcases List.mem_cons.mp hmem with rfl | hrest
    · exact ⟨state, name, after, hstep.of_within⟩
    · exact ih h hrest

/-- A node with entries is a map. -/
theorem target_of_mem_entries {node : Node} {entry : Node × Node}
    (hmem : entry ∈ node.entries anchored) :
    ∃ mark anchor tag entries, node.target? anchored = some (.mapping mark anchor tag entries)
      ∧ entry ∈ entries := by
  rw [entries] at hmem
  split at hmem
  · exact ⟨_, _, _, _, ‹_›, hmem⟩
  · cases hmem

/-- All values of a table are read. -/
theorem exists_read_of_table {read : Node → Decoder α} {node : Node} {table : Table α}
    (h : Gives anchored (node.table read) table) {entry : Node × Node}
    (hmem : entry ∈ node.entries anchored) : ∃ value, Gives anchored (read entry.2) value := by
  obtain ⟨mark, anchor, tag, entries, htarget, hmem⟩ := target_of_mem_entries hmem
  obtain ⟨_, _, _, hstep⟩ :=
    exists_step_of_foldEntries (gives_of_follow h htarget).of_entering hmem
  obtain ⟨value, hread, _⟩ := hstep.of_bind
  exact ⟨value, hread⟩

/-- A field of a record is read. -/
theorem exists_read_of_fields {known : List (Field σ)} {seen : List String} {state final : σ}
    {entries : List (Node × Node)} (h : Gives anchored (fields known seen state entries) final)
    {entry : Node × Node} (hmem : entry ∈ entries) {name : String}
    (hname : entry.1.spelling? anchored = some name) {field : Field σ}
    (hfield : known.find? (fun field => field.name == name) = some field) :
    ∃ before after, Gives anchored (field.read before entry.2) after := by
  induction entries generalizing seen state with
  | nil => cases hmem
  | cons first rest ih =>
    obtain ⟨key, htext, h⟩ := h.of_bind
    rcases List.mem_cons.mp hmem with rfl | hrest
    · obtain rfl := Option.some.inj ((spelling_of_text htext).symm.trans hname)
      -- A field that was seen before is a mistake, so this entry is the one that is read.
      rw [hfield] at h
      simp only at h
      split at h
      · exact absurd h (not_gives_throw _ _)
      · obtain ⟨after, hread, _⟩ := h.of_bind
        exact ⟨state, after, hread.of_within⟩
    · split at h
      · exact ih h hrest
      · split at h
        · exact absurd h (not_gives_throw _ _)
        · obtain ⟨_, _, h⟩ := h.of_bind
          exact ih h hrest

theorem exists_read_of_record {name key : String} {known : List (Field σ)} {initial final : σ}
    {node : Node} (h : Gives anchored (node.record name known initial) final) {entry : Node × Node}
    (hmem : entry ∈ node.entries anchored) (hkey : entry.1.spelling? anchored = some key)
    {field : Field σ} (hfield : known.find? (fun field => field.name == key) = some field) :
    ∃ before after, Gives anchored (field.read before entry.2) after := by
  obtain ⟨mark, anchor, tag, entries, htarget, hmem⟩ := target_of_mem_entries hmem
  exact exists_read_of_fields (gives_of_follow h htarget).of_entering hmem hkey hfield

/-! ### Data -/

theorem value_of_plainValue {tagged : Mismatch} {mark : Mark} {s : Scalar} {value : ScalarValue}
    (h : Gives anchored (plainValue tagged mark s) value) : s.value = .ok value := by
  rw [plainValue] at h
  split at h
  · exact absurd h (not_gives_refuse _ _ _)
  · split at h
    · rename_i hvalue
      rw [hvalue, h.of_pure]
    · exact absurd h (not_gives_refuse _ _ _)

/-- A scalar is read as the datum of its value. -/
theorem scalarDatum_of_datum {depth : Nat} {node : Node} {d : Datum} {mark : Mark}
    {anchor : Option Nat} {s : Scalar} (h : Gives anchored (node.datum depth) d)
    (htarget : node.target? anchored = some (.scalar mark anchor s)) :
    Gives anchored (scalarDatum mark s) d := by
  unfold datum at h
  exact gives_of_follow h htarget

/-- An integer is no text as a datum. -/
theorem text?_of_isInteger {depth : Nat} {node : Node} {d : Datum}
    (h : Gives anchored (node.datum depth) d) (hinteger : node.isInteger anchored = true) :
    d.text? = none := by
  rw [isInteger] at hinteger
  split at hinteger
  · rename_i htarget
    split at hinteger
    · rename_i hvalue
      obtain ⟨value, hplain, h⟩ := (scalarDatum_of_datum h htarget).of_bind
      obtain rfl := Except.ok.inj ((value_of_plainValue hplain).symm.trans hvalue)
      rw [← h.of_pure]
      rfl
    · cases hinteger
  · cases hinteger

/-- The text `responses` looks like nothing but a text. -/
theorem value_of_responses {s : Scalar} {value : ScalarValue} (htext : s.text = "responses")
    (hvalue : s.value = .ok value) : value = .text := by
  have hplain : Resolve.plain "responses".toList = .text := rfl
  have hbool : Resolve.bool? "responses".toList = none := rfl
  have hnumber : Resolve.number? "responses".toList = none := rfl
  have hfloat : Resolve.float? "responses".toList = none := rfl
  have hnull : Resolve.isNull "responses".toList = false := rfl
  -- A tag of another kind would be a mistake there, any other one leaves the text.
  simp only [Scalar.value, Scalar.forced?, htext, hplain, hbool, hnumber, hfloat, hnull] at hvalue
  grind

/-- The key of responses is that text as a datum. -/
theorem datum_of_responses {depth : Nat} {node : Node} {d : Datum}
    (h : Gives anchored (node.datum depth) d)
    (hspelling : node.spelling? anchored = some "responses") : d = .string "responses" := by
  rw [spelling?] at hspelling
  split at hspelling
  · rename_i s htarget
    have htext : s.text = "responses" := Option.some.inj hspelling
    obtain ⟨value, hplain, h⟩ := (scalarDatum_of_datum h htarget).of_bind
    obtain rfl := value_of_responses htext (value_of_plainValue hplain)
    rw [← h.of_pure, htext]
  · cases hspelling

/-- Each entry is read as an entry of the data. -/
theorem exists_data_of_dataEntries {read : Node → Decoder Datum} {entries : List (Node × Node)}
    {data : List (Datum × Datum)} (h : Gives anchored (dataEntries read entries) data)
    {entry : Node × Node} (hmem : entry ∈ entries) :
    ∃ key value, (key, value) ∈ data ∧ Gives anchored (read entry.1) key
      ∧ Gives anchored (read entry.2) value := by
  induction entries generalizing data with
  | nil => cases hmem
  | cons first rest ih =>
    obtain ⟨key, hkey, h⟩ := h.of_bind
    obtain ⟨value, hvalue, h⟩ := h.of_bind
    obtain ⟨others, hothers, h⟩ := h.of_bind
    obtain rfl := h.of_pure
    rcases List.mem_cons.mp hmem with rfl | hrest
    · exact ⟨key, value, List.mem_cons_self, hkey, hvalue.of_within⟩
    · obtain ⟨key, value, hmem, hread⟩ := ih hothers hrest
      exact ⟨key, value, List.mem_cons_of_mem _ hmem, hread⟩

theorem exists_data_of_datum {depth : Nat} {node : Node} {d : Datum}
    (h : Gives anchored (node.datum depth) d) {entry : Node × Node}
    (hmem : entry ∈ node.entries anchored) :
    ∃ data key value depth, d = .map data ∧ (key, value) ∈ data
      ∧ Gives anchored (entry.1.datum depth) key ∧ Gives anchored (entry.2.datum depth) value := by
  obtain ⟨mark, anchor, tag, entries, htarget, hmem⟩ := target_of_mem_entries hmem
  unfold datum at h
  replace h := gives_of_follow h htarget
  simp only at h
  split at h
  · exact absurd h (not_gives_refuse _ _ _)
  · split at h
    · exact absurd h (not_gives_throw _ _)
    · obtain ⟨data, hdata, h⟩ := h.of_bind
      obtain ⟨key, value, hread⟩ := exists_data_of_dataEntries hdata.of_placing hmem
      exact ⟨data, key, value, _, h.of_pure.symm, hread⟩

end Node

end Yaml

open Yaml Yaml.Decoder

/-! ### Operations with integers as keys of responses -/

section Data

variable {entries responses : List (Datum × Datum)} {status : Datum × Datum}

/-- An operation needs texts as the keys of its responses. -/
theorem Operation.ofDatum?_of_status (hresponses : (.string "responses", .map responses) ∈ entries)
    (hstatus : status ∈ responses) (htext : status.1.text? = none) :
    Operation.ofDatum? (.map entries) = none := by
  rw [ofDatum?_eq, Datum.fields?, Option.bind_eq_none_iff]
  intro f hf
  obtain ⟨given, hgiven, rfl⟩ := Option.map_eq_some_iff.mp hf
  have hfound := Datum.find?_of_mem_of_pickFields (by decide) hresponses hgiven
  refine ofFields?_eq_none hfound ?_
  rw [Datum.table?_eq_readTable]
  exact readTable_eq_none hstatus (readEntry_of_no_key htext)

/-- A JSON value needs texts as all of its keys. -/
theorem Datum.toJson?_of_status (hresponses : (.string "responses", .map responses) ∈ entries)
    (hstatus : status ∈ responses) (htext : status.1.text? = none) :
    (Datum.map entries).toJson? = none := by
  have hvalue : (Datum.map responses).toJson? = none := by
    rw [toJson?, entriesToJson?_eq_readTable,
      readTable_eq_none hstatus (readEntry_of_no_key htext), Option.map_none]
  rw [toJson?, entriesToJson?_eq_readTable,
    readTable_eq_none hresponses (readEntry_of_unreadable _ _ hvalue), Option.map_none]

/-- **Operations with such a response** are neither operations nor anything else
    that may stand in a path item. -/
theorem PathEntry.ofDatum?_of_status (hresponses : (.string "responses", .map responses) ∈ entries)
    (hstatus : status ∈ responses) (htext : status.1.text? = none) :
    PathEntry.ofDatum? (.map entries) = none := by
  rw [PathEntry.ofDatum?, Operation.ofDatum?_of_status hresponses hstatus htext,
    Datum.toJson?_of_status hresponses hstatus htext]
  rfl

end Data

/-! ### Path items and documents -/

variable {anchored : List (Nat × Node)}

namespace PathItem.YamlDraft

/-- An entry of a path item holds its parameters, or is read as data. -/
theorem entries_cons {draft final : YamlDraft} {key value : Node} {rest : List (Node × Node)}
    (h : Gives anchored (draft.entries ((key, value) :: rest)) final) :
    (key.spelling? anchored = some "parameters"
        ∧ ∃ parameters, Gives anchored (entries { draft with parameters } rest) final)
      ∨ ∃ name d, Gives anchored value.anyDatum d ∧
        Gives anchored (entries { draft with others := (name, d) :: draft.others } rest) final := by
  obtain ⟨name, hname, h⟩ := h.of_bind
  split at h
  · rename_i hparameters
    split at h
    · exact absurd h (not_gives_throw _ _)
    · obtain ⟨parameters, _, h⟩ := h.of_bind
      exact .inl ⟨hparameters ▸ Node.spelling_of_text hname, some parameters, h⟩
  · obtain ⟨d, hd, h⟩ := h.of_bind
    exact .inr ⟨name, d, hd.of_within, h⟩

/-- Entries that have been read stay. -/
theorem mem_others_of_entries {draft final : YamlDraft} {entries : List (Node × Node)}
    (h : Gives anchored (draft.entries entries) final) {entry : String × Datum}
    (hmem : entry ∈ draft.others) : entry ∈ final.others := by
  induction entries generalizing draft with
  | nil =>
    obtain rfl := h.of_pure
    exact hmem
  | cons first rest ih =>
    rcases entries_cons h with ⟨_, _, hmore⟩ | ⟨_, _, _, hmore⟩
    · exact ih hmore hmem
    · exact ih hmore (List.mem_cons_of_mem _ hmem)

/-- Entries that are no parameters are read as data. -/
theorem exists_mem_others_of_entries {draft final : YamlDraft} {entries : List (Node × Node)}
    (h : Gives anchored (draft.entries entries) final) {entry : Node × Node}
    (hmem : entry ∈ entries) (hkey : entry.1.spelling? anchored ≠ some "parameters") :
    ∃ name d, (name, d) ∈ final.others ∧ Gives anchored entry.2.anyDatum d := by
  induction entries generalizing draft with
  | nil => cases hmem
  | cons first rest ih =>
    rcases entries_cons h with ⟨hparameters, _, hmore⟩ | ⟨name, d, hd, hmore⟩
    · rcases List.mem_cons.mp hmem with rfl | hrest
      · exact absurd hparameters hkey
      · exact ih hmore hrest
    · rcases List.mem_cons.mp hmem with rfl | hrest
      · have hfirst : (name, d) ∈ (name, d) :: draft.others := List.mem_cons_self
        exact ⟨name, d, mem_others_of_entries hmore hfirst, hd⟩
      · exact ih hmore hrest

/-- A path item is made of entries that can be read. -/
theorem ofDatum?_ne_none_of_finish {draft : YamlDraft} {item : PathItem}
    (h : Gives anchored draft.finish item) {entry : String × Datum} (hmem : entry ∈ draft.others) :
    PathEntry.ofDatum? entry.2 ≠ none := by
  obtain ⟨table, h, _⟩ := h.of_bind
  have hmem := List.mem_reverse.mpr hmem
  -- The induction is on the entries as they come, whatever is in the table so far.
  generalize draft.others.reverse = entries at h hmem
  generalize ([] : Table PathEntry) = initial at h
  induction entries generalizing initial with
  | nil => cases hmem
  | cons first rest ih =>
    rw [List.foldlM_cons] at h
    obtain ⟨read, hstep, h⟩ := h.of_bind
    rcases List.mem_cons.mp hmem with rfl | hrest
    · intro hnone
      rw [hnone] at hstep
      exact not_gives_throw _ _ hstep
    · exact ih hrest read h

end PathItem.YamlDraft

/-- Every entry of a path item that is no parameters is an entry as a datum. -/
theorem PathItem.exists_datum_of_entries {node : Node} {item : PathItem}
    (h : Gives anchored (PathItem.ofNode node) item) {entry : Node × Node}
    (hmem : entry ∈ node.entries anchored)
    (hkey : entry.1.spelling? anchored ≠ some "parameters") :
    ∃ depth d, Gives anchored (entry.2.datum depth) d ∧ PathEntry.ofDatum? d ≠ none := by
  obtain ⟨mark, anchor, tag, entries, htarget, hmem⟩ := Node.target_of_mem_entries hmem
  obtain ⟨draft, hdraft, hfinish⟩ := (Node.gives_of_follow h htarget).of_entering.of_bind
  obtain ⟨name, d, hothers, hd⟩ := YamlDraft.exists_mem_others_of_entries hdraft hmem hkey
  obtain ⟨context, _, hd⟩ := hd.of_read
  exact ⟨context.depth, d, hd, YamlDraft.ofDatum?_ne_none_of_finish hfinish hothers⟩

/-- No document is read from a root with an integer as a key of responses. -/
theorem Document.not_gives_of_integerStatus {root : Node} (h : root.HasIntegerStatus)
    (d : Document) : ¬ Gives root.anchored.reverse (Document.ofNode root) d := by
  intro hgives
  obtain ⟨top, htop, hpaths, path, hpath, operation, hoperation, hkey, field, hfield, hresponses,
    status, hstatus, hinteger⟩ := h
  -- Down to the path item, readers ask for shapes, and keys are texts.
  obtain ⟨_, _, hread⟩ := Node.exists_read_of_record hgives htop hpaths rfl
  obtain ⟨_, htable, _⟩ := hread.of_bind
  obtain ⟨_, hitem⟩ := Node.exists_read_of_table htable hpath
  obtain ⟨depth, data, hdata, hentry⟩ := PathItem.exists_datum_of_entries hitem hoperation hkey
  -- Below it there are only data, whose keys are what they look like.
  obtain ⟨fields, key, value, depth, rfl, hmem, hread, hvalue⟩ :=
    Node.exists_data_of_datum hdata hfield
  obtain rfl := Node.datum_of_responses hread hresponses
  obtain ⟨statuses, code, _, _, rfl, hcode, hread, _⟩ := Node.exists_data_of_datum hvalue hstatus
  exact hentry (PathEntry.ofDatum?_of_status hmem hcode (Node.text?_of_isInteger hread hinteger))

/-- **Integers as status codes**: a YAML text is refused if an operation has an
    integer as a key of its responses. -/
theorem Document.ofYamlText_of_integerStatus {text : String}
    (h : ∃ root ∈ Yaml.root? text, root.HasIntegerStatus) :
    ∃ error, Document.ofYamlText text = .error error := by
  obtain ⟨root, hroot, hinteger⟩ := h
  cases hread : Document.ofYamlText text with
  | error error => exact ⟨error, rfl⟩
  | ok d =>
    obtain ⟨read, hreadRoot, hgives⟩ := gives_of_decode hread
    obtain rfl := Option.some.inj (hreadRoot.symm.trans hroot)
    exact absurd hgives (Document.not_gives_of_integerStatus hinteger d)

/-- A text with an operation that has one response, under a given key. -/
def statusText (status : String) : String :=
  "paths:\n  /a:\n    get:\n      responses:\n        " ++ status
    ++ ":\n          description: ok\n"

/-- Quotes around a status code decide whether the text is a document. -/
theorem Document.ofYamlText_of_integerStatus_sample :
    (Document.ofYamlText (statusText "'200'")).toOption.isSome
      ∧ ∃ error, Document.ofYamlText (statusText "200") = .error error :=
  ⟨by decide +kernel, Document.ofYamlText_of_integerStatus (by decide +kernel)⟩

end TypedClient
