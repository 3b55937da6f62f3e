import TypedClient.Proofs.DocumentContent
import TypedClient.Proofs.JsonChanges

/-! # Changes inside documents

    The outer parts of a document are read strictly. What reads them follows a
    change of their content as well, but only where the content is read before
    the change: a value that the text may skip need not be readable.

    * **Tables and lists** follow in their parts.
    * **Records** follow in a field, whatever their other fields are: each field
      is written by its own reader only.
    * **Path items** follow in their parameters and in their other members.
-/

namespace TypedClient

open Json

/-! ### Following changes of contents -/

namespace Json.Content

variable {α β σ : Type} {R : Content → Content → Prop} {step : Step} {steps : List Step}
  {read : Content → Option α} {Q : α → α → Prop}

/-- What a change makes of a value: something else where it shows, nothing where
    it does not. -/
def Changes (Q : α → α → Prop) (shown : Bool) (a a' : α) : Prop :=
  if shown then Q a a' else a' = a

/-- **Following**: what is read before the change is read after it, and the two
    differ as the change has it. -/
def Follows (R : Content → Content → Prop) (steps : List Step) (read : Content → Option α)
    (Q : α → α → Prop) : Prop :=
  ∀ ⦃shown : Bool⦄ ⦃c c' : Content⦄, ChangedAt R steps shown c c' → ∀ ⦃a : α⦄, read c = some a →
    ∃ a', read c' = some a' ∧ Changes Q shown a a'

theorem Follows.mono {Q' : α → α → Prop} (h : Follows R steps read Q)
    (hQ : ∀ a a', Q a a' → Q' a a') : Follows R steps read Q' := by
  intro shown c c' hchange a ha
  obtain ⟨a', ha', hchanges⟩ := h hchange ha
  refine ⟨a', ha', ?_⟩
  cases shown with
  | true => exact hQ a a' hchanges
  | false => exact hchanges

/-- A reader of data follows what its data follow. -/
theorem Follows.ofData {S : Datum → Datum → Prop} {readDatum : Datum → Option α} {change : α → α}
    (hRS : ∀ {c c' d}, R c c' → c.datum? = some d → ∃ d', c'.datum? = some d' ∧ S d d')
    (h : Datum.Follows S steps readDatum change) :
    Follows R steps (fun c => c.datum?.bind readDatum) (fun a a' => a' = change a) := by
  intro shown c c' hchange a ha
  obtain ⟨d, hd, ha⟩ := Option.bind_eq_some_iff.mp ha
  obtain ⟨d', hd', hdata⟩ := hchange.datum? hRS hd
  refine ⟨if shown then change a else a, ?_, ?_⟩
  · show c'.datum?.bind readDatum = _
    rw [hd', Option.bind_some, h hdata, ha, Option.map_some]
  · cases shown <;> rfl

theorem table?_eq_readTable (read : Content → Option α)
    (members : List (Option String × Content)) :
    table? read (.object false members) = readTable id read members := by
  have hrun : ∀ t : Table α,
      foldInto? (fun t name value => (read value).map (fun v => t.insert name v)) t members
        = members.foldlM (fun t entry =>
            (readEntry id read entry).map (fun e => Table.insert e.1 e.2 t)) t := by
    induction members with
    | nil => exact fun _ => rfl
    | cons member rest ih =>
      intro t
      obtain ⟨_ | name, value⟩ := member
      · rfl
      · rw [List.foldlM_cons, readEntry_of_key id rfl, foldInto?, Option.map_map]
        exact Option.bind_congr (fun t _ => ih t)
  rw [table?, hrun, foldlM_insert_readEntry]
  rfl

/-- **Entries read around a change**: the table changes at the key, unless a
    later entry hides it. -/
theorem readTable_follows (h : Follows R steps read Q) {shown : Bool} {c c' : Content}
    (hchange : ChangedAt R steps shown c c') {name : String}
    {before after : List (Option String × Content)} {t : Table α}
    (ht : readTable id read (before ++ (some name, c) :: after) = some t) :
    ∃ t', readTable id read (before ++ (some name, c') :: after) = some t'
      ∧ Changes (fun t t' => ∃ a a', t.find? name = some a ∧ Q a a'
          ∧ t' = t.adjust name (fun _ => a')) (shown && !hides id name after) t t' := by
  obtain ⟨values, hvalues, rfl⟩ := Option.map_eq_some_iff.mp ht
  obtain ⟨_, entry, _, _, hx, _, rfl⟩ := mapM_append_cons_eq_some.mp hvalues
  rw [readEntry_of_key id rfl, Option.map_eq_some_iff] at hx
  obtain ⟨a, ha, rfl⟩ := hx
  obtain ⟨a', ha', hQ⟩ := h hchange ha
  have hread : read c' = (read c).map (fun _ => a') := by
    rw [ha, ha', Option.map_some]
  rw [readTable_change id before after rfl hread, ht, Option.map_some]
  refine ⟨_, rfl, ?_⟩
  cases hhides : hides id name after with
  | true =>
    rw [Bool.not_true, Bool.and_false]
    rfl
  | false =>
    obtain ⟨b, hb, hfound⟩ := find?_of_readTable id rfl ht hhides
    obtain rfl : a = b := Option.some.inj (ha.symm.trans hb)
    rw [Bool.not_false, Bool.and_true]
    cases shown with
    | true => exact ⟨a, a', hfound, hQ, rfl⟩
    | false =>
      have hsame : a' = a := hQ
      have hadjust : Table.adjust name (fun _ => a') _ = Table.adjust name (fun value => value) _ :=
        Table.adjust_congr hfound hsame
      exact hadjust.trans (Table.adjust_id name _)

theorem Follows.table (h : Follows R steps read Q) (name : String) :
    Follows R (.member name :: steps) (table? read)
      (fun t t' => ∃ a a', t.find? name = some a ∧ Q a a' ∧ t' = t.adjust name (fun _ => a')) := by
  intro shown c c' hchange t ht
  cases hchange with
  | @member _ _ name' shown deep before after c c' hstep hrest =>
    cases hstep
    cases deep with
    | true => cases ht
    | false =>
      rw [table?_eq_readTable] at ht ⊢
      exact readTable_follows h hrest ht
  | item _ _ hstep _ => cases hstep

theorem Follows.list (h : Follows R steps read Q) (index : Nat) :
    Follows R (.item index :: steps) (list? read)
      (fun items items' => ∃ a a', items[index]? = some a ∧ Q a a'
        ∧ items' = items.modify index (fun _ => a')) := by
  intro shown c c' hchange items hitems
  cases hchange with
  | member _ _ hstep _ => cases hstep
  | @item _ _ shown deep before after c c' hstep hrest =>
    cases hstep
    cases deep with
    | true => cases hitems
    | false =>
      replace hitems : (before ++ c :: after).mapM read = some items := hitems
      obtain ⟨valuesBefore, a, valuesAfter, hbefore, ha, _, rfl⟩ :=
        mapM_append_cons_eq_some.mp hitems
      obtain ⟨a', ha', hQ⟩ := h hrest ha
      have hread : read c' = (read c).map (fun _ => a') := by
        rw [ha, ha', Option.map_some]
      refine ⟨_, (mapM_change before after hread).trans (by rw [hitems, Option.map_some]), ?_⟩
      rw [← length_of_mapM_eq_some hbefore]
      cases shown with
      | true => exact ⟨a, a', by simp, hQ, rfl⟩
      | false =>
        obtain rfl : a' = a := hQ
        exact modify_append_cons _ _ _ _

theorem Follows.orNull (h : Follows R (step :: steps) read Q) :
    Follows R (step :: steps) (orNull? read)
      (fun o o' => ∃ a a', o = some a ∧ Q a a' ∧ o' = some a') := by
  intro shown c c' hchange o ho
  have hornull : orNull? read c = (read c).map some ∧ orNull? read c' = (read c').map some := by
    cases hchange <;> exact ⟨rfl, rfl⟩
  rw [hornull.1, Option.map_eq_some_iff] at ho
  obtain ⟨a, ha, rfl⟩ := ho
  obtain ⟨a', ha', hQ⟩ := h hchange ha
  refine ⟨some a', by rw [hornull.2, ha', Option.map_some], ?_⟩
  cases shown with
  | true => exact ⟨a, a', rfl, hQ, rfl⟩
  | false => exact congrArg some hQ

/-! ### Changes by functions -/

section Functions

variable {change : α → α} (h : Follows R steps read (fun a a' => a' = change a))
include h

theorem Follows.adjustTable (name : String) :
    Follows R (.member name :: steps) (table? read) (fun t t' => t' = t.adjust name change) := by
  refine (h.table name).mono ?_
  rintro t _ ⟨a, _, hfound, rfl, rfl⟩
  exact Table.adjust_congr hfound rfl

theorem Follows.modifyList (index : Nat) :
    Follows R (.item index :: steps) (list? read)
      (fun items items' => items' = items.modify index change) := by
  refine (h.list index).mono ?_
  rintro items _ ⟨a, _, hfound, rfl, rfl⟩
  refine List.ext_getElem? (fun i => ?_)
  rw [List.getElem?_modify, List.getElem?_modify]
  by_cases hi : index = i
  · rw [← hi, hfound]
    simp
  · simp [hi]

end Functions

/-! ### Records -/

/-- **Ownership**: a field of a record is written by its reader alone, and from
    its content alone. -/
structure Owns (fields : List (Field σ)) (name : String) (read : Content → Option α)
    (get : σ → α) (set : α → σ → σ) : Prop where
  distinct : (fields.map (·.name)).Nodup
  mem : name ∈ fields.map (·.name)
  /-- The reader of the field writes what it reads. -/
  own : ∀ f ∈ fields, f.name = name → ∀ s c, f.read s c = (read c).map (fun a => set a s)
  /-- The other readers do not touch the field. -/
  others : ∀ f ∈ fields, f.name ≠ name → ∀ a s c, f.read (set a s) c = (f.read s c).map (set a)
  get_set : ∀ a s, get (set a s) = a
  set_set : ∀ a b s, set b (set a s) = set b s

variable {fields : List (Field σ)} {name : String} {get : σ → α} {set : α → σ → σ}

/-- Once a field is seen, the members that follow leave it alone. -/
theorem Owns.namedFields (h : Owns fields name read get set) {seen : List String}
    (hseen : seen.contains name = true) (a : α) (s : σ) (members : List (Option String × Content)) :
    namedFields? fields seen (set a s) members
      = (namedFields? fields seen s members).map (set a) := by
  induction members generalizing seen s with
  | nil => rfl
  | cons member rest ih =>
    obtain ⟨_ | other, value⟩ := member
    · rfl
    · rw [namedFields?, namedFields?]
      cases hfound : fields.find? (fun field => field.name == other) with
      | none =>
        cases value.skips with
        | true => exact ih hseen s
        | false => rfl
      | some f =>
        have hname : f.name = other := by simpa using List.find?_some hfound
        show (if seen.contains other then _ else _ : Option σ) = Option.map _ (if _ then _ else _)
        cases hother : seen.contains other with
        | true => rfl
        | false =>
          have hne : f.name ≠ name := by
            rintro rfl
            rw [hname, hother] at hseen
            cases hseen
          have hcons : (other :: seen).contains name = true := by
            rw [List.contains_cons, hseen, Bool.or_true]
          show (f.read (set a s) value).bind _ = ((f.read s value).bind _).map _
          rw [h.others f (List.mem_of_find?_eq_some hfound) hne, Option.bind_map, Option.map_bind]
          exact Option.bind_congr (fun s _ => ih hcons s)

/-- What reading a member of a record by name comes to. -/
theorem namedFields?_cons_eq_some {seen : List String} {s result : σ} {other : String}
    {value : Content} {rest : List (Option String × Content)} :
    namedFields? fields seen s ((some other, value) :: rest) = some result
      ↔ (fields.find? (fun field => field.name == other) = none ∧ value.skips = true
          ∧ namedFields? fields seen s rest = some result)
        ∨ ∃ f s', fields.find? (fun field => field.name == other) = some f
          ∧ seen.contains other = false ∧ f.read s value = some s'
          ∧ namedFields? fields (other :: seen) s' rest = some result := by
  rw [namedFields?]
  cases hfound : fields.find? (fun field => field.name == other) with
  | none => cases value.skips <;> simp
  | some f => cases hseen : seen.contains other <;> simp [Option.bind_eq_some_iff]

/-- A field that is seen may not come again. -/
theorem hides_of_namedFields {seen : List String} (hmem : name ∈ fields.map (·.name))
    (hseen : seen.contains name = true) {s result : σ} {members : List (Option String × Content)}
    (h : namedFields? fields seen s members = some result) : hides id name members = false := by
  induction members generalizing seen s with
  | nil => rfl
  | cons member rest ih =>
    obtain ⟨_ | other, value⟩ := member
    · cases h
    · rcases namedFields?_cons_eq_some.mp h with ⟨hfound, _, hrest⟩ | ⟨f, s', _, hother, _, hrest⟩
      · have hne : other ≠ name := by
          rintro rfl
          obtain ⟨f, hf, hname⟩ := List.mem_map.mp hmem
          simpa [hname] using List.find?_eq_none.mp hfound f hf
        simpa [hides, hne] using ih hseen hrest
      · have hne : other ≠ name := by
          rintro rfl
          rw [hother] at hseen
          cases hseen
        have hcons : (other :: seen).contains name = true := by
          rw [List.contains_cons, hseen, Bool.or_true]
        simpa [hides, hne] using ih hcons hrest

/-- **Records by name**, read around the value of a field. -/
theorem Owns.namedFields_around (h : Owns fields name read get set) {seen : List String}
    {s result : σ} {before after : List (Option String × Content)} {c : Content}
    (hread : namedFields? fields seen s (before ++ (some name, c) :: after) = some result) :
    hides id name after = false ∧ ∃ a base, read c = some a ∧ result = set a base
      ∧ ∀ c' a', read c' = some a' →
        namedFields? fields seen s (before ++ (some name, c') :: after) = some (set a' base) := by
  induction before generalizing seen s with
  | nil =>
    rcases namedFields?_cons_eq_some.mp hread with
      ⟨hfound, _, _⟩ | ⟨f, _, hfound, hseen, hset, hrest⟩
    · obtain ⟨f, hf, hname⟩ := List.mem_map.mp h.mem
      exact absurd (List.find?_eq_none.mp hfound f hf) (by simp [hname])
    · have hown := h.own f (List.mem_of_find?_eq_some hfound)
        (by simpa using List.find?_some hfound)
      have hcons : (name :: seen).contains name = true := by simp
      rw [hown, Option.map_eq_some_iff] at hset
      obtain ⟨a, ha, rfl⟩ := hset
      refine ⟨hides_of_namedFields h.mem hcons hrest, ?_⟩
      rw [h.namedFields hcons, Option.map_eq_some_iff] at hrest
      obtain ⟨base, hbase, rfl⟩ := hrest
      refine ⟨a, base, ha, rfl, fun c' a' ha' => namedFields?_cons_eq_some.mpr (.inr ?_)⟩
      refine ⟨f, set a' s, hfound, hseen, by rw [hown, ha', Option.map_some], ?_⟩
      rw [h.namedFields hcons, hbase, Option.map_some]
  | cons member rest ih =>
    obtain ⟨_ | other, value⟩ := member
    · cases hread
    · rw [List.cons_append] at hread
      rcases namedFields?_cons_eq_some.mp hread with
        ⟨hfound, hskips, hrest⟩ | ⟨f, s', hfound, hseen, hs', hrest⟩
      · obtain ⟨hhides, a, base, ha, hresult, hother⟩ := ih hrest
        exact ⟨hhides, a, base, ha, hresult, fun c' a' ha' =>
          namedFields?_cons_eq_some.mpr (.inl ⟨hfound, hskips, hother c' a' ha'⟩)⟩
      · obtain ⟨hhides, a, base, ha, hresult, hother⟩ := ih hrest
        exact ⟨hhides, a, base, ha, hresult, fun c' a' ha' =>
          namedFields?_cons_eq_some.mpr (.inr ⟨f, s', hfound, hseen, hs', hother c' a' ha'⟩)⟩

/-- Readers that do not touch a field leave it alone in a list too. -/
theorem orderedFields_of_others (fields : List (Field σ)) (set : α → σ → σ)
    (hothers : ∀ f ∈ fields, ∀ a s c,
      f.read (set a s) c = (f.read s c).map (set a)) (a : α) (s : σ) (items : List Content) :
    orderedFields? (set a s) fields items = (orderedFields? s fields items).map (set a) := by
  induction fields generalizing s items with
  | nil => cases items <;> rfl
  | cons f rest ih =>
    cases items with
    | nil =>
      rw [orderedFields?, orderedFields?]
      cases (f :: rest).all (·.hasDefault) <;> rfl
    | cons item items =>
      show (f.read (set a s) item).bind _ = ((f.read s item).bind _).map _
      rw [hothers f List.mem_cons_self, Option.bind_map, Option.map_bind]
      exact Option.bind_congr
        (fun s _ => ih (fun g hg => hothers g (List.mem_cons_of_mem _ hg)) s items)

/-- **Records by order**, read around the value of a field. -/
theorem Owns.orderedFields_around (h : Owns fields name read get set) {s result : σ}
    {before after : List Content} {c : Content}
    (hindex : (fields.map (·.name)).idxOf name = before.length)
    (hread : orderedFields? s fields (before ++ c :: after) = some result) :
    ∃ a base, read c = some a ∧ result = set a base
      ∧ ∀ c' a', read c' = some a' →
        orderedFields? s fields (before ++ c' :: after) = some (set a' base) := by
  induction fields generalizing s before with
  | nil => exact absurd h.mem (by simp)
  | cons f rest ih =>
    obtain ⟨hnotin, hdistinct⟩ := List.nodup_cons.mp h.distinct
    have hothers : ∀ g ∈ rest, g.name ≠ f.name := fun g hg hname =>
      hnotin (List.mem_map.mpr ⟨g, hg, hname⟩)
    by_cases hname : f.name = name
    · rw [List.map_cons, hname, List.idxOf_cons_self] at hindex
      obtain rfl := List.length_eq_zero_iff.mp hindex.symm
      obtain ⟨_, hset, hrest⟩ := Option.bind_eq_some_iff.mp hread
      have hown := h.own f List.mem_cons_self hname
      have hkeep := orderedFields_of_others rest set fun g hg =>
        h.others g (List.mem_cons_of_mem _ hg) (hname ▸ hothers g hg)
      rw [hown, Option.map_eq_some_iff] at hset
      obtain ⟨a, ha, rfl⟩ := hset
      rw [hkeep, Option.map_eq_some_iff] at hrest
      obtain ⟨base, hbase, rfl⟩ := hrest
      refine ⟨a, base, ha, rfl, fun c' a' ha' => ?_⟩
      show (f.read s c').bind _ = _
      rw [hown, ha', Option.map_some, Option.bind_some, hkeep, hbase, Option.map_some]
    · have hrest : Owns rest name read get set :=
        { distinct := hdistinct
          mem := (List.mem_cons.mp h.mem).resolve_left (Ne.symm hname)
          own := fun g hg => h.own g (List.mem_cons_of_mem _ hg)
          others := fun g hg => h.others g (List.mem_cons_of_mem _ hg)
          get_set := h.get_set
          set_set := h.set_set }
      rw [List.map_cons, List.idxOf_cons_ne _ hname] at hindex
      cases before with
      | nil => cases hindex
      | cons item before =>
        obtain ⟨s', hs', hread⟩ := Option.bind_eq_some_iff.mp hread
        obtain ⟨a, base, ha, hresult, hother⟩ := ih hrest (Nat.succ.inj hindex) hread
        refine ⟨a, base, ha, hresult, fun c' a' ha' => ?_⟩
        show (f.read s item).bind _ = _
        rw [hs', Option.bind_some]
        exact hother c' a' ha'

/-- **A record follows in a field** that only its own reader writes. -/
theorem Follows.record (fields : List (Field σ)) (get : σ → α) (set : α → σ → σ)
    (hfollows : Follows R steps read Q) {names : List String}
    (hnames : fields.map (·.name) = names) (h : Owns fields name read get set) (initial : σ) :
    Follows R (.field names name :: steps) (record? fields initial)
      (fun s s' => ∃ a', Q (get s) a' ∧ s' = set a' s) := by
  subst hnames
  have hchanged : ∀ {shown : Bool} {a a' : α} {base : σ}, Changes Q shown a a' →
      Changes (fun s s' => ∃ a', Q (get s) a' ∧ s' = set a' s) shown (set a base)
        (set a' base) := by
    intro shown a a' base hQ
    cases shown with
    | true => exact ⟨a', by rwa [h.get_set], (h.set_set a a' base).symm⟩
    | false => exact congrArg (fun a => set a base) hQ
  intro shown c c' hchange result hread
  cases hchange with
  | @member _ _ _ shown deep before after c c' hstep hrest =>
    cases hstep
    cases deep with
    | true => cases hread
    | false =>
      obtain ⟨hhides, a, base, ha, rfl, hother⟩ := h.namedFields_around hread
      obtain ⟨a', ha', hQ⟩ := hfollows hrest ha
      refine ⟨_, hother c' a' ha', ?_⟩
      rw [hhides, Bool.not_false, Bool.and_true]
      exact hchanged hQ
  | @item _ _ shown deep before after c c' hstep hrest =>
    rw [Step.index?, if_pos h.mem, Option.some.injEq] at hstep
    cases deep with
    | true => cases hread
    | false =>
      obtain ⟨a, base, ha, rfl, hother⟩ := h.orderedFields_around hstep hread
      obtain ⟨a', ha', hQ⟩ := hfollows hrest ha
      exact ⟨_, hother c' a' ha', hchanged hQ⟩

end Json.Content

/-! ### Path items -/

/-- Reads an entry of a path item, from data that is read first. -/
def PathEntry.ofContent? (c : Content) : Option PathEntry :=
  c.datum?.bind PathEntry.ofDatum?

namespace PathItem

/-- Whether a member gives the parameters of a path item. -/
def isParameters (member : Option String × Content) : Bool :=
  member.1 == some "parameters"

/-- The parameters of a path item, which may be given once. -/
def parametersOf? : List (Option String × Content) → Option (List ParameterEntry)
  | [] => some []
  | [(_, c)] => c.list? ParameterEntry.ofContent?
  | _ => none

/-- The other members of a path item, read as a table. -/
def entriesOf? (members : List (Option String × Content)) : Option (Table PathEntry) :=
  readTable id PathEntry.ofContent? (members.filter (!isParameters ·))

/-- The parameters of a draft after further members that give some. -/
def Draft.parametersAfter? : Option (List ParameterEntry) → List (Option String × Content) →
    Option (Option (List ParameterEntry))
  | parameters, [] => some parameters
  | some _, _ :: _ => none
  | none, (_, c) :: rest =>
    (c.list? ParameterEntry.ofContent?).bind
      (fun parameters => parametersAfter? (some parameters) rest)

/-- **Drafts** gather the parameters and the other members apart from each other. -/
theorem Draft.foldInto_addContent (draft : Draft) (members : List (Option String × Content)) :
    Content.foldInto? addContent? draft members
      = (parametersAfter? draft.parameters (members.filter isParameters)).bind (fun parameters =>
          ((members.filter (!isParameters ·)).mapM (readEntry id Content.datum?)).map (fun others =>
            { parameters, others := others.reverse ++ draft.others })) := by
  induction members generalizing draft with
  | nil => rfl
  | cons member rest ih =>
    obtain ⟨_ | name, value⟩ := member
    · have hother : isParameters (none, value) = false := rfl
      rw [List.filter_cons_of_neg (by simp [hother]), List.filter_cons_of_pos (by simp [hother]),
        List.mapM_cons]
      cases parametersAfter? draft.parameters (rest.filter isParameters) <;> rfl
    · rw [Content.foldInto?, addContent?]
      by_cases hname : name = "parameters"
      · subst hname
        have howns : isParameters (some "parameters", value) = true := rfl
        rw [if_pos rfl, List.filter_cons_of_pos howns, List.filter_cons_of_neg (by simp [howns])]
        cases hparameters : draft.parameters with
        | some _ => rfl
        | none =>
          show (Option.map _ _).bind _ = _
          rw [Option.bind_map, parametersAfter?, Option.bind_assoc]
          exact Option.bind_congr (fun parameters _ => ih _)
      · have hother : isParameters (some name, value) = false := by simp [isParameters, hname]
        rw [if_neg hname, List.filter_cons_of_neg (by simp [hother]),
          List.filter_cons_of_pos (by simp [hother]), List.mapM_cons,
          readEntry_of_key id rfl]
        cases value.datum? with
        | none => cases parametersAfter? draft.parameters (rest.filter isParameters) <;> rfl
        | some datum =>
          show Content.foldInto? addContent? _ rest = _
          rw [ih]
          refine Option.bind_congr (fun parameters _ => ?_)
          cases (rest.filter (!isParameters ·)).mapM (readEntry id Content.datum?) with
          | none => rfl
          | some others => simp

/-- Entries that are read as data first. -/
theorem readTable_ofDatum {α : Type} (readDatum : Datum → Option α)
    (members : List (Option String × Content)) :
    (members.mapM (readEntry id Content.datum?)).bind (readTable some readDatum)
      = readTable id (fun c => c.datum?.bind readDatum) members := by
  have hvalues : (members.mapM (readEntry id Content.datum?)).bind
      (fun others => others.mapM (readEntry some readDatum))
        = members.mapM (readEntry id (fun c => c.datum?.bind readDatum)) := by
    induction members with
    | nil => rfl
    | cons member rest ih =>
      obtain ⟨_ | name, value⟩ := member
      · rfl
      · rw [List.mapM_cons, List.mapM_cons, ← ih, readEntry_of_key id rfl,
          readEntry_of_key id rfl]
        cases value.datum? with
        | none => rfl
        | some datum =>
          cases hread : readDatum datum <;> cases rest.mapM (readEntry id Content.datum?) <;>
            simp [List.mapM_cons, readEntry, hread]
  rw [readTable, ← hvalues, Option.map_bind]
  rfl

/-- The entries of a draft are those of its other members. -/
theorem Draft.finish?_eq (draft : Draft) :
    draft.finish? = (readTable some PathEntry.ofDatum? draft.others.reverse).map
      (fun entries => { parameters := draft.parameters.getD [], entries }) := by
  have hstep : ∀ (t : Table PathEntry) (entry : String × Datum),
      (do let value ← PathEntry.ofDatum? entry.2
          return Table.insert entry.1 value t)
        = (readEntry some PathEntry.ofDatum? entry).map (fun e => Table.insert e.1 e.2 t) := by
    intro t entry
    rw [readEntry_of_key some rfl]
    cases PathEntry.ofDatum? entry.2 <;> rfl
  rw [Draft.finish?, funext fun t => funext fun entry => hstep t entry, foldlM_insert_readEntry,
    readTable]
  cases draft.others.reverse.mapM (readEntry some PathEntry.ofDatum?) <;> rfl

theorem parametersOf?_eq (members : List (Option String × Content)) :
    parametersOf? members = (Draft.parametersAfter? none members).map (·.getD []) := by
  match members with
  | [] => rfl
  | [(_, c)] =>
    rw [parametersOf?, Draft.parametersAfter?]
    cases c.list? ParameterEntry.ofContent? <;> rfl
  | (_, c) :: _ :: _ =>
    show none = _
    rw [Draft.parametersAfter?]
    cases c.list? ParameterEntry.ofContent? <;> rfl

/-- **Path items** are read from their parameters and their other members. -/
theorem ofContent?_object (members : List (Option String × Content)) :
    PathItem.ofContent? (.object false members)
      = (parametersOf? (members.filter isParameters)).bind (fun parameters =>
          (entriesOf? members).map (fun entries => { parameters, entries })) := by
  show (Content.foldInto? Draft.addContent? {} members).bind Draft.finish? = _
  rw [Draft.foldInto_addContent, parametersOf?_eq, Option.bind_map, Option.bind_assoc]
  refine Option.bind_congr (fun parameters _ => ?_)
  have hentries : entriesOf? members
      = ((members.filter (!isParameters ·)).mapM (readEntry id Content.datum?)).bind
          (readTable some PathEntry.ofDatum?) :=
    (readTable_ofDatum PathEntry.ofDatum? _).symm
  rw [Function.comp_apply, hentries, Option.bind_map, Option.map_bind]
  refine Option.bind_congr (fun others _ => ?_)
  rw [Function.comp_apply, Draft.finish?_eq]
  simp

theorem isParameters_of_ne {key : String} (hkey : key ≠ "parameters") (c : Content) :
    isParameters (some key, c) = false := by
  simp [isParameters, hkey]

/-- The members that give parameters hide no other key. -/
theorem hides_filter_isParameters {key : String} (hkey : key ≠ "parameters")
    (members : List (Option String × Content)) :
    hides id key (members.filter (!isParameters ·)) = hides id key members := by
  rw [hides, List.any_filter, hides]
  congr 1
  funext member
  obtain ⟨_ | name, c⟩ := member
  · rfl
  · by_cases hname : name = key
    · simp [isParameters, hname, hkey]
    · simp [hname]

variable {R : Content → Content → Prop} {steps : List Step}

/-- A path item follows in an entry. -/
theorem follows_entry {Q : PathEntry → PathEntry → Prop}
    (h : Content.Follows R steps PathEntry.ofContent? Q) {key : String}
    (hkey : key ≠ "parameters") :
    Content.Follows R (.member key :: steps) PathItem.ofContent?
      (fun item item' => ∃ e e', item.entries.find? key = some e ∧ Q e e'
        ∧ item' = { item with entries := item.entries.adjust key (fun _ => e') }) := by
  intro shown c c' hchange item hitem
  cases hchange with
  | @member _ _ name shown deep before after c c' hstep hrest =>
    cases hstep
    cases deep with
    | true => cases hitem
    | false =>
      have hother := isParameters_of_ne hkey
      have hfilter : ∀ c, (before ++ (some key, c) :: after).filter (!isParameters ·)
          = before.filter (!isParameters ·) ++ (some key, c) :: after.filter (!isParameters ·) := by
        intro c
        rw [List.filter_append, List.filter_cons_of_pos (by simp [hother])]
      have howns : ∀ c, (before ++ (some key, c) :: after).filter isParameters
          = before.filter isParameters ++ after.filter isParameters := by
        intro c
        rw [List.filter_append, List.filter_cons_of_neg (by simp [hother])]
      rw [ofContent?_object, howns, entriesOf?, hfilter] at hitem ⊢
      obtain ⟨parameters, hparameters, hitem⟩ := Option.bind_eq_some_iff.mp hitem
      obtain ⟨entries, hentries, rfl⟩ := Option.map_eq_some_iff.mp hitem
      obtain ⟨entries', hentries', hQ⟩ := Content.readTable_follows h hrest hentries
      refine ⟨{ parameters, entries := entries' }, ?_, ?_⟩
      · rw [hparameters, Option.bind_some, hentries', Option.map_some]
      · rw [hides_filter_isParameters hkey] at hQ
        cases hshown : shown && !hides id key after with
        | true =>
          rw [hshown] at hQ
          obtain ⟨e, e', hfound, hQ, rfl⟩ := hQ
          exact ⟨e, e', hfound, hQ, rfl⟩
        | false =>
          rw [hshown] at hQ
          exact congrArg (fun entries => { parameters, entries : PathItem }) hQ
  | item _ _ hstep _ => cases hstep

/-- A path item follows in its parameters. -/
theorem follows_parameters {Q : List ParameterEntry → List ParameterEntry → Prop}
    (h : Content.Follows R steps (Content.list? ParameterEntry.ofContent?) Q) :
    Content.Follows R (.member "parameters" :: steps) PathItem.ofContent?
      (fun item item' => ∃ parameters, Q item.parameters parameters
        ∧ item' = { item with parameters }) := by
  intro shown c c' hchange item hitem
  cases hchange with
  | @member _ _ name shown deep before after c c' hstep hrest =>
    cases hstep
    cases deep with
    | true => cases hitem
    | false =>
      have hown : ∀ c, isParameters (some "parameters", c) = true := fun _ => rfl
      have hothers : ∀ c, entriesOf? (before ++ (some "parameters", c) :: after)
          = entriesOf? (before ++ after) := by
        intro c
        rw [entriesOf?, entriesOf?, List.filter_append, List.filter_append,
          List.filter_cons_of_neg (by simp [hown])]
      rw [ofContent?_object, hothers, List.filter_append, List.filter_cons_of_pos (hown _)]
        at hitem ⊢
      obtain ⟨parameters, hparameters, hitem⟩ := Option.bind_eq_some_iff.mp hitem
      obtain ⟨entries, hentries, rfl⟩ := Option.map_eq_some_iff.mp hitem
      -- The parameters are given here, so neither before nor after.
      obtain ⟨hbefore, hafter⟩ :
          before.filter isParameters = [] ∧ after.filter isParameters = [] := by
        rcases hb : before.filter isParameters with _ | ⟨_, _ | _⟩ <;>
          rcases ha : after.filter isParameters with _ | ⟨_, _⟩ <;>
            simp_all [parametersOf?]
      have hhides : hides id "parameters" after = false := by
        rw [hides, List.any_eq_false]
        intro member hmem hname
        exact List.filter_eq_nil_iff.mp hafter member hmem hname
      rw [hbefore, hafter] at hparameters ⊢
      obtain ⟨parameters', hparameters', hQ⟩ := h hrest hparameters
      refine ⟨{ parameters := parameters', entries }, ?_, ?_⟩
      · rw [hentries]
        show (Content.list? ParameterEntry.ofContent? _).bind _ = _
        rw [hparameters']
        rfl
      · rw [hhides, Bool.not_false, Bool.and_true]
        cases shown with
        | true => exact ⟨parameters', hQ, rfl⟩
        | false => exact congrArg (fun parameters => { parameters, entries : PathItem }) hQ
  | item _ _ hstep _ => cases hstep

end PathItem

/-! ### Fields of documents -/

namespace Operation

/-- The names of the fields of an operation. -/
def fieldNames : List String :=
  ["operationId", "summary", "description", "parameters", "requestBody", "responses", "deprecated"]

/-- The operation of given fields. -/
def ofFields? (f : Datum.Fields) : Option Operation := do
  let operationId ← f.optional "operationId" Datum.text?
  let summary ← f.optional "summary" Datum.text?
  let description ← f.optional "description" Datum.text?
  let parameters ← f.defaulted "parameters" [] (Datum.list? ParameterEntry.ofDatum?)
  let requestBody ← f.optional "requestBody" RequestBody.ofDatum?
  let responses ← f.defaulted "responses" [] (Datum.table? Response.ofDatum?)
  let deprecated ← f.optional "deprecated" Datum.bool?
  return { operationId, summary, description, parameters, requestBody, responses, deprecated }

theorem ofDatum?_eq (d : Datum) : Operation.ofDatum? d = (d.fields? fieldNames).bind ofFields? :=
  rfl

/-- Responses that cannot be read leave nothing of an operation. -/
theorem ofFields?_eq_none {f : Datum.Fields} {responses : Datum}
    (hfound : f.given.find? "responses" = some responses)
    (hread : Datum.table? Response.ofDatum? responses = none) : ofFields? f = none := by
  have hfield : f.defaulted "responses" [] (Datum.table? Response.ofDatum?) = none := by
    rw [Datum.Fields.defaulted, hfound]
    exact hread
  rw [Option.eq_none_iff_forall_ne_some]
  intro o ho
  simp only [ofFields?, hfield, Option.bind_eq_bind, Option.bind_none,
    Option.bind_eq_some_iff] at ho
  obtain ⟨_, _, _, _, _, _, _, _, _, _, hnone⟩ := ho
  cases hnone

end Operation

/-- The names of the fields of the shared parts of a document. -/
def Components.fieldNames : List String :=
  ["schemas", "parameters"]

/-- The names of the fields of a document. -/
def Document.fieldNames : List String :=
  ["openapi", "swagger", "info", "paths", "components", "definitions", "parameters"]

section Fields

variable {R : Content → Content → Prop} {steps : List Step}

theorem Components.follows_schemas {Q : Table Schema → Table Schema → Prop}
    (h : Content.Follows R steps (Content.table? Schema.ofContent?) Q) :
    Content.Follows R (.field fieldNames "schemas" :: steps) Components.ofContent?
      (fun k k' => ∃ schemas, Q k.schemas schemas ∧ k' = { k with schemas }) := by
  refine Content.Follows.record Components.fields Components.schemas
    (fun schemas k => { k with schemas }) h rfl ?_ {}
  exact ⟨by decide, by decide, by simp [fields], by simp [fields, Function.comp_def],
    fun _ _ => rfl, fun _ _ _ => rfl⟩

theorem Components.follows_parameters {Q : Table ParameterEntry → Table ParameterEntry → Prop}
    (h : Content.Follows R steps (Content.table? ParameterEntry.ofContent?) Q) :
    Content.Follows R (.field fieldNames "parameters" :: steps) Components.ofContent?
      (fun k k' => ∃ parameters, Q k.parameters parameters ∧ k' = { k with parameters }) := by
  refine Content.Follows.record Components.fields Components.parameters
    (fun parameters k => { k with parameters }) h rfl ?_ {}
  exact ⟨by decide, by decide, by simp [fields], by simp [fields, Function.comp_def],
    fun _ _ => rfl, fun _ _ _ => rfl⟩

theorem Document.follows_paths {Q : Table PathItem → Table PathItem → Prop}
    (h : Content.Follows R steps (Content.table? PathItem.ofContent?) Q) :
    Content.Follows R (.field fieldNames "paths" :: steps) Document.ofContent?
      (fun d d' => ∃ paths, Q d.paths paths ∧ d' = { d with paths }) := by
  refine Content.Follows.record Document.fields Document.paths (fun paths d => { d with paths })
    h rfl ?_ {}
  exact ⟨by decide, by decide, by simp [fields], by simp [fields, Function.comp_def],
    fun _ _ => rfl, fun _ _ _ => rfl⟩

theorem Document.follows_components {Q : Option Components → Option Components → Prop}
    (h : Content.Follows R steps (Content.orNull? Components.ofContent?) Q) :
    Content.Follows R (.field fieldNames "components" :: steps) Document.ofContent?
      (fun d d' => ∃ components, Q d.components components ∧ d' = { d with components }) := by
  refine Content.Follows.record Document.fields Document.components
    (fun components d => { d with components }) h rfl ?_ {}
  exact ⟨by decide, by decide, by simp [fields], by simp [fields, Function.comp_def],
    fun _ _ => rfl, fun _ _ _ => rfl⟩

theorem Document.follows_definitions {Q : Table Schema → Table Schema → Prop}
    (h : Content.Follows R steps (Content.table? Schema.ofContent?) Q) :
    Content.Follows R (.field fieldNames "definitions" :: steps) Document.ofContent?
      (fun d d' => ∃ definitions, Q d.definitions definitions ∧ d' = { d with definitions }) := by
  refine Content.Follows.record Document.fields Document.definitions
    (fun definitions d => { d with definitions }) h rfl ?_ {}
  exact ⟨by decide, by decide, by simp [fields], by simp [fields, Function.comp_def],
    fun _ _ => rfl, fun _ _ _ => rfl⟩

theorem Document.follows_parameters {Q : Table ParameterEntry → Table ParameterEntry → Prop}
    (h : Content.Follows R steps (Content.table? ParameterEntry.ofContent?) Q) :
    Content.Follows R (.field fieldNames "parameters" :: steps) Document.ofContent?
      (fun d d' => ∃ parameters, Q d.parameters parameters ∧ d' = { d with parameters }) := by
  refine Content.Follows.record Document.fields Document.parameters
    (fun parameters d => { d with parameters }) h rfl ?_ {}
  exact ⟨by decide, by decide, by simp [fields], by simp [fields, Function.comp_def],
    fun _ _ => rfl, fun _ _ _ => rfl⟩

end Fields

end TypedClient
