import TypedClient.Proofs.FunctionNames

/-! # The order of a document

    A client has what its document has, in the order of the document.

    * **Declarations** stand for the named schemas: those of the newer dialect in
      their order, then those of the older one whose names are not among them.
    * **Functions** stand for the entries of the path items under the key of a method,
      path by path and entry by entry. Letters of a key may have either case, and an
      entry that is no operation stands for one without content.
-/

namespace TypedClient

/-! ### Keys of methods -/

/-- A small letter is what making a character small gives exactly if the character is
    that letter in either case. -/
theorem toLower_eq_iff {c letter : Char} (h : letter.isLower = true) :
    c.toLower = letter ↔ c = letter ∨ c = letter.toUpper := by
  constructor
  · rintro rfl
    by_cases hc : c.isUpper = true
    · right
      rw [toUpper_toLower, toUpper_of_isUpper hc]
    · left
      exact (toLower_of_isUpper_eq_false (Bool.eq_false_iff.2 hc)).symm
  · rintro (rfl | rfl)
    · exact toLower_of_isLower h
    · rw [toLower_toUpper, toLower_of_isLower h]

theorem map_toLower_eq_iff {s word : List Char} (h : ∀ c ∈ word, c.isLower = true) :
    s.map Char.toLower = word
      ↔ List.Forall₂ (fun c letter => c = letter ∨ c = letter.toUpper) s word := by
  induction word generalizing s with
  | nil => simp
  | cons letter rest ih =>
    obtain ⟨hletter, hrest⟩ := List.forall_mem_cons.1 h
    cases s with
    | nil => simp
    | cons c r =>
      rw [List.map_cons, List.cons.injEq, toLower_eq_iff hletter, ih hrest, List.forall₂_cons]

namespace Method

/-- **The keys of a method**: its name, each letter of it small or capital. -/
def Names (m : Method) (key : String) : Prop :=
  List.Forall₂ (fun c letter => c = letter ∨ c = letter.toUpper) key.toList m.lower.toList

theorem lower_injective {m m' : Method} (h : m.lower.toList = m'.lower.toList) : m = m' := by
  cases m <;> cases m' <;> first | rfl | exact absurd h (by decide)

theorem names_iff {m : Method} {key : String} :
    m.Names key ↔ m.lower.toList = key.toList.map Char.toLower := by
  have hsmall : ∀ c ∈ m.lower.toList, c.isLower = true := by
    cases m <;> decide
  rw [Names, ← map_toLower_eq_iff hsmall, eq_comm]

/-- The method of a key is the one that has it among its keys. -/
theorem ofKey?_eq_some_iff {m : Method} {key : String} : ofKey? key = some m ↔ m.Names key := by
  rw [names_iff]
  constructor
  · intro h
    unfold ofKey? at h
    have hsame := List.find?_some h
    exact of_decide_eq_true hsame
  · intro h
    have hall : m ∈ [get, post, put, delete, patch] := by
      cases m <;> decide
    cases hfound : ofKey? key with
    | none =>
      have hnot := List.find?_eq_none.1 hfound m hall
      exact absurd (decide_eq_true h) hnot
    | some m' =>
      unfold ofKey? at hfound
      have hsame := List.find?_some hfound
      rw [lower_injective ((of_decide_eq_true hsame).trans h.symm)]

end Method

/-! ### Entries -/

/-- An entry of a path item, where it stands in a document. -/
structure PlacedEntry where
  path : String
  item : PathItem
  key : String
  entry : PathEntry

/-- Whether an entry stands under a key of a method. -/
def PlacedEntry.IsSupported (placed : PlacedEntry) : Prop :=
  ∃ m : Method, m.Names placed.key

theorem PlacedEntry.isSupported_iff {placed : PlacedEntry} :
    placed.IsSupported ↔ (Method.ofKey? placed.key).isSome = true := by
  rw [Option.isSome_iff_exists]
  exact exists_congr fun m => Method.ofKey?_eq_some_iff.symm

instance (placed : PlacedEntry) : Decidable placed.IsSupported :=
  decidable_of_iff _ PlacedEntry.isSupported_iff.symm

namespace Document

/-- All entries of the path items of a document, in reading order. -/
def placedEntries (d : Document) : List PlacedEntry :=
  d.paths.flatMap (fun path =>
    path.2.entries.map (fun entry => ⟨path.1, path.2, entry.1, entry.2⟩))

/-- The parameters of an entry, those shared by its path item included. -/
def declaredFor (d : Document) (placed : PlacedEntry) : List Parameter :=
  mergeParameters (d.sharedParameters.resolveAll placed.item.parameters).value
    (d.sharedParameters.resolveAll placed.entry.content.parameters).value

end Document

/-- **The function of an entry**: that of the operation which the entry counts as, with
    the path and the method that it stands under. -/
structure Endpoint.StandsFor (e : Endpoint) (d : Document) (placed : PlacedEntry) : Prop where
  path : e.path = placed.path
  method : e.method.Names placed.key
  built : e = (placed.entry.content.endpoint e.name e.method e.path (d.declaredFor placed)
    d.allDefinitions).value

namespace Document

variable (d : Document) (source : String)

/-- The site of an entry, if it has one. -/
def site? (placed : PlacedEntry) : Option OperationSite :=
  (Method.ofKey? placed.key).map (fun method =>
    ⟨placed.path, method, placed.entry.content, d.declaredFor placed⟩)

theorem sites_eq_filterMap : d.sites = d.placedEntries.filterMap d.site? := by
  rw [sites, placedEntries, List.filterMap_flatMap]
  apply List.flatMap_congr
  intro path _
  rw [PathItem.sites_eq, List.filterMap_map]
  rfl

/-- **The step and the run** over entries: each one under the key of a method is given
    the next name, and all others are passed over. -/
theorem standsFor_of_names (entries : List PlacedEntry) (names : List String)
    (h : names.length = (entries.filterMap d.site?).length) :
    List.Forall₂ (fun placed (e : Endpoint) => e.StandsFor d placed)
      (entries.filter (fun placed => placed.IsSupported))
      (List.zipWith (fun site name => site.endpoint d.allDefinitions name)
        (entries.filterMap d.site?) names) := by
  induction entries generalizing names with
  | nil => exact .nil
  | cons placed rest ih =>
    cases hmethod : Method.ofKey? placed.key with
    | none =>
      have hsite : d.site? placed = none := by rw [site?, hmethod]; rfl
      have hnot : ¬ placed.IsSupported := by simp [PlacedEntry.isSupported_iff, hmethod]
      rw [List.filterMap_cons_none hsite] at h ⊢
      rw [List.filter_cons_of_neg (by simpa using hnot)]
      exact ih names h
    | some method =>
      have hsite : d.site? placed
          = some ⟨placed.path, method, placed.entry.content, d.declaredFor placed⟩ := by
        rw [site?, hmethod]; rfl
      have hsupported : placed.IsSupported := by simp [PlacedEntry.isSupported_iff, hmethod]
      rw [List.filterMap_cons_some hsite] at h ⊢
      rw [List.filter_cons_of_pos (by simpa using hsupported)]
      cases names with
      | nil => cases h
      | cons name names =>
        refine .cons ⟨rfl, Method.ofKey?_eq_some_iff.1 hmethod, rfl⟩ (ih names ?_)
        exact Nat.succ.inj h

/-- The named schemas of the newer dialect. -/
def newerSchemas (d : Document) : Table Schema :=
  (d.components.map (·.schemas)).getD []

/-- **In order**: the declarations of a client are those of the named schemas of the
    newer dialect, and behind them those of the older one under other names. Its
    functions are those of the entries under the key of a method, one for each, and in
    the order in which they stand in the document. -/
theorem client_in_order (hkeys : d.definitions.keys.Nodup) :
    (d.client source).value.declarations
        = (d.newerSchemas
            ++ d.definitions.filter (fun entry => entry.1 ∉ d.newerSchemas.keys)).map
          (fun entry => entry.2.declaration entry.1)
      ∧ (d.client source).value.declarations.map (·.name.given)
        = d.newerSchemas.keys ++ d.definitions.keys.filter (fun key => key ∉ d.newerSchemas.keys)
      ∧ List.Forall₂ (fun placed (e : Endpoint) => e.StandsFor d placed)
          (d.placedEntries.filter (fun placed => placed.IsSupported))
          (d.client source).value.endpoints := by
  have hdeclarations : (d.client source).value.declarations
      = (d.newerSchemas
          ++ d.definitions.filter (fun entry => entry.1 ∉ d.newerSchemas.keys)).map
        (fun entry => entry.2.declaration entry.1) := by
    rw [declarations_client, Definitions.declarations, allDefinitions, Table.addNew_eq _ hkeys]
    rfl
  refine ⟨hdeclarations, ?_, ?_⟩
  · rw [hdeclarations, List.map_map, List.map_append]
    congr 1
    show _ = (d.definitions.map (·.1)).filter (fun key => key ∉ d.newerSchemas.keys)
    rw [List.filter_map]
    rfl
  · have hlength : d.functionNames.length = (d.placedEntries.filterMap d.site?).length := by
      rw [length_functionNames, sites_eq_filterMap]
    rw [endpoints_client, sites_eq_filterMap]
    exact d.standsFor_of_names d.placedEntries d.functionNames hlength

/-- Both dialects name a schema `Shared`. Of the entries, two stand under keys of a
    method, and one of these is no operation. -/
def orderSample : Document where
  paths := [("/pets",
    { entries := [("summary", .other .null), ("Post", .other .null), ("head", .operation {}),
        ("get", .operation {})] })]
  definitions := [("Shared", {}), ("Owner", {})]
  components := some { schemas := [("Pet", {}), ("Shared", { description := some "new" })] }

theorem client_in_order_sample :
    orderSample.definitions.keys.Nodup
      ∧ (orderSample.client "").value.declarations.map (·.name.given) = ["Pet", "Shared", "Owner"]
      ∧ List.Forall₂ (fun placed (e : Endpoint) => e.StandsFor orderSample placed)
          (orderSample.placedEntries.filter (fun placed => placed.IsSupported))
          (orderSample.client "").value.endpoints
      ∧ (orderSample.placedEntries.filter (fun placed => placed.IsSupported)).map (·.key)
          = ["Post", "get"] := by
  have hkeys : orderSample.definitions.keys.Nodup := by decide +kernel
  obtain ⟨-, hnames, hfunctions⟩ := orderSample.client_in_order "" hkeys
  refine ⟨hkeys, ?_, hfunctions, ?_⟩
  · rw [hnames]
    decide +kernel
  · decide +kernel

end Document

end TypedClient
