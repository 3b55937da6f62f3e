import TypedClient.Package.Query
import TypedClient.Proofs.ArgumentLists
import TypedClient.Proofs.MergedBranches
import TypedClient.Proofs.ReferenceChains

/-! # Flags of lists

    An argument has a type, and a flag that says whether its key is repeated for each
    item of a list. Neither is made from the other.

    * **Fit**: a parameter without brackets in its name has the flag exactly if its
      type is one of lists, or the name of a definition that is one.
    * **Brackets** in a name give the flag, whatever the type is.
    * **Torn** schemas are left out: where `oneOf`, `anyOf` or `allOf` give the type,
      the flag does not see it.
    * **Code** for the query asks for the items of what has the flag only.
-/

namespace TypedClient

/-! ### Lists -/

namespace Schema

variable {definitions : Definitions} {s : Schema} {reference : String}

/-- A reference that ends at a **list**: at a schema whose kind is that of lists. -/
def EndsAtList (definitions : Definitions) (reference : String) : Prop :=
  ∃ n t, Chain (RefersTo definitions) n (ofReference reference) t ∧ t.reference = none
    ∧ t.primary? = some .array

/-- A reference that may **name** the type of a schema: its own, or the only one of the
    branches of its `allOf`. -/
def NamedBy (s : Schema) (reference : String) : Prop :=
  s.reference = some reference
    ∨ (s.reference = none ∧ s.allOf.filterMap (·.reference) = [reference])

/-- Whether the type of a schema is the name of a list. -/
def NamesList (definitions : Definitions) (s : Schema) : Prop :=
  ∃ reference, s.NamedBy reference ∧ s.resolve = refType reference
    ∧ EndsAtList definitions reference

/-- A schema is **list-valued** if its type is one of lists, or the name of a list. -/
def ListValued (definitions : Definitions) (s : Schema) : Prop :=
  (∃ item, s.resolve = .array item) ∨ s.NamesList definitions

/-- Whether `oneOf`, `anyOf` or `allOf` give a schema its type. -/
def Composed (s : Schema) : Prop :=
  s.reference = none
    ∧ (s.oneOf ≠ [] ∨ s.anyOf ≠ [] ∨ ∃ branch ∈ s.allOf, branch.Contributes)

/-- A composed schema is **torn** if it has the kind of lists but not the name of one as
    its type, or the other way round. -/
def Torn (definitions : Definitions) (s : Schema) : Prop :=
  s.Composed ∧ ¬ (s.primary? = some .array ↔ s.NamesList definitions)

/-! ### Flags of schemas -/

/-- Nothing but the reference of a schema matters for what it refers to. -/
theorem refersTo_iff_ofReference {next : Schema} (h : s.reference = some reference) :
    RefersTo definitions s next ↔ RefersTo definitions (ofReference reference) next := by
  simp only [RefersTo, ofReference, h]

/-- The flag of a schema says that the chain of its references ends at a list. -/
theorem isArray_iff (hkeys : definitions.keys.Nodup) :
    s.isArray definitions = true ↔ ∃ n t, Chain (RefersTo definitions) n s t
      ∧ t.reference = none ∧ t.primary? = some .array := by
  have hflag : s.isArray definitions = true
      ↔ ∃ t, s.follow? definitions = some t ∧ t.primary? = some .array := by
    unfold isArray
    cases s.follow? definitions <;> simp
  rw [hflag]
  constructor
  · rintro ⟨t, hfollow, harray⟩
    obtain ⟨n, hchain, hend⟩ := (follow?_eq_some_iff hkeys).1 hfollow
    exact ⟨n, t, hchain, hend, harray⟩
  · rintro ⟨n, t, hchain, hend, harray⟩
    exact ⟨t, (follow?_eq_some_iff hkeys).2 ⟨n, hchain, hend⟩, harray⟩

/-- With a reference, it says where that ends. -/
theorem isArray_of_reference (hkeys : definitions.keys.Nodup) (h : s.reference = some reference) :
    s.isArray definitions = true ↔ EndsAtList definitions reference := by
  rw [isArray_iff hkeys, EndsAtList]
  refine exists_congr fun n => exists_congr fun t => and_congr_left fun ⟨hend, _⟩ => ?_
  constructor
  · rintro (_ | ⟨first, rest⟩)
    · rw [h] at hend
      cases hend
    · exact .head ((refersTo_iff_ofReference h).1 first) rest
  · rintro (_ | ⟨first, rest⟩)
    · cases hend
    · exact .head ((refersTo_iff_ofReference h).2 first) rest

/-- Without one, it is about the kind of the schema itself. -/
theorem isArray_of_reference_none (h : s.reference = none) :
    s.isArray definitions = true ↔ s.primary? = some .array := by
  rw [isArray, follow?_of_reference_none h]
  simp

/-! ### Types of schemas -/

theorem resolve_of_reference (h : s.reference = some reference) :
    s.resolve = refType reference := by
  rw [resolve_eq_assembleType, assembleType, h]

/-- Members give no type of lists together, unless one of them is one. -/
theorem together_ne_array {members : List TypeExpr} (h : ∀ item, .array item ∉ members)
    (item : TypeExpr) : together members ≠ .array item := by
  unfold together
  split
  · rintro rfl
    exact h item List.mem_cons_self
  · exact TypeExpr.noConfusion

/-- A composed schema is of no type of lists. -/
theorem Composed.resolve_ne_array (h : s.Composed) (item : TypeExpr) : s.resolve ≠ .array item := by
  obtain ⟨hreference, hcomposed⟩ := h
  by_cases hone : s.oneOf = []
  · by_cases hany : s.anyOf = []
    · have hcontributes : ∃ branch ∈ s.allOf, branch.Contributes := by
        simpa [hone, hany] using hcomposed
      obtain ⟨members, hmembers, hmerged⟩ := exists_members hcontributes
      rw [resolve_eq_merged hreference hone hany, hmerged, Option.getD_some]
      have hbase : ∀ other, TypeExpr.array other ∉ baseTypes s.allOf := by
        intro other hmem
        obtain ⟨_, -, heq⟩ := List.mem_map.1 hmem
        cases heq
      refine together_ne_array (fun other hmem => ?_) item
      cases hmembers with
      | bases _ => exact hbase other hmem
      | withObject _ _ =>
        rcases List.mem_append.1 hmem with hmem | hmem
        · exact hbase other hmem
        · cases List.mem_singleton.1 hmem
    · obtain ⟨branch, rest, hany⟩ := List.exists_cons_of_ne_nil hany
      rw [resolve_eq_assembleType, assembleType, hreference, parts, hone, hany, resolveList,
        resolveList]
      exact TypeExpr.noConfusion
  · obtain ⟨branch, rest, hone⟩ := List.exists_cons_of_ne_nil hone
    rw [resolve_eq_assembleType, assembleType, hreference, parts, hone, resolveList]
    exact TypeExpr.noConfusion

/-- A schema without reference that is not composed has the type that its kind, its
    allowed values and its properties give. -/
theorem resolve_of_not_composed (hreference : s.reference = none) (h : ¬ s.Composed) :
    s.resolve = match s.primary? with
      | some .string => stringType s.enumeration
      | some .number => .number
      | some .integer => .number
      | some .boolean => .boolean
      | some .array => .array s.parts.items
      | _ => s.looseType s.parts := by
  obtain ⟨hone, hany, hnone⟩ : s.oneOf = [] ∧ s.anyOf = []
      ∧ ∀ branch ∈ s.allOf, ¬ branch.Contributes := by
    simpa [Composed, hreference, not_or] using h
  have honeParts : s.parts.oneOf = [] := by rw [parts, hone, resolveList]
  have hanyParts : s.parts.anyOf = [] := by rw [parts, hany, resolveList]
  have hallParts : s.parts.allOf = none := merged?_of_none hnone
  have htype := resolve_eq_assembleType s
  rw [assembleType, hreference, honeParts, hanyParts, hallParts] at htype
  exact htype

/-- Whether a type is neither one of lists nor a name. -/
def IsNeither : TypeExpr → Prop
  | .array _ => False
  | .ref _ => False
  | _ => True

theorem isNeither_stringType (values : List Json) : IsNeither (stringType values) := by
  cases values <;> trivial

theorem isNeither_looseType (s : Schema) (parts : Parts) : IsNeither (s.looseType parts) := by
  unfold looseType
  split
  · split
    · exact isNeither_stringType _
    · trivial
  · split
    · trivial
    · split
      · rw [recordOf.eq_def]
        split <;> trivial
      · trivial

/-- What is neither composed nor a reference is of a type of lists exactly if it is of
    their kind, and of a type without name otherwise. -/
theorem resolve_cases (hreference : s.reference = none) (h : ¬ s.Composed) :
    (s.primary? = some .array ∧ ∃ item, s.resolve = .array item)
      ∨ (s.primary? ≠ some .array ∧ IsNeither s.resolve) := by
  rw [resolve_of_not_composed hreference h]
  split
  case h_1 hkind => exact .inr ⟨by simp [hkind], isNeither_stringType _⟩
  case h_2 hkind | h_3 hkind | h_4 hkind => exact .inr ⟨by simp [hkind], trivial⟩
  case h_5 hkind => exact .inl ⟨hkind, _, rfl⟩
  case h_6 hkind => exact .inr ⟨hkind, isNeither_looseType _ _⟩

theorem not_listValued_of_isNeither (h : IsNeither s.resolve) : ¬ s.ListValued definitions := by
  rintro (⟨item, htype⟩ | ⟨reference, -, htype, -⟩)
  · rw [htype] at h
    exact h
  · rw [htype] at h
    exact h

/-- **The flag fits the type** of a schema that is not torn. -/
theorem isArray_iff_listValued (hkeys : definitions.keys.Nodup) (h : ¬ s.Torn definitions) :
    s.isArray definitions = true ↔ s.ListValued definitions := by
  cases hreference : s.reference with
  | some reference =>
    rw [isArray_of_reference hkeys hreference]
    have htype := resolve_of_reference hreference
    constructor
    · exact fun hends => .inr ⟨reference, .inl hreference, htype, hends⟩
    · rintro (⟨item, harray⟩ | ⟨other, hother, -, hends⟩)
      · rw [htype] at harray
        cases harray
      · have hsame : reference = other := by simpa [NamedBy, hreference] using hother
        exact hsame ▸ hends
  | none =>
    rw [isArray_of_reference_none hreference]
    by_cases hcomposed : s.Composed
    · -- The type is none of lists, so a name has to tell.
      have hagree : s.primary? = some .array ↔ s.NamesList definitions :=
        Classical.byContradiction fun hdiffer => h ⟨hcomposed, hdiffer⟩
      rw [hagree, ListValued, or_iff_right fun ⟨item, harray⟩ =>
        hcomposed.resolve_ne_array item harray]
    · rcases resolve_cases hreference hcomposed with ⟨hkind, harray⟩ | ⟨hkind, hneither⟩
      · exact iff_of_true hkind (.inl harray)
      · exact iff_of_false hkind (not_listValued_of_isNeither hneither)

end Schema

/-! ### Flags of arguments -/

/-- The brackets that ask for a list, wherever they stand in a name. -/
theorem hasBrackets_iff {s : List Char} : hasBrackets s = true ↔ "[]".toList <:+: s := by
  fun_induction hasBrackets s with
  | case1 => exact iff_of_false Bool.noConfusion fun h => absurd (List.infix_nil.1 h) (by decide)
  | case2 rest => exact iff_of_true rfl (List.prefix_append ['[', ']'] rest).isInfix
  | case3 c rest hother ih =>
    rw [ih, List.infix_cons_iff, or_iff_right]
    rintro ⟨after, hafter⟩
    obtain ⟨rfl, hrest⟩ := List.cons.inj hafter
    exact hother after rfl hrest.symm

/-- Where an argument comes from. -/
inductive Origin where
  | parameter (p : Parameter) (place : Place)
  /-- A token of the path that no parameter declares. -/
  | token (token : String)

namespace Origin

/-- The argument that an origin calls for, its identifier aside. -/
def calledFor (definitions : Definitions) : Origin → Argument
  | .parameter p place => p.calledFor place (p.required || place == .path) definitions
  | .token name => tokenCalledFor name

/-- The flag of an argument **fits** its type, as far as its origin lets it. -/
inductive Fits (definitions : Definitions) : Origin → Argument → Prop where
  | parameter {p : Parameter} {place : Place} {a : Argument} (hkey : a.key = p.name)
    (htype : a.type = p.effectiveSchema.resolve)
    (hbrackets : "[]".toList <:+: p.name.toList → a.isArray = true)
    (hflag : ¬ "[]".toList <:+: p.name.toList → ¬ p.effectiveSchema.Torn definitions →
      (a.isArray = true ↔ p.effectiveSchema.ListValued definitions)) :
    Fits definitions (.parameter p place) a
  | token {name : String} {a : Argument} (hkey : a.key = name) (htype : a.type = .string)
    (hflag : a.isArray = false) : Fits definitions (.token name) a

/-- What an origin calls for fits. -/
theorem fits_of_calledFor {definitions : Definitions} (hkeys : definitions.keys.Nodup)
    {origin : Origin} {a : Argument} (h : a.unnamed = origin.calledFor definitions) :
    origin.Fits definitions a := by
  have hflag : a.isArray = (origin.calledFor definitions).isArray := congrArg (·.isArray) h
  cases origin with
  | parameter p place =>
    have hcalled : a.isArray = true ↔ "[]".toList <:+: p.name.toList
        ∨ p.effectiveSchema.isArray definitions = true := by
      rw [hflag, ← hasBrackets_iff, ← Bool.or_eq_true]
      rfl
    refine .parameter (congrArg (·.key) h) (congrArg (·.type) h) (fun hbrackets => ?_)
      (fun hbrackets htorn => ?_)
    · exact hcalled.2 (.inl hbrackets)
    · rw [hcalled, or_iff_right hbrackets]
      exact Schema.isArray_iff_listValued hkeys htorn
  | token name => exact .token (congrArg (·.key) h) (congrArg (·.type) h) hflag

end Origin

namespace OperationSite

/-- The **origins** of the arguments of a site: its parameters for the path, the tokens
    that none of these names, and its parameters for the query. -/
def origins (site : OperationSite) : List Origin :=
  (site.declared.filter (fun p => p.location == .path)).map (Origin.parameter · .path)
    ++ ((Name.pathTokens site.path).filter (fun token => token ∉ pathNames site.declared)).map
      Origin.token
    ++ (site.declared.filter (fun p => p.location == .query)).map (Origin.parameter · .query)

/-- There is one argument for each origin, which is the one that is called for. -/
theorem forall₂_origins (site : OperationSite) (definitions : Definitions) (function : String) :
    List.Forall₂ (fun origin (a : Argument) => a.unnamed = origin.calledFor definitions)
      site.origins (site.endpoint definitions function).arguments := by
  have hcalled : argumentsCalledFor definitions site.path site.declared
      = site.origins.map (Origin.calledFor definitions) := by
    have hoptional : (Place.query == Place.path) = false := rfl
    simp [argumentsCalledFor, origins, Origin.calledFor, Function.comp_def, hoptional]
  have harguments := site.map_unnamed_arguments definitions function
  rw [hcalled, ← List.forall₂_eq_eq_eq, List.forall₂_map_left_iff,
    List.forall₂_map_right_iff] at harguments
  exact harguments.flip.imp fun _ _ h => h

end OperationSite

/-! ### Lists in the code for the query -/

namespace Expression

/-- Whether an expression stands for a **list**, given which names do. -/
def IsList (lists : List Char → Prop) : Expression → Prop
  | .name text => lists text
  | .list _ => True
  | .mapItems _ _ _ => True
  | .onlyTrue _ => True
  | _ => False

mutual

/-- Whether an expression asks for the items of **lists only**. A name that it binds
    hides the one from outside. -/
def ListsOnly (lists : List Char → Prop) : Expression → Prop
  | .null => True
  | .literal _ => True
  | .name _ => True
  | .call _ argument => argument.ListsOnly lists
  | .conditional test whenTrue whenFalse =>
    test.ListsOnly lists ∧ whenTrue.ListsOnly lists ∧ whenFalse.ListsOnly lists
  | .both left right => left.ListsOnly lists ∧ right.ListsOnly lists
  | .isGiven operand => operand.ListsOnly lists
  | .differs left right => left.ListsOnly lists ∧ right.ListsOnly lists
  | .hasItems operand => operand.IsList lists ∧ operand.ListsOnly lists
  | .append left right => left.ListsOnly lists ∧ right.ListsOnly lists
  | .list items => EachListsOnly lists items
  | .mapItems operand bound body =>
    operand.IsList lists ∧ operand.ListsOnly lists
      ∧ body.ListsOnly (fun name => name ≠ bound ∧ lists name)
  | .onlyTrue operand => operand.IsList lists ∧ operand.ListsOnly lists
  | .joinItems operand _ => operand.IsList lists ∧ operand.ListsOnly lists
  | .binding bound value body =>
    value.ListsOnly lists
      ∧ body.ListsOnly (fun name => if name = bound then value.IsList lists else lists name)

/-- Whether each item of a list asks for the items of lists only. -/
def EachListsOnly (lists : List Char → Prop) : List Expression → Prop
  | [] => True
  | item :: rest => item.ListsOnly lists ∧ EachListsOnly lists rest

end

theorem eachListsOnly_iff {lists : List Char → Prop} {items : List Expression} :
    EachListsOnly lists items ↔ ∀ item ∈ items, item.ListsOnly lists := by
  induction items with
  | nil => simp [EachListsOnly]
  | cons item rest ih => rw [EachListsOnly, ih, List.forall_mem_cons]

end Expression

namespace Query

/-- The names of the arguments that have the flag. -/
def IsListName (arguments : List Argument) (name : List Char) : Prop :=
  ∃ a ∈ arguments, a.isArray = true ∧ a.name.toList = name

variable {lists : List Char → Prop} {a : Argument}

theorem listsOnly_encodedValue (h : a.isArray = true → lists a.name.toList) :
    (encodedValue a).ListsOnly lists := by
  unfold encodedValue
  split
  · rename_i hflag
    exact ⟨trivial, h hflag, trivial, trivial⟩
  · exact trivial

theorem listsOnly_presence (h : a.isArray = true → lists a.name.toList) :
    (presence a).ListsOnly lists := by
  unfold presence
  refine ⟨trivial, ?_⟩
  split
  · rename_i hflag
    exact ⟨h hflag, trivial⟩
  · exact ⟨trivial, trivial⟩

theorem listsOnly_contribution (h : a.isArray = true → lists a.name.toList) :
    (contribution a).ListsOnly lists := by
  unfold contribution
  split
  · exact ⟨trivial, listsOnly_encodedValue h⟩
  · exact ⟨listsOnly_presence h, ⟨trivial, listsOnly_encodedValue h⟩, trivial⟩

theorem listsOnly_joined (arguments : List Argument) :
    (joined arguments).ListsOnly (IsListName arguments) := by
  have hitems : ∀ item ∈ arguments.map contribution, item.ListsOnly (IsListName arguments) := by
    intro item hitem
    obtain ⟨a, ha, rfl⟩ := List.mem_map.1 hitem
    exact listsOnly_contribution fun hflag => ⟨a, ha, hflag, rfl⟩
  refine ⟨⟨trivial, Expression.eachListsOnly_iff.2 hitems⟩, ?_⟩
  -- The name of the contributions is bound to a list.
  simp [Expression.ListsOnly, Expression.IsList]

/-- **The code for the query** asks for the items of nothing but what has the flag, and
    of the list of contributions. -/
theorem listsOnly_expression? {arguments : List Argument} {expression : Expression}
    (h : expression? arguments = some expression) :
    expression.ListsOnly (IsListName arguments) := by
  unfold expression? at h
  split at h
  · cases h
  · rename_i only
    split at h
    · obtain rfl := Option.some.inj h
      exact listsOnly_joined _
    · obtain rfl := Option.some.inj h
      have hflag : only.isArray = true → IsListName [only] only.name.toList :=
        fun hflag => ⟨only, List.mem_cons_self, hflag, rfl⟩
      exact ⟨listsOnly_presence hflag, ⟨trivial, listsOnly_encodedValue hflag⟩, trivial⟩
  · obtain rfl := Option.some.inj h
    exact listsOnly_joined _

end Query

/-! ### Documents -/

namespace Document

variable (d : Document) (source : String)

/-- What holds of each site and its endpoint, whatever that is called, holds along the
    sites of a document. -/
theorem forall₂_endpoints {r : OperationSite → Endpoint → Prop}
    (h : ∀ site function, r site (site.endpoint d.allDefinitions function)) :
    List.Forall₂ r d.sites (d.client source).value.endpoints := by
  rw [endpoints_client]
  have hlength := d.length_functionNames
  revert hlength
  generalize d.functionNames = functions
  induction d.sites generalizing functions with
  | nil => exact fun _ => .nil
  | cons site rest ih =>
    intro hlength
    obtain ⟨function, functions, rfl⟩ := List.exists_cons_of_length_eq_add_one hlength
    exact .cons (h site function) (ih functions (Nat.succ.inj hlength))

/-! ### A sample -/

/-- A list by the name `Ids`, and one operation with parameters. -/
def listSample (parameters : List Parameter) : Document :=
  { paths := [("/items",
      { entries := [("get", .operation { parameters := parameters.map .inline })] })]
    definitions := [("Ids", { kinds := some (.single .array) })] }

theorem nodup_listSample (parameters : List Parameter) :
    (listSample parameters).allDefinitions.keys.Nodup :=
  List.nodup_singleton _

theorem endsAtList_listSample (parameters : List Parameter) :
    Schema.EndsAtList (listSample parameters).allDefinitions "#/definitions/Ids" := by
  have hpoints : Name.PointsAt "#/definitions/Ids" "Ids" := ⟨by decide, .inr ⟨"#/definitions", rfl⟩⟩
  have hstep : Schema.RefersTo (listSample parameters).allDefinitions
      (Schema.ofReference "#/definitions/Ids") { kinds := some (.single .array) } :=
    (Schema.refersTo_ofReference hpoints).2 rfl
  exact ⟨1, _, .head hstep (.refl _), rfl, rfl⟩

/-- The operation of the sample, where it stands. -/
def sampleSite (parameters : List Parameter) : OperationSite :=
  ⟨"/items", .get, { parameters := parameters.map .inline }, parameters⟩

theorem sites_listSample (parameters : List Parameter) :
    (listSample parameters).sites = [sampleSite parameters] := by
  have hmethod : Method.ofKey? "get" = some .get := by decide +kernel
  simp [sites, listSample, sampleSite, PathItem.sites, PathItem.operations, hmethod,
    mergeParameters, SharedParameters.resolveAll, SharedParameters.resolve,
    SharedParameters.follow, Function.comp_def]

/-- What relates the sites of the sample to its endpoints is about one endpoint. -/
theorem exists_endpoint_listSample {parameters : List Parameter}
    {r : OperationSite → Endpoint → Prop}
    (h : List.Forall₂ r (listSample parameters).sites
      ((listSample parameters).client "").value.endpoints) :
    ∃ e ∈ ((listSample parameters).client "").value.endpoints, r (sampleSite parameters) e := by
  rw [sites_listSample] at h
  obtain ⟨e, rest, he, -, hendpoints⟩ := List.forall₂_cons_left_iff.1 h
  exact ⟨e, hendpoints ▸ List.mem_cons_self, he⟩

theorem origins_sampleSite {parameters : List Parameter}
    (h : ∀ p ∈ parameters, p.location = .query) :
    (sampleSite parameters).origins = parameters.map (Origin.parameter · .query) := by
  have htokens : Name.pathTokens "/items" = [] := by decide +kernel
  have hpath : parameters.filter (fun p => p.location == .path) = [] :=
    List.filter_eq_nil_iff.2 fun p hp => by simp [h p hp]
  have hquery : parameters.filter (fun p => p.location == .query) = parameters :=
    List.filter_eq_self.2 fun p hp => by simp [h p hp]
  show (parameters.filter _).map _ ++ ((Name.pathTokens "/items").filter _).map _
    ++ (parameters.filter _).map _ = _
  rw [htokens, hpath, hquery]
  rfl

/-! ### Flags of documents -/

/-- **Flags fit**: the flag of each argument fits its type, as far as its origin lets
    it, and the code for the query asks for the items of nothing but the arguments that
    have the flag, and of lists of its own. -/
theorem flags_fit (hkeys : d.allDefinitions.keys.Nodup) :
    List.Forall₂ (fun site (e : Endpoint) =>
        List.Forall₂ (Origin.Fits d.allDefinitions) site.origins e.arguments)
      d.sites (d.client source).value.endpoints
      ∧ ∀ e ∈ (d.client source).value.endpoints,
        ∀ expression ∈ Query.expression? e.queryArguments,
          expression.ListsOnly (Query.IsListName e.queryArguments) := by
  refine ⟨d.forall₂_endpoints source fun site function => ?_, fun e _ expression h =>
    Query.listsOnly_expression? h⟩
  exact (site.forall₂_origins d.allDefinitions function).imp fun origin a h =>
    Origin.fits_of_calledFor hkeys h

/-- One of the parameters has brackets in its name, one has a list by name, and one has
    neither. -/
def fitSample : List Parameter :=
  [{ name := "tags[]", location := .query },
    { name := "ids", location := .query,
      schema := some (Schema.ofReference "#/definitions/Ids") },
    { name := "q", location := .query }]

theorem flags_fit_sample :
    (listSample fitSample).allDefinitions.keys.Nodup
      ∧ ∃ e ∈ ((listSample fitSample).client "").value.endpoints,
        e.arguments.map (·.isArray) = [true, true, false] := by
  have hkeys := nodup_listSample fitSample
  have hfit := ((listSample fitSample).flags_fit "" hkeys).1
  obtain ⟨e, he, harguments⟩ := exists_endpoint_listSample hfit
  refine ⟨hkeys, e, he, ?_⟩
  rw [origins_sampleSite (by decide), List.forall₂_map_left_iff] at harguments
  generalize e.arguments = found at harguments
  obtain _ | ⟨htags, _ | ⟨hids, _ | ⟨hq, _ | _⟩⟩⟩ := harguments
  have hidsList : Schema.ListValued (listSample fitSample).allDefinitions
      (Schema.ofReference "#/definitions/Ids") :=
    .inr ⟨_, .inl rfl, Schema.resolve_of_reference rfl, endsAtList_listSample _⟩
  have hqList : ¬ Schema.ListValued (listSample fitSample).allDefinitions
      { kinds := some (.single .string) } :=
    Schema.not_listValued_of_isNeither trivial
  obtain ⟨-, -, htags, -⟩ := htags
  obtain ⟨-, -, -, hids⟩ := hids
  obtain ⟨-, -, -, hq⟩ := hq
  have hidsWhole : ¬ Schema.Torn (listSample fitSample).allDefinitions
      (Schema.ofReference "#/definitions/Ids") := fun htorn => Option.some_ne_none _ htorn.1.1
  have hqWhole : ¬ Schema.Torn (listSample fitSample).allDefinitions
      { kinds := some (.single .string) } := fun htorn => by simpa using htorn.1.2
  have htagsFlag := htags (by decide)
  have hidsFlag := (hids (by decide) hidsWhole).2 hidsList
  have hqFlag := Bool.eq_false_iff.2 fun h => hqList ((hq (by decide) hqWhole).1 h)
  simp only [List.map_cons, List.map_nil, htagsFlag, hidsFlag, hqFlag]

/-- A choice that has the kind of lists besides. -/
def listOrChoice : Schema :=
  { kinds := some (.single .array)
    oneOf := [{ kinds := some (.single .string) }, { kinds := some (.single .number) }] }

/-- A list by name, as the only branch of an `allOf`. -/
def loneBranch : Schema :=
  { allOf := [Schema.ofReference "#/definitions/Ids"] }

/-- A parameter with brackets in the name of a text, and two that are torn. -/
def tornSample : List Parameter :=
  [{ name := "tags[]", location := .query },
    { name := "mixed", location := .query, schema := some listOrChoice },
    { name := "ids", location := .query, schema := some loneBranch }]

/-- None of them calls for the flag that its type asks for. -/
theorem differ_of_mem_tornSample {definitions : Definitions}
    (hlist : Schema.EndsAtList definitions "#/definitions/Ids") :
    ∀ p ∈ tornSample, ¬ ((hasBrackets p.name.toList || p.effectiveSchema.isArray definitions) = true
      ↔ p.effectiveSchema.ListValued definitions) := by
  have hmixed : listOrChoice.isArray definitions = true :=
    (Schema.isArray_of_reference_none rfl).2 rfl
  have hids : loneBranch.isArray definitions ≠ true := by
    rw [Ne, Schema.isArray_of_reference_none rfl]
    intro h
    cases h
  refine List.forall_mem_cons.2 ⟨fun h => ?_, List.forall_mem_cons.2 ⟨fun h => ?_,
    List.forall_mem_cons.2 ⟨fun h => ?_, List.forall_mem_nil _⟩⟩⟩
  · have hflag := h.1 (Bool.or_eq_true_iff.2 (.inl (hasBrackets_iff.2 (by decide))))
    exact Schema.not_listValued_of_isNeither (by trivial) hflag
  · have hflag := h.1 (Bool.or_eq_true_iff.2 (.inr hmixed))
    exact Schema.not_listValued_of_isNeither (by trivial) hflag
  · have hlisted : loneBranch.ListValued definitions :=
      .inr ⟨_, .inr ⟨rfl, rfl⟩, rfl, hlist⟩
    rcases Bool.or_eq_true_iff.1 (h.2 hlisted) with hbrackets | hflag
    · exact absurd hbrackets (by decide)
    · exact hids hflag

theorem flags_differ_sample :
    ∃ e ∈ ((listSample tornSample).client "").value.endpoints,
      List.Forall₂ (fun (p : Parameter) (a : Argument) =>
          a.key = p.name ∧ a.type = p.effectiveSchema.resolve
            ∧ ¬ (a.isArray = true
              ↔ p.effectiveSchema.ListValued (listSample tornSample).allDefinitions))
        tornSample e.arguments := by
  have hsites := (listSample tornSample).forall₂_endpoints ""
    (r := fun site e => List.Forall₂ (fun origin (a : Argument) =>
      a.unnamed = origin.calledFor (listSample tornSample).allDefinitions) site.origins e.arguments)
    (fun site function => site.forall₂_origins _ function)
  obtain ⟨e, he, harguments⟩ := exists_endpoint_listSample hsites
  refine ⟨e, he, ?_⟩
  rw [origins_sampleSite (by decide), List.forall₂_map_left_iff] at harguments
  have hdiffer := differ_of_mem_tornSample (endsAtList_listSample tornSample)
  refine ((List.forall₂_and_left _ _).2 ⟨hdiffer, harguments⟩).imp fun p a h => ?_
  obtain ⟨hdiffer, hcalled⟩ := h
  have hflag : a.isArray = (hasBrackets p.name.toList || p.effectiveSchema.isArray _) :=
    congrArg (·.isArray) hcalled
  exact ⟨congrArg (·.key) hcalled, congrArg (·.type) hcalled, hflag ▸ hdiffer⟩

end Document

end TypedClient
