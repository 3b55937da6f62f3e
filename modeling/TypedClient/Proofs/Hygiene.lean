import TypedClient.Package.Function
import TypedClient.Package.Options
import TypedClient.Proofs.Arguments

/-! # Hygiene of functions

    The signature of a function binds identifiers, and its body declares and uses
    names of its own. The two must not meet.

    * **Own names** of the body are the name of the response, those that the query
      string declares and calls, and the name of the HTTP client.
    * **Claims**: an argument is called what its key asks for, or that with a number
      behind it. So a name that does not end in a digit is bound exactly if a key
      asks for it, or if it is the name of the body and there is one.
    * **Clashes**: nothing keeps a key from asking for an own name, which then is
      bound. Other than that, only the name of the client may be bound.
-/

namespace TypedClient

/-! ### Names of the body of a function -/

namespace Expression

mutual

/-- The names that an expression declares or calls, apart from those of arguments.
    The name of the item of a list is left out: an argument of that name is hidden
    only where the item is meant. -/
def ownNames : Expression → List (List Char)
  | .null => []
  | .literal _ => []
  | .name _ => []
  | .call function argument => function :: argument.ownNames
  | .conditional test whenTrue whenFalse =>
    test.ownNames ++ whenTrue.ownNames ++ whenFalse.ownNames
  | .both left right => left.ownNames ++ right.ownNames
  | .isGiven operand => operand.ownNames
  | .differs left right => left.ownNames ++ right.ownNames
  | .hasItems operand => operand.ownNames
  | .append left right => left.ownNames ++ right.ownNames
  | .list items => listOwnNames items
  | .mapItems operand _ body => operand.ownNames ++ body.ownNames
  | .onlyTrue operand => "Boolean".toList :: operand.ownNames
  | .joinItems operand _ => operand.ownNames
  | .binding bound value body => bound :: value.ownNames ++ body.ownNames

/-- The names that the items of a list declare or call. -/
def listOwnNames : List Expression → List (List Char)
  | [] => []
  | item :: rest => item.ownNames ++ listOwnNames rest

end

theorem mem_listOwnNames {items : List Expression} {name : List Char}
    (h : name ∈ listOwnNames items) : ∃ item ∈ items, name ∈ item.ownNames := by
  induction items with
  | nil => simp [listOwnNames] at h
  | cons item rest ih =>
    rw [listOwnNames] at h
    rcases List.mem_append.1 h with h | h
    · exact ⟨item, List.mem_cons_self, h⟩
    · obtain ⟨other, hother, hname⟩ := ih h
      exact ⟨other, List.mem_cons_of_mem item hother, hname⟩

end Expression

namespace Query

/-- The functions that values are turned into text with. -/
def conversions : List (List Char) :=
  ["encodeURIComponent".toList, "String".toList]

/-- All names that a query string may declare or call. -/
def ownWords : List (List Char) :=
  partsName :: "Boolean".toList :: conversions

variable {a : Argument} {name : List Char}

theorem ownNames_encodedValue (a : Argument) : (encodedValue a).ownNames = conversions := by
  unfold encodedValue
  split <;> rfl

theorem mem_ownNames_presence (h : name ∈ (presence a).ownNames) : name ∈ conversions := by
  unfold presence at h
  split at h
  · simp [Expression.ownNames, value] at h
  · have hname : name = "String".toList := by
      simpa [Expression.ownNames, textOf, value] using h
    rw [hname]
    exact List.mem_cons_of_mem _ List.mem_cons_self

theorem ownNames_pair (lead : List Char) (a : Argument) : (pair lead a).ownNames = conversions := by
  rw [pair, Expression.ownNames, ownNames_encodedValue]
  rfl

theorem mem_ownNames_contribution (h : name ∈ (contribution a).ownNames) :
    name ∈ conversions := by
  unfold contribution at h
  split at h
  · rwa [ownNames_pair] at h
  · have hcases : name ∈ (presence a).ownNames ∨ name ∈ conversions := by
      simpa [Expression.ownNames, ownNames_pair] using h
    exact hcases.elim mem_ownNames_presence id

theorem mem_ownNames_joined {arguments : List Argument}
    (h : name ∈ (joined arguments).ownNames) : name ∈ ownWords := by
  have hcases : name = partsName ∨ name = "Boolean".toList
      ∨ name ∈ Expression.listOwnNames (arguments.map contribution) := by
    simpa [joined, Expression.ownNames] using h
  rcases hcases with rfl | rfl | h
  · exact List.mem_cons_self
  · exact List.mem_cons_of_mem _ List.mem_cons_self
  · obtain ⟨item, hitem, hname⟩ := Expression.mem_listOwnNames h
    obtain ⟨b, -, rfl⟩ := List.mem_map.1 hitem
    have hconversion := mem_ownNames_contribution hname
    exact List.mem_cons_of_mem _ (List.mem_cons_of_mem _ hconversion)

/-- The names that a query string declares or calls are the few that there are. -/
theorem mem_ownNames_expression? {arguments : List Argument} {e : Expression}
    (he : expression? arguments = some e) (h : name ∈ e.ownNames) : name ∈ ownWords := by
  unfold expression? at he
  split at he
  · cases he
  · rename_i only
    split at he
    · obtain rfl := Option.some.inj he
      exact mem_ownNames_joined h
    · obtain rfl := Option.some.inj he
      have hcases : name ∈ (presence only).ownNames ∨ name ∈ conversions := by
        simpa [Expression.ownNames, ownNames_pair] using h
      have hconversion : name ∈ conversions := hcases.elim mem_ownNames_presence id
      exact List.mem_cons_of_mem _ (List.mem_cons_of_mem _ hconversion)
  · obtain rfl := Option.some.inj he
    exact mem_ownNames_joined h

end Query

namespace Endpoint

/-- The identifiers that the signature of a function binds. -/
def boundNames (e : Endpoint) : List String :=
  e.entries.map (·.name)

/-- The names that the body of a function declares or relies on, whatever the
    client is called. That of the list of contributions is among them only if
    there is such a list. -/
def ownNames (e : Endpoint) : List String :=
  ["response", "encodeURIComponent", "String", "Boolean"]
    ++ (((Query.expression? e.queryArguments).map Expression.ownNames).getD []).map String.ofList

/-- **Hygiene**: no identifier that the signature binds is the name of the client,
    or another name of the body. -/
def Hygienic (clientName : String) (e : Endpoint) : Prop :=
  ∀ name ∈ e.boundNames, name ≠ clientName ∧ name ∉ e.ownNames

instance (clientName : String) (e : Endpoint) : Decidable (e.Hygienic clientName) :=
  List.decidableBAll _ _

/-- All names that a body may declare or rely on, apart from that of the client. -/
def ownWords : List String :=
  ["response", "encodeURIComponent", "String", "Boolean"] ++ Query.ownWords.map String.ofList

theorem mem_ownWords_of_mem_ownNames {e : Endpoint} {name : String} (h : name ∈ e.ownNames) :
    name ∈ ownWords := by
  rcases List.mem_append.1 h with h | h
  · exact List.mem_append_left _ h
  · obtain ⟨word, hword, rfl⟩ := List.mem_map.1 h
    cases hquery : Query.expression? e.queryArguments with
    | none => simp [hquery] at hword
    | some expression =>
      rw [hquery] at hword
      have hmem := Query.mem_ownNames_expression? hquery hword
      exact List.mem_append_right _ (List.mem_map_of_mem hmem)

/-- The identifiers that a signature binds: those of the arguments, then that of
    the body. -/
theorem boundNames_eq (e : Endpoint) :
    e.boundNames = e.arguments.map (·.name) ++ (e.body.map (·.name)).toList := by
  rw [boundNames, entries, List.map_append, List.map_map]
  cases e.body <;> rfl

end Endpoint

/-! ### Digits at the end -/

/-- Whether a name ends in a digit. -/
def EndsInDigit (name : String) : Prop :=
  ∃ c ∈ name.toList.getLast?, c.isDigit = true

instance (name : String) : Decidable (EndsInDigit name) :=
  decidable_of_iff (name.toList.getLast?.any Char.isDigit = true) (by
    rw [EndsInDigit]
    cases name.toList.getLast? <;> simp)

/-- A name with a number behind it ends in a digit. -/
theorem endsInDigit_numbered (name : String) (n : Nat) : EndsInDigit (numbered name n) := by
  obtain ⟨c, hc⟩ := Option.ne_none_iff_exists'.1
    (fun h => Nat.toDigits_ne_nil (List.getLast?_eq_none_iff.1 h) :
      (Nat.toDigits 10 n).getLast? ≠ none)
  refine ⟨c, ?_, Nat.isDigit_of_mem_toDigits (by decide) (by decide) (List.mem_of_getLast? hc)⟩
  rw [toList_numbered, List.getLast?_append, hc]
  rfl

/-! ### Claims -/

/-- What holds of every item of a list by those before it goes on to hold with one
    more item, if it holds of that. -/
theorem forall_split_snoc {α : Type} {p : List α → α → Prop} {items : List α} {last : α}
    (h : ∀ before a after, items = before ++ a :: after → p before a) (hlast : p items last) :
    ∀ before a after, items ++ [last] = before ++ a :: after → p before a := by
  intro before a after hsplit
  rcases List.eq_nil_or_concat after with rfl | ⟨rest, final, rfl⟩
  · obtain ⟨rfl, ha⟩ := List.append_inj' hsplit rfl
    obtain rfl := List.singleton_inj.1 ha
    exact hlast
  · have hsplit' : items ++ [last] = (before ++ a :: rest) ++ [final] := by
      rw [hsplit, List.append_assoc, List.concat_eq_append, List.cons_append]
    obtain ⟨hitems, -⟩ := List.append_inj' hsplit' rfl
    exact h before a rest hitems

/-- **Claimed** arguments: each is called what its key asks for, or that with a
    number behind it if an argument before it is called so. -/
def Claimed (arguments : List Argument) : Prop :=
  ∀ before a after, arguments = before ++ a :: after →
    a.name = claimArgument (before.map (·.name)) (Name.parameterName a.key)

namespace Claimed

theorem nil : Claimed [] := by
  intro before a after h
  cases before <;> cases h

/-- **The step**: one more claim. -/
theorem snoc {before : List Argument} (h : Claimed before) {a : Argument}
    (ha : a.name = claimArgument (before.map (·.name)) (Name.parameterName a.key)) :
    Claimed (before ++ [a]) :=
  forall_split_snoc h ha

/-- **The runs**: parameters and tokens make claims. -/
theorem claimArguments {before : List Argument} (h : Claimed before) (place : Place)
    (definitions : Definitions) (parameters : List Parameter) :
    Claimed (claimArguments place definitions before parameters) := by
  induction parameters generalizing before with
  | nil => exact h
  | cons p rest ih => exact ih (h.snoc rfl)

theorem claimTokens {before : List Argument} (h : Claimed before) (function : String)
    (tokens : List String) : Claimed (claimTokens function before tokens).value := by
  induction tokens generalizing before with
  | nil => exact h
  | cons token rest ih =>
    rw [TypedClient.claimTokens]
    split
    · exact ih h
    · exact ih (h.snoc rfl)

/-- A name that does not end in a digit is that of an argument exactly if the key
    of one asks for it. -/
theorem mem_names_iff {arguments : List Argument} (h : Claimed arguments) {name : String}
    (hdigit : ¬ EndsInDigit name) :
    name ∈ arguments.map (·.name) ↔ ∃ a ∈ arguments, Name.parameterName a.key = name := by
  constructor
  · intro hname
    obtain ⟨a, ha, rfl⟩ := List.mem_map.1 hname
    obtain ⟨before, after, hsplit⟩ := List.append_of_mem ha
    have hclaim := h before a after hsplit
    unfold claimArgument at hclaim
    split at hclaim
    · rw [hclaim] at hdigit
      exact absurd (endsInDigit_numbered _ _) hdigit
    · exact ⟨a, ha, hclaim.symm⟩
  · rintro ⟨a, ha, rfl⟩
    obtain ⟨before, after, hsplit⟩ := List.append_of_mem ha
    have hclaim := h before a after hsplit
    unfold claimArgument at hclaim
    split at hclaim
    · rename_i htaken
      -- It was given to an argument before.
      rw [hsplit, List.map_append]
      exact List.mem_append_left _ htaken
    · exact List.mem_map.2 ⟨a, ha, hclaim⟩

end Claimed

/-! ### Endpoints of documents -/

namespace OperationSite

variable (site : OperationSite) (definitions : Definitions) (function : String)

theorem claimed_endpoint : Claimed (site.endpoint definitions function).arguments :=
  ((Claimed.nil.claimArguments _ _ _).claimTokens _ _).claimArguments _ _ _

/-- The body claims its name behind the arguments. -/
theorem name_of_mem_body {b : Body} (h : b ∈ (site.endpoint definitions function).body) :
    b.name = claimArgument ((site.endpoint definitions function).arguments.map (·.name))
      bodyName := by
  obtain ⟨found, -, rfl⟩ := Option.map_eq_some_iff.1 h
  rfl

/-- A name that does not end in a digit is bound exactly if a key asks for it, or if
    it is the name of the body and there is one. -/
theorem mem_boundNames_iff {name : String} (hdigit : ¬ EndsInDigit name) :
    name ∈ (site.endpoint definitions function).boundNames
      ↔ (∃ a ∈ (site.endpoint definitions function).arguments, Name.parameterName a.key = name)
        ∨ (name = bodyName ∧ (site.endpoint definitions function).body.isSome = true) := by
  have harguments := (site.claimed_endpoint definitions function).mem_names_iff hdigit
  rw [Endpoint.boundNames_eq, List.mem_append, harguments]
  cases hbody : (site.endpoint definitions function).body with
  | none => simp
  | some b =>
    have hclaim := site.name_of_mem_body definitions function hbody
    unfold claimArgument at hclaim
    split at hclaim
    · rename_i htaken
      have hne : name ≠ b.name := by
        rintro rfl
        rw [hclaim] at hdigit
        exact hdigit (endsInDigit_numbered _ _)
      constructor
      · rintro (h | h)
        · exact .inl h
        · exact absurd (by simpa using h) hne
      · rintro (h | ⟨rfl, -⟩)
        · exact .inl h
        · exact .inl (harguments.1 htaken)
    · simp [hclaim]

end OperationSite

namespace Document

variable {d : Document} {source : String} {e : Endpoint}

/-- An own name of a body is bound exactly if the key of an argument asks for it. -/
theorem mem_boundNames_iff_of_mem_ownNames (h : e ∈ (d.client source).value.endpoints)
    {name : String} (hname : name ∈ e.ownNames) :
    name ∈ e.boundNames ↔ ∃ a ∈ e.arguments, Name.parameterName a.key = name := by
  obtain ⟨site, -, function, -, rfl⟩ := exists_site h
  have hwords : ∀ word ∈ Endpoint.ownWords, ¬ EndsInDigit word ∧ word ≠ bodyName := by
    decide +kernel
  obtain ⟨hdigit, hbody⟩ := hwords name (Endpoint.mem_ownWords_of_mem_ownNames hname)
  rw [site.mem_boundNames_iff d.allDefinitions function hdigit]
  simp only [hbody, false_and, or_false]

/-- **Hygienic functions**: the function of an endpoint is hygienic exactly if the
    key of no argument asks for an own name of its body, and the name of the client
    is not bound. Unless that ends in a digit, it is bound exactly if a key asks for
    it, or if it is the name of the body and there is one. -/
theorem hygienic_iff (h : e ∈ (d.client source).value.endpoints) (options : PackageOptions) :
    (e.Hygienic options.clientName
        ↔ (∀ a ∈ e.arguments, Name.parameterName a.key ∉ e.ownNames)
          ∧ options.clientName ∉ e.boundNames)
      ∧ (¬ EndsInDigit options.clientName →
          (options.clientName ∈ e.boundNames
            ↔ (∃ a ∈ e.arguments, Name.parameterName a.key = options.clientName)
              ∨ (options.clientName = bodyName ∧ e.body.isSome = true))) := by
  have howned : ∀ name ∈ e.ownNames,
      (name ∈ e.boundNames ↔ ∃ a ∈ e.arguments, Name.parameterName a.key = name) :=
    fun name hname => mem_boundNames_iff_of_mem_ownNames h hname
  constructor
  · constructor
    · intro hygienic
      constructor
      · intro a ha hname
        have hbound := (howned _ hname).2 ⟨a, ha, rfl⟩
        exact (hygienic _ hbound).2 hname
      · intro hclient
        exact (hygienic _ hclient).1 rfl
    · rintro ⟨hkeys, hclient⟩ name hbound
      constructor
      · rintro rfl
        exact hclient hbound
      · intro hname
        obtain ⟨a, ha, rfl⟩ := (howned name hname).1 hbound
        exact hkeys a ha hname
  · intro hdigit
    obtain ⟨site, -, function, -, rfl⟩ := exists_site h
    exact site.mem_boundNames_iff d.allDefinitions function hdigit

/-- A document with one operation that has parameters for the query. -/
def ofQuery (keys : List String) : Document :=
  { paths := [("/search", { entries := [("get", .operation
      { parameters := keys.map (fun key =>
          .inline { name := key, location := .query }) })] })] }

/-- A parameter of an ordinary name meets the response. -/
theorem not_hygienic_sample :
    ∃ e ∈ ((ofQuery ["q", "response"]).client "").value.endpoints, ¬ e.Hygienic "axios" := by
  have hkey : ∃ e ∈ ((ofQuery ["q", "response"]).client "").value.endpoints,
      ∃ a ∈ e.arguments, Name.parameterName a.key ∈ e.ownNames := by
    decide +kernel
  obtain ⟨e, he, a, ha, hname⟩ := hkey
  refine ⟨e, he, ?_⟩
  intro hygienic
  exact ((hygienic_iff he {}).1.1 hygienic).1 a ha hname

end Document

end TypedClient
