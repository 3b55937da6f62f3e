import TypedClient.Proofs.CommentBlocks
import TypedClient.Proofs.ScannedComments

/-! # Prose and imports

    The summaries and descriptions of operations end up in comments alone, but
    the scan of the functions reads comments too.

    * **Lists**: the skipped names never depend on prose. The imported names do
      so by the names that the scan adds to those that the endpoints use.
    * **Inert prose** holds no quotes and no backslashes, and no declared name
      that the endpoints do not use. It changes no import.
    * **Texts**: without its comments, the file of functions depends on prose by
      its import alone.
-/

namespace TypedClient

open Scan

/-! ### Added names -/

namespace Client

/-- The names that the scan adds to those that the endpoints use. -/
def added (c : Client) (options : PackageOptions) : List String :=
  (Scan.mentions (String.ofList (c.functions options)) c.definitions).filter
    (fun name => name ∉ c.used)

/-- Whether a name counts: it is declared, and the endpoints do not use it. -/
def counts (c : Client) (name : String) : Bool :=
  decide (name ∉ c.used) && c.definitions.declares name

theorem nodup_mentions (text : String) (definitions : Definitions) :
    (Scan.mentions text definitions).Nodup := by
  rw [Scan.mentions, NameSet.ofNames_eq]
  exact Name.nodup_distinct _

/-- The added names are the distinct ones among those in the text that count. -/
theorem added_eq (c : Client) (options : PackageOptions) :
    c.added options
      = Name.distinct ((allNames (blankLiterals (c.functions options))).filter c.counts) := by
  have hcounts : c.counts = fun name => decide (name ∉ c.used) && c.definitions.declares name := rfl
  rw [added, Scan.mentions, NameSet.ofNames_eq, Name.filter_distinct, List.filter_filter,
    String.toList_ofList, hcounts]
  rfl

/-- **Lists**: the declared names that the endpoints use and the added ones are
    imported, the undeclared names are skipped. -/
theorem imports_eq (c : Client) (options : PackageOptions) :
    c.imports options
      = (c.used.filter c.definitions.declares ++ c.added options,
          c.used.filter (fun name => !c.definitions.declares name)) := by
  have hdeclared : ∀ name ∈ c.added options, c.definitions.declares name = true := by
    intro name hname
    exact declares_of_mem_mentions (List.mem_filter.1 hname).1
  have hmerged : c.used.merge (Scan.mentions (String.ofList (c.functions options)) c.definitions)
      = c.used ++ c.added options := by
    rw [NameSet.merge_eq, Name.distinct_of_nodup (nodup_mentions _ _)]
    rfl
  have hall : (c.added options).filter c.definitions.declares = c.added options :=
    List.filter_eq_self.2 hdeclared
  have hnone : (c.added options).filter (fun name => !c.definitions.declares name) = [] := by
    apply List.filter_eq_nil_iff.2
    intro name hname
    simp [hdeclared name hname]
  rw [imports, hmerged, NameSet.partition, List.partition_eq_filter_filter, List.filter_append,
    List.filter_append, hall]
  show (_, _ ++ (c.added options).filter (fun name => !c.definitions.declares name)) = _
  rw [hnone, List.append_nil]
  rfl

end Client

/-! ### Prose -/

/-- An endpoint without its prose. -/
def Endpoint.withoutProse (e : Endpoint) : Endpoint :=
  { e with summary := none, description := none }

/-- A client without the prose of its endpoints. -/
def Client.withoutProse (c : Client) : Client :=
  { c with endpoints := c.endpoints.map Endpoint.withoutProse }

/-- Functions without comments do not show prose. -/
theorem Endpoint.concat_pieces_withoutProse (clientName : String) (endpoints : List Endpoint) :
    Piece.concat true (pieces clientName (endpoints.map withoutProse))
      = Piece.concat true (pieces clientName endpoints) := by
  induction endpoints with
  | nil => rfl
  | cons e rest ih =>
    have hfunction : e.withoutProse.functionChars clientName = e.functionChars clientName := rfl
    cases rest with
    | nil =>
      rw [List.map_cons, List.map_nil, concat_pieces_singleton, concat_pieces_singleton]
      exact hfunction
    | cons next more =>
      rw [List.map_cons, List.map_cons, concat_pieces_cons, concat_pieces_cons]
      rw [List.map_cons] at ih
      rw [ih]
      exact congrArg (· ++ _) hfunction

namespace Client

variable {c c' : Client} {options : PackageOptions}

theorem functions_withoutProse (h : options.withoutComments = true) (c : Client) :
    c.withoutProse.functions options = c.functions options := by
  rw [functions, functions, h]
  exact Endpoint.concat_pieces_withoutProse options.clientName c.endpoints

/-- **Inert prose**: it holds neither quotes nor backslashes, and the scan finds
    no name in its comment but those that the endpoints use. -/
structure Inert (c : Client) (e : Endpoint) : Prop where
  summary : Harmless (e.summary.getD "").toList
  description : Harmless (e.description.getD "").toList
  /-- The names in the comment. -/
  mentions : ∀ name ∈ Scan.mentions (String.ofList (Comment.block e.docLines)) c.definitions,
    name ∈ c.used

/-- No name counts in the comment of inert prose. -/
theorem Inert.quiet {e : Endpoint} (h : c.Inert e) : e.Quiet c.counts where
  summary := h.summary
  description := h.description
  names := by
    have hlines : ∀ line ∈ e.docLines, Harmless line :=
      Endpoint.harmless_docLines h.summary h.description
    have hquoteless : Quoteless (Comment.block e.docLines) :=
      Comment.quoteless_block (fun line hline => (hlines line hline).quoteless)
    apply List.filter_eq_nil_iff.2
    intro name hname hcounts
    obtain ⟨hunused, hdeclared⟩ := Bool.and_eq_true_iff.1 hcounts
    have hmention :
        name ∈ Scan.mentions (String.ofList (Comment.block e.docLines)) c.definitions := by
      rw [Scan.mentions, NameSet.mem_ofNames, List.mem_filter, String.toList_ofList,
        blankLiterals_of_quoteless hquoteless]
      exact ⟨hname, hdeclared⟩
    exact of_decide_eq_true hunused (h.mentions name hmention)

/-- Comments of inert prose add no names. -/
theorem added_of_inert (options : PackageOptions) {without : Bool}
    (h : without = false → ∀ e ∈ c.endpoints, c.Inert e) :
    c.added { options with withoutComments := without }
      = c.added { options with withoutComments := true } := by
  cases without with
  | true => rfl
  | false =>
    have hquiet : ∀ e ∈ c.endpoints, e.Quiet c.counts :=
      fun e he => (h rfl e he).quiet
    have hnames := Endpoint.filter_names_pieces options.clientName hquiet Border.nil
    rw [added_eq, added_eq]
    exact congrArg Name.distinct hnames

/-- Without comments, prose adds no names. -/
theorem added_of_withoutProse_eq (h : c.withoutProse = c'.withoutProse)
    (hwithout : options.withoutComments = true) : c.added options = c'.added options := by
  have hadded : ∀ c : Client, c.withoutProse.added options = c.added options := by
    intro c
    rw [added, functions_withoutProse hwithout]
    rfl
  rw [← hadded c, ← hadded c', h]

end Client

/-! ### Packages -/

/-- The text of the file of functions of a package, without its comments. -/
def Package.bareFunctions (p : Package) : Option String :=
  p.files[1]?.map (fun file => Comment.strip file.content)

namespace Client

variable {c c' : Client}

theorem bareFunctions_package (c : Client) (options : PackageOptions) :
    (c.package options).value.bareFunctions
      = some (Comment.strip (c.apiFile options (c.package options).value.imported)) :=
  rfl

/-- **Prose and imports**: take two clients that differ in prose at most, and
    options that differ in whether comments are written at most. The skipped
    names are the same. The imported names are the same exactly if the scan adds
    the same names, and they are if all prose that is written is inert. If they
    are the same, so are the functions without their comments. -/
theorem package_of_withoutProse_eq (h : c.withoutProse = c'.withoutProse)
    (options : PackageOptions) (without without' : Bool) :
    let one := (c.package { options with withoutComments := without }).value
    let other := (c'.package { options with withoutComments := without' }).value
    one.skipped = other.skipped
      ∧ (one.imported = other.imported
          ↔ c.added { options with withoutComments := without }
            = c'.added { options with withoutComments := without' })
      ∧ ((without = false → ∀ e ∈ c.endpoints, c.Inert e)
          → (without' = false → ∀ e ∈ c'.endpoints, c'.Inert e)
          → one.imported = other.imported)
      ∧ (one.imported = other.imported → one.bareFunctions = other.bareFunctions) := by
  intro one other
  have hused : c.withoutProse.used = c'.withoutProse.used := congrArg Client.used h
  have hdefinitions : c.withoutProse.definitions = c'.withoutProse.definitions :=
    congrArg Client.definitions h
  change c.used = c'.used at hused
  change c.definitions = c'.definitions at hdefinitions
  have hone := c.imports_eq { options with withoutComments := without }
  have hother := c'.imports_eq { options with withoutComments := without' }
  have hskipped : one.skipped = other.skipped := by
    show (c.imports _).2 = (c'.imports _).2
    rw [hone, hother, hused, hdefinitions]
  have himported : one.imported = other.imported
      ↔ c.added { options with withoutComments := without }
        = c'.added { options with withoutComments := without' } := by
    show (c.imports _).1 = (c'.imports _).1 ↔ _
    rw [hone, hother, hused, hdefinitions]
    exact List.append_right_inj _
  refine ⟨hskipped, himported, ?_, ?_⟩
  · intro hinert hinert'
    -- Both add what is added without comments.
    apply himported.2
    have hone := added_of_inert options hinert
    have hother := added_of_inert options hinert'
    exact hone.trans ((added_of_withoutProse_eq h rfl).trans hother.symm)
  · intro hsame
    rw [bareFunctions_package, bareFunctions_package]
    show some (Comment.strip (c.apiFile _ one.imported))
      = some (Comment.strip (c'.apiFile _ other.imported))
    rw [hsame, strip_apiFile c, strip_apiFile c']
    have hfile : ∀ c : Client, c.withoutProse.apiFile { options with withoutComments := true }
          other.imported
        = c.apiFile { options with withoutComments := true } other.imported := by
      intro c
      rw [apiFile, functions_withoutProse rfl]
      rfl
    have hequal := hfile c
    rw [h, hfile c'] at hequal
    exact congrArg (fun text => some (Comment.strip text)) hequal.symm

end Client

/-- A document with an object and one operation, which does not use it. -/
def Document.ofSummary (summary : String) : Document :=
  { definitions := [("model", { kinds := some (.single .object) })]
    paths := [("/models", { entries := [("get", .operation { summary := some summary })] })] }

/-- A capitalized word in a summary imports a type that no function uses. -/
theorem Document.imported_ne_sample :
    let c := ((Document.ofSummary "Counts each Model in stock.").client "").value
    (c.package {}).value.skipped = (c.package { withoutComments := true }).value.skipped
      ∧ (c.package {}).value.imported ≠ (c.package { withoutComments := true }).value.imported := by
  intro c
  have hquoteless : Quoteless (c.functions {})
      ∧ Quoteless (c.functions { withoutComments := true }) := by
    decide +kernel
  have hadded : c.added {} ≠ c.added { withoutComments := true } := by
    rw [Client.added_eq, Client.added_eq, blankLiterals_of_quoteless hquoteless.1,
      blankLiterals_of_quoteless hquoteless.2]
    decide +kernel
  have hprose : c.withoutProse = c.withoutProse := rfl
  obtain ⟨hskipped, himported, -, -⟩ := Client.package_of_withoutProse_eq hprose {} false true
  exact ⟨hskipped, fun hsame => hadded (himported.1 hsame)⟩

end TypedClient
