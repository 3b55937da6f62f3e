import TypedClient.Proofs.ConfigFiles
import TypedClient.Proofs.WrittenFiles

/-! # The configuration of a run

    What a package is written with, field by field: what a flag says, or else a variable,
    or else the configuration file, or else the value that the field has of its own.

    * **Layers** one over the other: of those that speak of a field, the topmost one
      decides it (`part_ofLayers`). A layer that does not speak of a field leaves it as
      the layers below it made it.
    * **The file** (`HasConfig`) is the one that was asked for, or the usual one, which
      may be missing. What it says is what its root says.
    * **The command** writes the package with just this configuration
      (`generate_layered`). Where the file is of no use it fails, and nothing has
      changed (`generate_refused`).
-/

namespace TypedClient

open Yaml

/-! ### Layers -/

/-- A part of a configuration that layers may speak of: a layer on top puts what it says,
    and leaves the part alone if it says nothing. -/
def Config.IsPart {β : Type} (π : Config → β) (part : ConfigLayer → Option β) : Prop :=
  ∀ c layer, π (c.under layer) = (part layer).getD (π c)

/-- **Priority**: of the layers that speak of a part, the first one decides it. -/
theorem Config.part_ofLayers {β : Type} {π : Config → β} {part : ConfigLayer → Option β}
    (h : IsPart π part) (layers : List ConfigLayer) :
    π (ofLayers layers) = (layers.findSome? part).getD (π {}) := by
  induction layers with
  | nil => rfl
  | cons layer rest ih =>
    have hstep : π (ofLayers (layer :: rest)) = (part layer).getD (π (ofLayers rest)) :=
      h (ofLayers rest) layer
    rw [hstep, ih, List.findSome?_cons]
    cases part layer <;> rfl

/-- A part by four layers, the topmost first. -/
theorem Config.part_ofLayers_four {β : Type} (π : Config → β) (part : ConfigLayer → Option β)
    (h : IsPart π part) (first second third fourth : ConfigLayer) :
    π (ofLayers [first, second, third, fourth])
      = ((part first).or ((part second).or ((part third).or (part fourth)))).getD (π {}) := by
  rw [part_ofLayers h]
  simp only [List.findSome?_cons, List.findSome?_nil]
  cases part first <;> cases part second <;> cases part third <;> cases part fourth <;> rfl

/-- The input is a part that may be nothing. -/
theorem Config.isPart_input : IsPart Config.input (fun layer => layer.input.map some) := by
  intro c layer
  cases h : layer.input <;> simp [under, h]

/-- What a configuration file says, where there may be none. -/
def ConfigLayer.saidByFile : Option Node → ConfigLayer
  | none => {}
  | some root => saidBy root.anchored.reverse root

/-- What can be read is there. -/
theorem FileTree.pathExists_of_readText {t : FileTree} {path text : String}
    (h : t.readText path = .ok text) : t.pathExists path = true := by
  unfold readText at h
  unfold pathExists
  cases hplace : t.place? path with
  | error e =>
    rw [hplace] at h
    cases h
  | ok place =>
    rw [hplace] at h
    cases hfolder : t.isFolder place with
    | true => simp [hfolder]
    | false =>
      cases hcontent : t.content? place with
      | some bytes => simp [hcontent]
      | none =>
        -- A place with neither is not read.
        simp [bind, Except.bind, hfolder, hcontent] at h

namespace CommandLine

variable {α β : Type} {s s' : Session} {source : SourceFlags} {file : Option Node}
  {own : ConfigLayer} {failure : Failure}

/-! ### Acts in a session -/

/-- Behind an act, what is next is run. -/
theorem run_bind_of_run {act : StateM Session α} {next : α → StateM Session β} {a : α}
    (h : act.run s = (a, s')) : (act >>= next).run s = (next a).run s' := by
  rw [StateT.run_bind, h]
  rfl

/-- Behind an act that succeeds, what is next is run. -/
theorem Completes.run_bind {act : ExceptT Failure (StateM Session) α}
    {next : α → ExceptT Failure (StateM Session) β} {a : α} (h : Completes act s a s') :
    (act >>= next).run.run s = (next a).run.run s' := by
  rw [ExceptT.run_bind, run_bind_of_run h]

/-- An act that fails ends what it is a part of. -/
theorem run_bind_of_error {act : ExceptT Failure (StateM Session) α}
    {next : α → ExceptT Failure (StateM Session) β} (h : act.run.run s = (.error failure, s')) :
    (act >>= next).run.run s = (.error failure, s') := by
  rw [ExceptT.run_bind, run_bind_of_run h]
  rfl

theorem run_orFail {ε : Type} {wrap : ε → Failure} {act : StateM Session (Except ε α)}
    {outcome : Except ε α} (h : act.run s = (outcome, s')) :
    (orFail wrap act).run.run s = (outcome.mapError wrap, s') := by
  show (act >>= _).run s = _
  rw [run_bind_of_run h]
  rfl

/-! ### The configuration file -/

/-- What comes of a configuration file. -/
def Session.configAt (s : Session) (path : String) : Except ConfigError (Option ConfigLayer) :=
  if s.tree.pathExists path then
    match s.tree.readText path with
    | .error e => .error (.unread path e)
    | .ok text =>
      match ConfigLayer.ofYamlText text with
      | .error e => .error (.unfit path e)
      | .ok layer => .ok (some layer)
  else .ok none

/-- Nothing changes when a configuration file is read. -/
theorem run_loadConfig (s : Session) (path : String) :
    (loadConfig (m := StateM Session) path).run s = (s.configAt path, s) := by
  have hexists : (Surroundings.pathExists (m := StateM Session) path).run s
      = (s.tree.pathExists path, s) := rfl
  have hread : (Surroundings.readText (m := StateM Session) path).run s
      = (s.tree.readText path, s) := rfl
  rw [loadConfig, run_bind_of_run hexists, Session.configAt]
  cases s.tree.pathExists path with
  | false => rfl
  | true =>
    simp only [if_true, run_bind_of_run hread]
    cases s.tree.readText path with
    | error e => rfl
    | ok text =>
      simp only
      cases ConfigLayer.ofYamlText text <;> rfl

/-- **The file that a configuration is made with**, by its root: the one that was asked
    for, which has to be there, or the usual one, if that is there. -/
inductive Session.HasConfig (s : Session) (source : SourceFlags) : Option Node → Prop where
  | loaded {text : String} {root : Node}
      (content : s.tree.readText (source.config.getD Config.fileName) = .ok text)
      (hasRoot : root? text = some root)
      (fits : (ConfigLayer.ofYamlText text).toOption.isSome) : HasConfig s source (some root)
  | missing (unasked : source.config = none)
      (absent : s.tree.pathExists Config.fileName = false) : HasConfig s source none

namespace Session

variable {path : String}

theorem configAt_eq_none_iff : s.configAt path = .ok none ↔ s.tree.pathExists path = false := by
  unfold configAt
  cases s.tree.pathExists path with
  | false => simp
  | true =>
    rw [if_pos rfl]
    constructor
    · intro h
      split at h
      · cases h
      · split at h <;> cases h
    · intro h
      cases h

/-- A file of use is the layer of what its root says. -/
theorem configAt_eq_some_iff {layer : ConfigLayer} :
    s.configAt path = .ok (some layer)
      ↔ ∃ text root, s.tree.readText path = .ok text ∧ root? text = some root
          ∧ (ConfigLayer.ofYamlText text).toOption.isSome
          ∧ layer = .saidByFile (some root) := by
  constructor
  · intro h
    unfold configAt at h
    split at h
    · split at h
      · cases h
      · rename_i text htext
        split at h
        · cases h
        · rename_i found hlayer
          cases h
          obtain ⟨root, hroot, hsaid⟩ := ConfigLayer.eq_saidBy_of_text hlayer
          exact ⟨text, root, htext, hroot, by rw [hlayer]; rfl, hsaid⟩
    · cases h
  · rintro ⟨text, root, htext, hroot, hfits, rfl⟩
    rw [configAt, if_pos (FileTree.pathExists_of_readText htext), htext]
    cases hlayer : ConfigLayer.ofYamlText text with
    | error e =>
      rw [hlayer] at hfits
      cases hfits
    | ok layer =>
      obtain ⟨found, hfound, rfl⟩ := ConfigLayer.eq_saidBy_of_text hlayer
      obtain rfl := Option.some.inj (hfound.symm.trans hroot)
      simp only [hlayer]
      rfl

end Session

theorem completes_fileLayer (h : s.HasConfig source file) :
    Completes (fileLayer source) s (.saidByFile file) s := by
  unfold fileLayer
  cases h with
  | @loaded text root hcontent hroot hfits =>
    have hload := run_loadConfig s (source.config.getD Config.fileName)
    rw [Session.configAt_eq_some_iff.2 ⟨text, root, hcontent, hroot, hfits, rfl⟩] at hload
    -- Asked for or not, the file is there.
    cases hconfig : source.config <;> rw [hconfig] at hload <;>
      exact completes_bind_iff.2 ⟨_, s, run_orFail hload, rfl⟩
  | missing hunasked habsent =>
    have hload := run_loadConfig s Config.fileName
    rw [Session.configAt_eq_none_iff.2 habsent] at hload
    rw [hunasked]
    exact completes_bind_iff.2 ⟨_, s, run_orFail hload, rfl⟩

/-- Without a file of use there is a failure. -/
theorem run_fileLayer_of_not_hasConfig (h : ∀ file, ¬ s.HasConfig source file) :
    ∃ failure, (fileLayer (m := StateM Session) source).run.run s = (.error failure, s) := by
  have hload := run_loadConfig s (source.config.getD Config.fileName)
  unfold fileLayer
  cases hout : s.configAt (source.config.getD Config.fileName) with
  | error e =>
    rw [hout] at hload
    refine ⟨.config e, ?_⟩
    cases hconfig : source.config <;> rw [hconfig] at hload <;>
      exact run_bind_of_error (run_orFail hload)
  | ok found =>
    rw [hout] at hload
    cases found with
    | some layer =>
      obtain ⟨text, root, hcontent, hroot, hfits, -⟩ := Session.configAt_eq_some_iff.1 hout
      exact absurd (.loaded hcontent hroot hfits) (h (some root))
    | none =>
      have habsent := Session.configAt_eq_none_iff.1 hout
      cases hconfig : source.config with
      | none =>
        rw [hconfig] at habsent
        exact absurd (.missing hconfig habsent) (h none)
      | some path =>
        rw [hconfig] at hload
        refine ⟨.configMissing path, ?_⟩
        exact (Completes.run_bind (run_orFail hload)).trans rfl

/-! ### The configuration of a command -/

/-- What a variable says; an empty one says nothing. -/
def Session.setting? (s : Session) (name : String) : Option String :=
  (Table.find? name s.environment).filter (fun value => !value.isEmpty)

/-- What the variables of a session say about a configuration. -/
def Session.settings (s : Session) : ConfigLayer :=
  { apiUrl := s.setting? "API_URL"
    documentPath := s.setting? "SWAGGER_PATH"
    outputFolder := s.setting? "OUTPUT_DIR"
    clientNamespace := s.setting? "API_NAMESPACE" }

theorem completes_configure (h : s.HasConfig source file) (own : ConfigLayer) :
    Completes (configure source own) s
      (.ofLayers [own, source.layer, s.settings, .saidByFile file]) s :=
  completes_bind_iff.2 ⟨_, s, completes_fileLayer h, rfl⟩

end CommandLine

attribute [ext] PackageOptions Config

/-- **The fields of a configuration**: what the flags say, or else the variables of a
    session, or else a file, or else the value of the field itself. -/
def Config.layered (s : CommandLine.Session) (source : CommandLine.SourceFlags)
    (outputFolder : Option String) (unformatted : Bool) (file : ConfigLayer) : Config where
  apiUrl := (source.apiUrl.or ((s.setting? "API_URL").or file.apiUrl)).getD ({} : Config).apiUrl
  documentPath :=
    (source.documentPath.or ((s.setting? "SWAGGER_PATH").or file.documentPath)).getD
      ({} : Config).documentPath
  input := source.input.or file.input
  outputFolder :=
    (outputFolder.or ((s.setting? "OUTPUT_DIR").or file.outputFolder)).getD
      ({} : Config).outputFolder
  clientNamespace :=
    ((s.setting? "API_NAMESPACE").or file.clientNamespace).getD ({} : Config).clientNamespace
  formatted := if unformatted then false else file.formatted.getD ({} : Config).formatted
  client :=
    { clientModule := file.client.clientModule.getD ({} : PackageOptions).clientModule
      clientName := file.client.clientName.getD ({} : PackageOptions).clientName
      typesModule := file.client.typesModule.getD ({} : PackageOptions).typesModule
      withoutComments := file.client.withoutComments.getD ({} : PackageOptions).withoutComments }

namespace CommandLine

variable (s source) (outputFolder : Option String) (unformatted : Bool)

/-- Field by field, four layers make this configuration. -/
theorem ofLayers_eq_layered (file : ConfigLayer) :
    Config.ofLayers [writingLayer outputFolder unformatted, source.layer, s.settings, file]
      = .layered s source outputFolder unformatted file := by
  apply Config.ext
  case apiUrl => exact Config.part_ofLayers_four _ ConfigLayer.apiUrl (fun _ _ => rfl) _ _ _ _
  case documentPath =>
    exact Config.part_ofLayers_four _ ConfigLayer.documentPath (fun _ _ => rfl) _ _ _ _
  case input =>
    refine (Config.part_ofLayers_four _ _ Config.isPart_input _ _ _ _).trans ?_
    show ((source.input.map some).or (file.input.map some)).getD none = source.input.or file.input
    cases source.input <;> cases file.input <;> rfl
  case outputFolder =>
    exact Config.part_ofLayers_four _ ConfigLayer.outputFolder (fun _ _ => rfl) _ _ _ _
  case clientNamespace =>
    exact Config.part_ofLayers_four _ ConfigLayer.clientNamespace (fun _ _ => rfl) _ _ _ _
  case formatted =>
    refine (Config.part_ofLayers_four _ ConfigLayer.formatted (fun _ _ => rfl) _ _ _ _).trans ?_
    cases unformatted <;> rfl
  case client =>
    apply PackageOptions.ext
    case clientModule =>
      exact Config.part_ofLayers_four (·.client.clientModule) (·.client.clientModule)
        (fun _ _ => rfl) _ _ _ _
    case clientName =>
      exact Config.part_ofLayers_four (·.client.clientName) (·.client.clientName)
        (fun _ _ => rfl) _ _ _ _
    case typesModule =>
      exact Config.part_ofLayers_four (·.client.typesModule) (·.client.typesModule)
        (fun _ _ => rfl) _ _ _ _
    case withoutComments =>
      exact Config.part_ofLayers_four (·.client.withoutComments) (·.client.withoutComments)
        (fun _ _ => rfl) _ _ _ _

/-- **The configuration of a run**: its fields are what the flags say, or else the
    variables, or else the file, or else the values of their own. With this configuration,
    and with nothing changed, the package is written. -/
theorem generate_layered {file : Option Node} (h : s.HasConfig source file) :
    Completes (configure source (writingLayer outputFolder unformatted)) s
        (.layered s source outputFolder unformatted (.saidByFile file)) s
      ∧ ((Command.generate source outputFolder unformatted).run (m := StateM Session)).run.run s
          = (writePackage (m := StateM Session)
              (.layered s source outputFolder unformatted (.saidByFile file))).run.run s := by
  have hconfig := completes_configure h (writingLayer outputFolder unformatted)
  rw [ofLayers_eq_layered] at hconfig
  exact ⟨hconfig, hconfig.run_bind⟩

/-- A configuration file that says something about some of the fields. -/
def partialText : String :=
  "api_url: https://file\nswagger_path: /file\nformat: true\nclient:\n  types_module: models\n"

/-- A session with that file, and with variables of which one is empty. -/
def partialSession : Session where
  tree := { working := [], folders := [], files := [([Config.fileName], partialText.toUTF8)] }
  environment := [("API_URL", ""), ("SWAGGER_PATH", "/variable"), ("OUTPUT_DIR", "out")]

/-- The configuration that is made there with a flag for what follows the base URL. -/
def partialConfig : Config where
  apiUrl := "https://file"
  documentPath := "/flag"
  outputFolder := "out"
  formatted := false
  client := { typesModule := "models" }

/-- An empty variable leaves what the file says, and a flag comes before both. -/
theorem generate_layered_sample :
    (∃ file, partialSession.HasConfig ⟨none, some "/flag", none, none⟩ file)
      ∧ Completes (configure ⟨none, some "/flag", none, none⟩ (writingLayer none true))
          partialSession partialConfig partialSession
      ∧ ((Command.generate ⟨none, some "/flag", none, none⟩ none true).run
            (m := StateM Session)).run.run partialSession
          = (writePackage (m := StateM Session) partialConfig).run.run partialSession := by
  obtain ⟨root, hroot⟩ : ∃ root, root? partialText = some root :=
    Option.isSome_iff_exists.1 (by decide +kernel)
  have hsaid : (root? partialText).map
        (fun root => Config.layered partialSession ⟨none, some "/flag", none, none⟩ none true
          (.saidByFile (some root)))
      = some partialConfig := by
    decide +kernel
  rw [hroot] at hsaid
  have hconfig : partialSession.HasConfig ⟨none, some "/flag", none, none⟩ (some root) :=
    .loaded (by rfl) hroot (by decide +kernel)
  refine ⟨⟨some root, hconfig⟩, ?_⟩
  rw [← Option.some.inj hsaid]
  exact generate_layered partialSession _ none true hconfig

/-- Where there is no file of use, the command fails and nothing has changed. -/
theorem generate_refused (h : ∀ file, ¬ Session.HasConfig s source file) :
    ∃ failure,
      ((Command.generate source outputFolder unformatted).run (m := StateM Session)).run.run s
        = (.error failure, s) := by
  obtain ⟨failure, hfailure⟩ := run_fileLayer_of_not_hasConfig h
  exact ⟨failure, run_bind_of_error (run_bind_of_error hfailure)⟩

end CommandLine

end TypedClient
