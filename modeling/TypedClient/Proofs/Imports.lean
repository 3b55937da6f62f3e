import TypedClient.Package.Basic
import TypedClient.Proofs.ClientRun
import TypedClient.Proofs.NameSets

/-! # Imported and skipped names

    Which type names the functions of a package import, and which ones are
    reported as skipped.

    * **Sources**: schemas and the text of the functions give declared names
      only. The one source of other names is the reference that the schema of
      a body is itself.
    * **Declarations**: an imported name opens an interface in the file of
      declarations, and nothing that is cut off at the end of the file belongs
      to that line.
-/

namespace TypedClient

/-! ### Sources of names -/

/-- Declared names alone are found in the text of the functions. -/
theorem Scan.declares_of_mem_mentions {text : String} {definitions : Definitions} {name : String}
    (h : name ∈ mentions text definitions) : definitions.declares name = true :=
  (List.mem_filter.1 (NameSet.mem_ofNames.1 h)).2

theorem Schema.filter_mentions (s : Schema) (definitions : Definitions) :
    (s.mentions definitions).filter (fun name => !definitions.declares name) = [] := by
  apply List.filter_eq_nil_iff.2
  intro name hname
  simp [declares_of_mem_mentions hname]

namespace OperationSite

/-- The type name behind the reference that the schema of the body of a site is
    itself. -/
def bodyReference? (site : OperationSite) : Option String :=
  site.bodySchema?.bind (fun schema =>
    schema.reference.map (fun r => Name.typeName (Name.referenceName r)))

/-- The mentions of a body that nothing declares: its own reference, or none. -/
theorem filter_bodyMentions (schema : Schema) (definitions : Definitions) :
    (bodyMentions schema definitions).filter (fun name => !definitions.declares name)
      = ((schema.reference.map (fun r => Name.typeName (Name.referenceName r))).toList).filter
          (fun name => !definitions.declares name) := by
  rw [bodyMentions, List.filter_append, schema.filter_mentions, List.append_nil]

/-- **One source**: of all names that a site mentions, nothing but the own
    reference of its body may be undeclared. -/
theorem filter_mentions (site : OperationSite) (definitions : Definitions) :
    (site.mentions definitions).filter (fun name => !definitions.declares name)
      = site.bodyReference?.toList.filter (fun name => !definitions.declares name) := by
  have hplace : ∀ location,
      (mentionsOf site.declared location definitions).filter
        (fun name => !definitions.declares name) = [] := by
    intro location
    rw [mentionsOf, List.filter_flatMap]
    exact List.flatMap_eq_nil_iff.2 (fun p _ => p.effectiveSchema.filter_mentions definitions)
  rw [mentions, Operation.mentions, List.filter_append, List.filter_append, List.filter_append,
    hplace, hplace, bodyReference?, bodySchema?]
  cases site.operation.bodySchema? site.declared with
  | none =>
    cases site.operation.success?.bind Response.jsonSchema? with
    | none => rfl
    | some returned => simp [Schema.filter_mentions]
  | some found =>
    have hbody := filter_bodyMentions found.1 definitions
    cases site.operation.success?.bind Response.jsonSchema? with
    | none => simpa using hbody
    | some returned => simpa [Schema.filter_mentions] using hbody

end OperationSite

/-! ### Declarations in their file -/

/-- Trimming the end of a text leaves alone what stands before something that
    is not trimmed away. -/
theorem Text.trimEnd_append {s t : List Char} (h : trimEnd t ≠ []) :
    trimEnd (s ++ t) = s ++ trimEnd t := by
  induction s with
  | nil => rfl
  | cons c r ih =>
    rw [List.cons_append, trimEnd, ih]
    cases hr : r ++ trimEnd t with
    | nil => exact absurd (List.append_eq_nil_iff.1 hr).2 h
    | cons d u => rw [List.cons_append, hr]

/-- A text is trimmed away only if it is blank. -/
theorem Text.isBlank_of_trimEnd_eq_nil {s : List Char} (h : trimEnd s = []) :
    ∀ c ∈ s, isBlank c = true := by
  induction s with
  | nil => intro c hc; simp at hc
  | cons d r ih =>
    rw [trimEnd] at h
    split at h
    · rename_i hr
      intro c hc
      rcases List.mem_cons.1 hc with rfl | hc
      · by_cases hblank : isBlank c = true
        · exact hblank
        · simp [hblank] at h
      · exact ih hr c hc
    · simp at h

/-- The pieces of a declaration: something in front, its first line, and
    something behind with a brace in it. -/
theorem Declaration.concat_pieces (d : Declaration) (withoutComments : Bool) :
    ∃ before behind, Piece.concat withoutComments d.pieces = before ++ d.opening ++ behind
      ∧ '\x7d' ∈ behind := by
  refine ⟨'\n' :: (if withoutComments then [] else d.comment),
    Piece.concat withoutComments (d.members ++ [⟨[], "\x7d\n".toList⟩]), ?_, ?_⟩
  · cases withoutComments <;> simp [Piece.concat, pieces, Piece.chars]
  · cases withoutComments <;> simp [Piece.concat, Piece.chars]

/-- **In the file**: every declaration opens an interface there. -/
theorem Client.opening_infix {c : Client} {d : Declaration} (h : d ∈ c.declarations)
    (options : PackageOptions) : d.opening <:+: (c.interfacesFile options).toList := by
  obtain ⟨first, last, hsplit⟩ := List.append_of_mem h
  obtain ⟨before, behind, hpieces, hbrace⟩ := d.concat_pieces options.withoutComments
  have htext : ∃ front, Comment.header c.source ++ ['\n']
      ++ Piece.concat options.withoutComments (c.declarations.flatMap Declaration.pieces)
        = front ++ d.opening ++ (behind ++ Piece.concat options.withoutComments
            (last.flatMap Declaration.pieces)) := by
    refine ⟨Comment.header c.source ++ ['\n']
      ++ Piece.concat options.withoutComments (first.flatMap Declaration.pieces) ++ before, ?_⟩
    rw [hsplit, List.flatMap_append, List.flatMap_cons]
    simp only [Piece.concat, List.flatMap_append] at hpieces ⊢
    rw [hpieces]
    simp only [List.append_assoc]
  obtain ⟨front, hfront⟩ := htext
  -- The brace behind the line keeps the end of the file away from it.
  have hkept : Text.trimEnd (behind ++ Piece.concat options.withoutComments
      (last.flatMap Declaration.pieces)) ≠ [] := by
    intro hnil
    have hblank := Text.isBlank_of_trimEnd_eq_nil hnil '\x7d' (List.mem_append_left _ hbrace)
    exact absurd hblank (by decide)
  rw [interfacesFile, finished, String.toList_ofList, hfront, Text.trimEnd_append hkept]
  exact ⟨front, _, by simp only [List.append_assoc]; rfl⟩

/-! ### Packages of documents -/

/-- The package of a document. -/
def Document.package (d : Document) (source : String) (options : PackageOptions) : Package :=
  ((d.client source).value.package options).value

namespace Document

variable (d : Document) (source : String) (options : PackageOptions)

/-- The names that the text of the functions adds. -/
def scanned : NameSet :=
  Scan.mentions (String.ofList ((d.client source).value.functions options)) d.allDefinitions

/-- All names that the functions use: those that the sites mention, then those
    found in the text. -/
def usedNames : List String :=
  d.sites.flatMap (·.mentions d.allDefinitions) ++ d.scanned source options

/-- The names that the functions use, told apart by whether they are declared. -/
theorem imports_client :
    (d.client source).value.imports options
      = (Name.distinct ((d.usedNames source options).filter d.allDefinitions.declares),
          Name.distinct ((d.usedNames source options).filter
            (fun name => !d.allDefinitions.declares name))) := by
  rw [Client.imports, used_client, definitions_client, NameSet.merge_ofNames, NameSet.ofNames_eq,
    NameSet.partition, List.partition_eq_filter_filter, Name.filter_distinct, Name.filter_distinct]
  rfl

/-- The imported names are the declared ones among all names. -/
theorem imported_eq :
    (d.package source options).imported
      = Name.distinct ((d.usedNames source options).filter d.allDefinitions.declares) :=
  congrArg Prod.fst (d.imports_client source options)

theorem skipped_eq :
    (d.package source options).skipped
      = Name.distinct
          ((d.usedNames source options).filter (fun name => !d.allDefinitions.declares name)) :=
  congrArg Prod.snd (d.imports_client source options)

/-- A name is imported if it is declared and used. -/
theorem mem_imported {name : String} :
    name ∈ (d.package source options).imported
      ↔ name ∈ d.usedNames source options ∧ d.allDefinitions.declares name = true := by
  rw [imported_eq, Name.mem_distinct, List.mem_filter]

/-- The undeclared names are the own references of bodies, in reading order. -/
theorem filter_usedNames :
    (d.usedNames source options).filter (fun name => !d.allDefinitions.declares name)
      = (d.sites.filterMap (·.bodyReference?)).filter
          (fun name => !d.allDefinitions.declares name) := by
  have hscanned : (d.scanned source options).filter (fun name => !d.allDefinitions.declares name)
      = [] := by
    apply List.filter_eq_nil_iff.2
    intro name hname
    simp [Scan.declares_of_mem_mentions hname]
  rw [usedNames, List.filter_append, hscanned, List.append_nil]
  induction d.sites with
  | nil => rfl
  | cons site rest ih =>
    rw [List.flatMap_cons, List.filter_append, site.filter_mentions, ih]
    cases h : site.bodyReference? with
    | none => simp [h]
    | some name =>
      simp only [Option.toList_some, List.filterMap_cons, h, List.filter_cons, List.filter_nil]
      split
      · rfl
      · rfl

/-- **Imports and skips**: the imported names are free of repeats and each opens
    an interface in the first file of the package. The skipped names are free of
    repeats, none of them is imported, and they are the names of the references
    that bodies are themselves, as far as nothing declares them, in the order in
    which they are first seen. -/
theorem imports_sound_and_skips_exact :
    (d.package source options).imported.Nodup
      ∧ (∀ name ∈ (d.package source options).imported,
          ∃ declaration ∈ (d.client source).value.declarations,
            declaration.name.pascal = name
              ∧ ∃ file ∈ (d.package source options).files.head?,
                  file.path = options.typesModule ++ ".ts"
                    ∧ declaration.opening <:+: file.content.toList)
      ∧ (d.package source options).skipped.Nodup
      ∧ (∀ name ∈ (d.package source options).skipped,
          name ∉ (d.package source options).imported)
      ∧ (d.package source options).skipped
          = Name.distinct ((d.sites.filterMap (·.bodyReference?)).filter
              (fun name => name ∉ d.allDefinitions.typeNames)) := by
  refine ⟨?_, ?_, ?_, ?_, ?_⟩
  · rw [imported_eq]
    exact Name.nodup_distinct _
  · intro name hname
    have hdeclared := ((d.mem_imported source options).1 hname).2
    obtain ⟨key, hkey, rfl⟩ := List.mem_map.1 (Definitions.declares_iff.1 hdeclared)
    obtain ⟨entry, hentry, rfl⟩ := List.mem_map.1 hkey
    have hmem : entry.2.declaration entry.1 ∈ (d.client source).value.declarations := by
      rw [declarations_client]
      exact List.mem_map.2 ⟨entry, hentry, rfl⟩
    exact ⟨entry.2.declaration entry.1, hmem, rfl, _, rfl, rfl,
      Client.opening_infix hmem options⟩
  · rw [skipped_eq]
    exact Name.nodup_distinct _
  · intro name hskipped himported
    rw [skipped_eq, Name.mem_distinct, List.mem_filter] at hskipped
    have hdeclared := ((d.mem_imported source options).1 himported).2
    simp [hdeclared] at hskipped
  · rw [skipped_eq, filter_usedNames]
    congr 1
    apply List.filter_congr
    intro name _
    rw [Bool.eq_iff_iff]
    simp [← Definitions.declares_iff]

end Document

end TypedClient
