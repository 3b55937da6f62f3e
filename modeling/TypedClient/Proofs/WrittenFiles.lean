import Mathlib.Data.List.Nodup
import TypedClient.CommandLine.Run
import TypedClient.Proofs.CommentBlocks
import TypedClient.Proofs.CommentEnds
import TypedClient.Proofs.FileTrees

/-! # Files that have been written

    What is on the disk after a package has been written into a folder.

    * **One file**: it reads back, and every other path reads what it did before, unless
      it leads to the same place.
    * **All files** read back exactly if no two of them with different contents go to
      one place. A later file replaces an earlier one there without a word.
    * **The three files of a package** have different contents. The names of the files of
      functions and of exports are fixed, but the name of the file of declarations is a
      choice, and it may be one of these.
-/

namespace TypedClient

/-! ### Places in a folder -/

namespace PathText

theorem suffix_toList_join (folder path : String) :
    path.toList <:+ (join folder path).toList := by
  unfold join
  split
  · exact List.suffix_rfl
  · split
    · exact List.suffix_rfl
    · rw [String.toList_append]
      exact List.suffix_append _ _
    · rw [String.toList_append]
      exact List.suffix_append _ _

theorem getLast?_join {folder path : String} {c : Char} (h : path.toList.getLast? = some c) :
    (join folder path).toList.getLast? = some c := by
  obtain ⟨front, hfront⟩ := suffix_toList_join folder path
  rw [← hfront, List.getLast?_append, h]
  rfl

theorem join_empty (path : String) : join "" path = path := by
  unfold join
  split <;> rfl

/-- There is one slash between a folder and a path inside it, which may be that at the
    end of the folder. -/
theorem exists_stem_of_join {folder path : String} (hfolder : folder ≠ "")
    (hpath : isAbsolute path = false) :
    ∃ stem, (join folder path).toList = stem ++ '/' :: path.toList
      ∧ (folder.toList = stem ∨ folder.toList = stem ++ ['/']) := by
  unfold join
  rw [hpath, if_neg Bool.false_ne_true]
  split
  · rename_i hnone
    exact absurd (String.toList_eq_nil_iff.1 (List.getLast?_eq_none_iff.1 hnone)) hfolder
  · rename_i hslash
    obtain ⟨stem, hstem⟩ := List.getLast?_eq_some_iff.1 hslash
    refine ⟨stem, ?_, .inr hstem⟩
    rw [String.toList_append, hstem, List.append_assoc]
    rfl
  · refine ⟨folder.toList, ?_, .inl rfl⟩
    rw [String.toList_append, String.toList_append, List.append_assoc]
    rfl

end PathText

/-- The name of a file in a folder, without a way to it. -/
structure IsFileName (name : String) : Prop where
  plain : '/' ∉ name.toList
  long : 2 < name.toList.length

namespace IsFileName

variable {name : String}

theorem ofPiece? (h : IsFileName name) : PathStep.ofPiece? name.toList = some (.down name) := by
  have hlong := h.long
  unfold PathStep.ofPiece?
  split
  · simp_all
  · simp_all
  · simp_all
  · rw [String.ofList_toList]

theorem not_isAbsolute (h : IsFileName name) : PathText.isAbsolute name = false := by
  rw [PathText.isAbsolute, beq_eq_false_iff_ne]
  intro hhead
  exact h.plain (List.mem_of_mem_head? hhead)

/-- The parts of a path into a folder are those of the folder, and then the name. -/
theorem start_and_ofPath_join (h : IsFileName name) (t : FileTree) (folder : String) :
    t.start (PathText.join folder name) = t.start folder
      ∧ PathStep.ofPath (PathText.join folder name) = PathStep.ofPath folder ++ [.down name] := by
  have hname : (Text.cutAt '/' name.toList).filterMap PathStep.ofPiece? = [.down name] := by
    rw [Text.cutAt_of_not_mem h.plain, List.filterMap_cons_some h.ofPiece?, List.filterMap_nil]
  by_cases hnone : folder = ""
  · subst hnone
    rw [PathText.join_empty]
    refine ⟨?_, hname⟩
    rw [FileTree.start, h.not_isAbsolute]
    rfl
  · obtain ⟨stem, hjoin, hfolder⟩ := PathText.exists_stem_of_join hnone h.not_isAbsolute
    have hsteps : PathStep.ofPath (PathText.join folder name)
        = (Text.cutAt '/' stem).filterMap PathStep.ofPiece? ++ [.down name] := by
      rw [PathStep.ofPath, hjoin, Text.cutAt_append_cons, List.filterMap_append, hname]
    rw [hsteps, FileTree.start, FileTree.start, PathText.isAbsolute, PathText.isAbsolute, hjoin,
      PathStep.ofPath]
    rcases hfolder with hfolder | hfolder
    · -- The slash between the two is a new one.
      rw [hfolder]
      cases stem with
      | nil => exact absurd (String.toList_eq_nil_iff.1 hfolder) hnone
      | cons c r => exact ⟨rfl, rfl⟩
    · rw [hfolder, Text.cutAt_append_cons, List.filterMap_append]
      constructor
      · cases stem <;> rfl
      · exact congrArg (· ++ _) (List.append_nil _).symm

/-- A file goes to a place of its own in the folder. -/
theorem destination_join (h : IsFileName name) (t : FileTree) (folder : String) :
    t.destination (PathText.join folder name) = t.destination folder ++ [name] := by
  obtain ⟨hstart, hsteps⟩ := h.start_and_ofPath_join t folder
  rw [FileTree.destination, hstart, hsteps, List.foldl_append]
  rfl

end IsFileName

end TypedClient

namespace TypedClient.CommandLine

open FileTree PathText

variable {α β : Type} {s s' : Session}

/-! ### Acts that succeed -/

/-- Whether an act in a session succeeds, with a value and a session behind it. -/
def Completes (act : ExceptT Failure (StateM Session) α) (s : Session) (a : α) (s' : Session) :
    Prop :=
  act.run.run s = (.ok a, s')

theorem exists_completes {act : ExceptT Failure (StateM Session) Unit}
    (h : (act.run.run s).1.toBool = true) : ∃ s', Completes act s () s' := by
  refine ⟨(act.run.run s).2, ?_⟩
  unfold Completes
  rcases hact : act.run.run s with ⟨e | ⟨⟩, after⟩
  · rw [hact] at h
    cases h
  · rfl

/-- Acts one after the other succeed exactly if each of them does. -/
theorem completes_bind_iff {act : ExceptT Failure (StateM Session) α}
    {next : α → ExceptT Failure (StateM Session) β} {b : β} :
    Completes (act >>= next) s b s'
      ↔ ∃ a middle, Completes act s a middle ∧ Completes (next a) middle b s' := by
  unfold Completes
  rw [ExceptT.run_bind, StateT.run_bind]
  rcases hact : act.run.run s with ⟨e | a, middle⟩
  · constructor
    · intro h
      cases h
    · rintro ⟨_, _, h, -⟩
      cases h
  · constructor
    · intro h
      exact ⟨a, middle, rfl, h⟩
    · rintro ⟨_, _, h, hnext⟩
      cases h
      exact hnext

/-- A change that succeeds leaves the tree that it gives. -/
theorem eq_ok_of_change {failure : FileError → Failure} {outcome : Except FileError FileTree}
    (h : ((s.change outcome).1.mapError failure, (s.change outcome).2) = (.ok (), s')) :
    outcome = .ok s'.tree := by
  cases outcome with
  | error e => cases h
  | ok t =>
    cases h
    rfl

theorem completes_makeFolders {failure : FileError → Failure} {path : String}
    (h : Completes (orFail failure (Surroundings.makeFolders path)) s () s') :
    s.tree.AddsFolders s'.tree := by
  apply addsFolders_makeFolders
  exact eq_ok_of_change h

theorem completes_writeText {failure : FileError → Failure} {path text : String}
    (h : Completes (orFail failure (Surroundings.writeText path text)) s () s') :
    s.tree.writeText path text = .ok s'.tree :=
  eq_ok_of_change h

theorem completes_tell {text : String}
    (h : Completes (liftM (Surroundings.tell (m := StateM Session) text)) s () s') :
    s'.tree = s.tree := by
  cases h
  rfl

/-! ### One file -/

/-- Where a file of a folder goes. -/
def Session.destination (s : Session) (folder : String) (file : GeneratedFile) : FilePlace :=
  s.tree.destination (join folder file.path)

theorem Session.destination_eq {folder : String} (h : s'.tree.working = s.tree.working) :
    s'.destination folder = s.destination folder := by
  funext file
  exact destination_eq_of_working h

/-- Whether a file of a folder has its own content. -/
def Session.ReadsBack (s : Session) (folder : String) (file : GeneratedFile) : Prop :=
  s.tree.readText (join folder file.path) = .ok file.content

variable {folder path text : String} {file : GeneratedFile} {files : List GeneratedFile}

/-- A file is written behind the folders around it. -/
theorem exists_of_writeFile (h : Completes (writeFile folder file) s () s') :
    ∃ t, s.tree.AddsFolders t ∧ t.writeText (join folder file.path) file.content = .ok s'.tree := by
  unfold writeFile at h
  cases hparent : parent? (join folder file.path) with
  | none =>
    simp only [hparent] at h
    obtain ⟨_, written, hwrite, htell⟩ := completes_bind_iff.1 h
    rw [completes_tell htell]
    exact ⟨s.tree, .refl _, completes_writeText hwrite⟩
  | some parent =>
    simp only [hparent] at h
    obtain ⟨_, made, hmake, h⟩ := completes_bind_iff.1 h
    obtain ⟨_, written, hwrite, htell⟩ := completes_bind_iff.1 h
    rw [completes_tell htell]
    exact ⟨made.tree, completes_makeFolders hmake, completes_writeText hwrite⟩

/-- **Read back**: the file that has just been written has its own content. -/
theorem readsBack_of_writeFile
    (hname : (join folder file.path).toList.getLast? ≠ some '/')
    (h : Completes (writeFile folder file) s () s') : s'.ReadsBack folder file := by
  obtain ⟨t, -, hwrite⟩ := exists_of_writeFile h
  exact readText_of_writeText hname hwrite

theorem working_of_writeFile (h : Completes (writeFile folder file) s () s') :
    s'.tree.working = s.tree.working := by
  obtain ⟨t, hmade, hwrite⟩ := exists_of_writeFile h
  rw [working_writeText hwrite, hmade.working]

/-- **The step**: another path reads what it did before, unless it leads to where the
    file goes. -/
theorem readText_after_writeFile (h : Completes (writeFile folder file) s () s')
    (hread : s.tree.readText path = .ok text) :
    s'.tree.readText path
      = .ok (if s.tree.destination path = s.destination folder file then file.content else text) := by
  obtain ⟨t, hmade, hwrite⟩ := exists_of_writeFile h
  rw [readText_after_writeText hwrite (hmade.readText hread),
    destination_eq_of_working hmade.working, destination_eq_of_working hmade.working]
  rfl

/-! ### All files -/

theorem completes_forM_cons {rest : List GeneratedFile}
    (h : Completes ((file :: rest).forM (writeFile folder)) s () s') :
    ∃ middle, Completes (writeFile folder file) s () middle
      ∧ Completes (rest.forM (writeFile folder)) middle () s' := by
  have hboth : Completes (writeFile folder file >>= fun _ => rest.forM (writeFile folder)) s () s' :=
    h
  obtain ⟨_, middle, hfile, hrest⟩ := completes_bind_iff.1 hboth
  exact ⟨middle, hfile, hrest⟩

theorem working_of_forM (h : Completes (files.forM (writeFile folder)) s () s') :
    s'.tree.working = s.tree.working := by
  induction files generalizing s with
  | nil =>
    cases h
    rfl
  | cons file rest ih =>
    obtain ⟨middle, hfile, hrest⟩ := completes_forM_cons h
    rw [ih hrest, working_of_writeFile hfile]

/-- **The run**: what is read stays, as long as nothing else goes there. -/
theorem readText_after_forM (h : Completes (files.forM (writeFile folder)) s () s')
    (hread : s.tree.readText path = .ok text)
    (hsame : ∀ file ∈ files, s.tree.destination path = s.destination folder file →
      file.content = text) :
    s'.tree.readText path = .ok text := by
  induction files generalizing s with
  | nil =>
    cases h
    exact hread
  | cons file rest ih =>
    obtain ⟨middle, hfile, hrest⟩ := completes_forM_cons h
    have hworking := working_of_writeFile hfile
    obtain ⟨hhead, htail⟩ := List.forall_mem_cons.1 hsame
    apply ih hrest
    · -- The first file holds the same text where it goes to the same place.
      rw [readText_after_writeFile hfile hread]
      split_ifs with hdest
      · rw [hhead hdest]
      · rfl
    · intro other hother hdest
      rw [Session.destination_eq hworking, destination_eq_of_working hworking] at hdest
      exact htail other hother hdest

/-- Files that were written one by one all read back exactly if those that went to one
    place have one content. -/
theorem readsBack_forM_iff
    (hnames : ∀ file ∈ files, (join folder file.path).toList.getLast? ≠ some '/')
    (h : Completes (files.forM (writeFile folder)) s () s') :
    (∀ file ∈ files, s'.ReadsBack folder file)
      ↔ ∀ file ∈ files, ∀ other ∈ files,
          s.destination folder file = s.destination folder other →
          file.content = other.content := by
  constructor
  · intro hread file hfile other hother hdest
    rw [← Session.destination_eq (working_of_forM h)] at hdest
    exact readText_eq_of_destination_eq hdest (hread file hfile) (hread other hother)
  · -- From the front: a file reads back when it has been written, and the run behind it
    -- keeps what it reads.
    intro hsame
    induction files generalizing s with
    | nil => exact fun _ hfile => absurd hfile List.not_mem_nil
    | cons first rest ih =>
      obtain ⟨middle, hfirst, hrest⟩ := completes_forM_cons h
      obtain ⟨hname, hnames⟩ := List.forall_mem_cons.1 hnames
      have hworking := working_of_writeFile hfirst
      rw [List.forall_mem_cons]
      constructor
      · refine readText_after_forM hrest (readsBack_of_writeFile hname hfirst) ?_
        intro other hother hdest
        rw [Session.destination_eq hworking, destination_eq_of_working hworking] at hdest
        exact hsame other (List.mem_cons_of_mem _ hother) first List.mem_cons_self hdest.symm
      · refine ih hnames hrest ?_
        intro file hfile other hother hdest
        rw [Session.destination_eq hworking] at hdest
        exact hsame file (List.mem_cons_of_mem _ hfile) other (List.mem_cons_of_mem _ hother) hdest

/-- Where the files behind the first one go to places of their own, these read back.
    So does the first one, unless it goes to the place of a file with another content. -/
theorem readsBack_cons_iff {rest : List GeneratedFile}
    (hnames : ∀ other ∈ file :: rest, (join folder other.path).toList.getLast? ≠ some '/')
    (hplaces : (rest.map (s.destination folder)).Nodup)
    (hcontents : ∀ other ∈ rest, file.content ≠ other.content)
    (h : Completes ((file :: rest).forM (writeFile folder)) s () s') :
    (∀ other ∈ rest, s'.ReadsBack folder other)
      ∧ (s'.ReadsBack folder file
          ↔ s.destination folder file ∉ rest.map (s.destination folder)) := by
  obtain ⟨middle, hfirst, hrest⟩ := completes_forM_cons h
  obtain ⟨hname, hnames⟩ := List.forall_mem_cons.1 hnames
  have hmiddle : middle.destination folder = s.destination folder :=
    Session.destination_eq (working_of_writeFile hfirst)
  have hend : s'.destination folder = s.destination folder :=
    Session.destination_eq (working_of_forM h)
  have hothers : ∀ other ∈ rest, s'.ReadsBack folder other := by
    rw [readsBack_forM_iff hnames hrest, hmiddle]
    intro a ha b hb hdest
    rw [List.inj_on_of_nodup_map hplaces ha hb hdest]
  refine ⟨hothers, ?_, ?_⟩
  · intro hread hmem
    obtain ⟨other, hother, hdest⟩ := List.mem_map.1 hmem
    rw [← hend] at hdest
    exact hcontents other hother
      (readText_eq_of_destination_eq hdest.symm hread (hothers other hother))
  · intro hnot
    refine readText_after_forM hrest (readsBack_of_writeFile hname hfirst) ?_
    intro other hother hdest
    have hsame : s.destination folder file = s.destination folder other := by
      rw [← hmiddle]
      exact hdest
    exact absurd (List.mem_map.2 ⟨other, hother, hsame.symm⟩) hnot

end TypedClient.CommandLine

namespace TypedClient

/-! ### The contents of a package -/

/-- Texts that begin in different ways are different. -/
theorem not_prefix_both {x y text : List Char} (hxy : ¬ x <+: y) (hyx : ¬ y <+: x)
    (hx : x <+: text) : ¬ y <+: text := by
  intro hy
  rcases List.prefix_or_prefix_of_prefix hx hy with h | h
  · exact hxy h
  · exact hyx h

/-- A block has its first line before anything else. -/
theorem Comment.prefix_block {lines : List (List Char)} (h : block lines ≠ []) :
    "/**\n".toList <+: block lines := by
  cases lines with
  | nil => exact absurd rfl h
  | cons line rest =>
    rw [block, List.append_assoc]
    exact List.prefix_append _ _

/-- An interface begins with a comment, or with the words that declare it. -/
theorem Declaration.prefix_concat_pieces (d : Declaration) (withoutComments : Bool) :
    '\n' :: "/**\n".toList <+: Piece.concat withoutComments d.pieces
      ∨ '\n' :: "export interface ".toList <+: Piece.concat withoutComments d.pieces := by
  have hopening : "export interface ".toList <+: d.opening :=
    (List.prefix_append _ _).trans (List.prefix_append _ _)
  have hshape : Piece.concat withoutComments d.pieces
      = '\n' :: ((if withoutComments then [] else d.comment) ++ (d.opening
          ++ Piece.concat withoutComments (d.members ++ [⟨[], "\x7d\n".toList⟩]))) := by
    have htext : (⟨d.comment, d.opening⟩ : Piece).chars withoutComments
        = (if withoutComments then [] else d.comment) ++ d.opening :=
      rfl
    have hfeed : (⟨[], ['\n']⟩ : Piece).chars withoutComments = ['\n'] := by
      cases withoutComments <;> rfl
    rw [pieces, Piece.concat, List.cons_append, List.flatMap_cons, hfeed, List.cons_append,
      List.cons_append, List.flatMap_cons, htext, List.append_assoc]
    rfl
  rw [hshape, List.prefix_cons_inj, List.prefix_cons_inj]
  by_cases hcomment : withoutComments = true ∨ d.comment = []
  · right
    have hnone : (if withoutComments then [] else d.comment) = [] := by
      rcases hcomment with h | h <;> simp [h]
    rw [hnone]
    exact hopening.trans (List.prefix_append _ _)
  · left
    obtain ⟨hkept, hcomment⟩ := not_or.1 hcomment
    rw [if_neg hkept]
    exact (Comment.prefix_block hcomment).trans (List.prefix_append _ _)

namespace Client

variable (c : Client) (options : PackageOptions)

/-- What the file of declarations has behind its header. -/
theorem exists_behind_header_interfacesFile : ∃ behind,
    (c.interfacesFile options).toList = Comment.header c.source ++ behind
      ∧ (behind = ['\n'] ∨ '\n' :: '\n' :: "/**\n".toList <+: behind
          ∨ '\n' :: '\n' :: "export interface ".toList <+: behind) := by
  have hshape : (c.interfacesFile options).toList = Comment.header c.source
      ++ '\n' :: Piece.concat options.withoutComments
        (c.declarations.flatMap Declaration.pieces) := by
    rw [toList_interfacesFile, interfacesPieces]
    show Comment.header c.source ++ ['\n'] ++ Piece.concat false (List.map _ _) = _
    rw [Piece.concat_map_kept, List.append_assoc]
    rfl
  refine ⟨_, hshape, ?_⟩
  cases c.declarations with
  | nil => exact .inl rfl
  | cons d rest =>
    rw [List.flatMap_cons, Piece.concat_append]
    rcases d.prefix_concat_pieces options.withoutComments with hfirst | hfirst
    · exact .inr (.inl (List.cons_prefix_cons.2 ⟨rfl, hfirst.trans (List.prefix_append _ _)⟩))
    · exact .inr (.inr (List.cons_prefix_cons.2 ⟨rfl, hfirst.trans (List.prefix_append _ _)⟩))

theorem exists_behind_header_apiFile (imported : List String) : ∃ behind,
    (c.apiFile options imported).toList = Comment.header c.source ++ behind
      ∧ "\n\nimport ".toList <+: behind := by
  rw [toList_apiFile_eq, apiPieces, Piece.concat, List.flatMap_cons, Piece.chars,
    if_neg Bool.false_ne_true]
  simp only [List.append_assoc]
  exact ⟨_, rfl, List.prefix_append _ _⟩

theorem exists_behind_header_indexFile : ∃ behind,
    (c.indexFile options).toList = Comment.header c.source ++ behind
      ∧ "\n\nexport * from './".toList <+: behind := by
  refine ⟨"\n\nexport * from './".toList ++ (options.typesModule.toList
    ++ "';\nexport * from './api';\n".toList), ?_, List.prefix_append _ _⟩
  rw [toList_indexFile, indexPieces, Piece.concat, List.flatMap_cons, Piece.chars,
    if_neg Bool.false_ne_true, List.flatMap_nil, List.append_nil, List.append_assoc]

/-- The three files of a package have three contents. -/
theorem contents_ne (imported : List String) :
    c.interfacesFile options ≠ c.apiFile options imported
      ∧ c.interfacesFile options ≠ c.indexFile options
      ∧ c.apiFile options imported ≠ c.indexFile options := by
  obtain ⟨declared, hdeclared, hopening⟩ := c.exists_behind_header_interfacesFile options
  obtain ⟨called, hcalled, himport⟩ := c.exists_behind_header_apiFile options imported
  obtain ⟨exported, hexported, hexport⟩ := c.exists_behind_header_indexFile options
  have hsame {text text' : String} {behind behind' : List Char}
      (htext : text.toList = Comment.header c.source ++ behind)
      (htext' : text'.toList = Comment.header c.source ++ behind')
      (hne : behind ≠ behind') : text ≠ text' := by
    rintro rfl
    exact hne (List.append_cancel_left (htext.symm.trans htext'))
  refine ⟨hsame hdeclared hcalled ?_, hsame hdeclared hexported ?_, hsame hcalled hexported ?_⟩
  · rintro rfl
    rcases hopening with rfl | hcomment | hinterface
    · exact absurd himport (by decide)
    · exact not_prefix_both (by decide) (by decide) hcomment himport
    · exact not_prefix_both (by decide) (by decide) hinterface himport
  · rintro rfl
    rcases hopening with rfl | hcomment | hinterface
    · exact absurd hexport (by decide)
    · exact not_prefix_both (by decide) (by decide) hcomment hexport
    · exact not_prefix_both (by decide) (by decide) hinterface hexport
  · rintro rfl
    exact not_prefix_both (by decide) (by decide) himport hexport

end Client

end TypedClient

namespace TypedClient.CommandLine

open PathText

variable (c : Client) (options : PackageOptions) (folder : String) {s s' : Session}

theorem Completes.of_writeFiles {files : List GeneratedFile}
    (h : Completes (writeFiles folder files) s () s') :
    ∃ made, s.tree.AddsFolders made.tree
      ∧ Completes (files.forM (writeFile folder)) made () s' := by
  obtain ⟨_, made, hmade, hfiles⟩ := completes_bind_iff.1 h
  exact ⟨made, completes_makeFolders hmade, hfiles⟩

/-- The file names of a package end with the letters of their extension. -/
theorem getLast?_file_ne {file : GeneratedFile} (h : file ∈ (c.package options).value.files) :
    (join folder file.path).toList.getLast? ≠ some '/' := by
  have hend : ∀ name : String, (name ++ ".ts").toList.getLast? = some 's' := by
    intro name
    rw [String.toList_append, List.getLast?_append]
    rfl
  have hlast : file.path.toList.getLast? = some 's' := by
    simp only [Client.package, List.mem_cons, List.not_mem_nil, or_false] at h
    rcases h with rfl | rfl | rfl
    · exact hend options.typesModule
    · exact hend "api"
    · exact hend "index"
  rw [getLast?_join hlast]
  decide

/-- A name with the extension is a file name, unless there is a slash in it. -/
theorem isFileName_append {name : String} (h : '/' ∉ name.toList) : IsFileName (name ++ ".ts") where
  plain := by
    rw [String.toList_append, List.mem_append, not_or]
    exact ⟨h, by decide⟩
  long := by
    rw [String.toList_append, List.length_append]
    exact Nat.lt_of_lt_of_le (by decide) (Nat.le_add_left _ _)

/-- **What is on the disk**: once the files of a package have been written, those of
    functions and exports have their own contents. So has the file of declarations,
    unless its name leads to where one of these goes. Of the names without a slash, two
    do. -/
theorem package_readsBack_iff
    (h : Completes (writeFiles folder (c.package options).value.files) s () s') :
    (∀ file ∈ (c.package options).value.files.tail, s'.ReadsBack folder file)
      ∧ ((∀ file ∈ (c.package options).value.files, s'.ReadsBack folder file)
          ↔ s.tree.destination (join folder (options.typesModule ++ ".ts"))
              ∉ ["api.ts", "index.ts"].map (fun name => s.tree.destination (join folder name)))
      ∧ ('/' ∉ options.typesModule.toList →
          ((∀ file ∈ (c.package options).value.files, s'.ReadsBack folder file)
            ↔ options.typesModule ∉ ["api", "index"])) := by
  obtain ⟨made, hmade, hfiles⟩ := Completes.of_writeFiles folder h
  have hplace : ∀ path, made.tree.destination path = s.tree.destination path :=
    fun path => FileTree.destination_eq_of_working hmade.working
  have hname : ∀ name : String, '/' ∉ name.toList →
      s.tree.destination (join folder (name ++ ".ts"))
        = s.tree.destination folder ++ [name ++ ".ts"] :=
    fun name hplain => (isFileName_append hplain).destination_join s.tree folder
  have hapi : s.tree.destination (join folder "api.ts") = s.tree.destination folder ++ ["api.ts"] :=
    hname "api" (by decide)
  have hindex : s.tree.destination (join folder "index.ts")
      = s.tree.destination folder ++ ["index.ts"] :=
    hname "index" (by decide)
  obtain ⟨hcalls, hexports, -⟩ := c.contents_ne options (c.imports options).1
  obtain ⟨hothers, hfirst⟩ := readsBack_cons_iff
    (fun file => getLast?_file_ne c options folder)
    (by simp [Session.destination, hplace, hapi, hindex])
    (by simpa using ⟨hcalls, hexports⟩) hfiles
  have hall : (∀ file ∈ (c.package options).value.files, s'.ReadsBack folder file)
      ↔ s.tree.destination (join folder (options.typesModule ++ ".ts"))
          ∉ ["api.ts", "index.ts"].map (fun name => s.tree.destination (join folder name)) := by
    rw [Session.destination_eq hmade.working] at hfirst
    exact List.forall_mem_cons.trans ((and_iff_left hothers).trans hfirst)
  refine ⟨hothers, hall, ?_⟩
  intro hplain
  have hsame : ∀ name, s.tree.destination folder ++ [options.typesModule ++ ".ts"]
      = s.tree.destination folder ++ [name ++ ".ts"] ↔ options.typesModule = name := by
    simp
  rw [hall, hname _ hplain, List.map_cons, List.map_cons, List.map_nil, hapi, hindex]
  simp only [List.mem_cons, List.not_mem_nil, or_false]
  exact not_congr (or_congr (hsame "api") (hsame "index"))

/-- The files of an empty package, with the declarations in the file of functions. -/
def collidingFiles : List GeneratedFile :=
  ((({} : Document).client "").value.package { typesModule := "api" }).value.files

theorem package_readsBack_sample :
    ∃ s', Completes (writeFiles "out" collidingFiles) { tree := .empty } () s'
      ∧ '/' ∉ "api".toList
      ∧ (∀ file ∈ collidingFiles.tail, s'.ReadsBack "out" file)
      ∧ ¬ ∀ file ∈ collidingFiles, s'.ReadsBack "out" file := by
  obtain ⟨s', hwritten⟩ : ∃ s', Completes (writeFiles "out" collidingFiles)
      { tree := .empty } () s' :=
    exists_completes (by decide +kernel)
  have hplain : '/' ∉ "api".toList := by decide
  obtain ⟨hothers, -, hname⟩ :=
    package_readsBack_iff (({} : Document).client "").value { typesModule := "api" } "out" hwritten
  refine ⟨s', hwritten, hplain, hothers, ?_⟩
  intro hall
  exact (hname hplain).1 hall (by decide)

end TypedClient.CommandLine
