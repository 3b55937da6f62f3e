import Mathlib.Data.List.Basic
import Mathlib.Tactic.SplitIfs
import TypedClient.Files.Tree

/-! # Changes of trees of files

    Where a path leads, and what is read at it after a change somewhere else.

    * **Destinations**: whether a path can be followed depends on the tree. Where it
      leads does not, as long as the working folder stays the same: every part of the
      text goes one step.
    * **Making folders** touches no file, and puts folders only where nothing is.
    * **Writing a text** changes one place. Whatever leads there reads the new text, and
      everything else what it read before.
-/

namespace TypedClient

/-- A computation of two steps succeeds exactly if both do. -/
theorem bind_eq_ok_iff {ε α β : Type} {x : Except ε α} {f : α → Except ε β} {b : β} :
    (x >>= f) = .ok b ↔ ∃ a, x = .ok a ∧ f a = .ok b := by
  cases x with
  | error e =>
    constructor
    · intro h
      cases h
    · rintro ⟨_, h, -⟩
      cases h
  | ok a =>
    constructor
    · intro h
      exact ⟨a, rfl, h⟩
    · rintro ⟨_, h, hf⟩
      cases h
      exact hf

namespace PathStep

/-- Where a part of a path leads from a place. -/
def after (place : FilePlace) : PathStep → FilePlace
  | .stay => place
  | .up => place.dropLast
  | .down name => place ++ [name]

/-- Whether a name is short enough. -/
def Fits : PathStep → Prop
  | .down name => name.utf8ByteSize ≤ 255
  | _ => True

end PathStep

namespace FileTree

variable {t t' t'' : FileTree} {path other text was : String} {place dest : FilePlace}

/-- The place that a path leads to, if it can be followed at all. -/
def destination (t : FileTree) (path : String) : FilePlace :=
  (PathStep.ofPath path).foldl PathStep.after (t.start path)

theorem destination_eq_of_working (h : t'.working = t.working) :
    t'.destination path = t.destination path := by
  rw [destination, destination, start, start, h]

/-! ### Following -/

/-- **One step**: only a folder is gone on from, and only to a name that fits. -/
theorem follow_cons_eq_ok_iff {step : PathStep} {rest : List PathStep} :
    t.follow place (step :: rest) = .ok dest
      ↔ t.isFolder place = true ∧ step.Fits ∧ t.follow (step.after place) rest = .ok dest := by
  rw [follow.eq_def]
  dsimp only
  by_cases hfolder : t.isFolder place = true
  · rw [if_pos hfolder]
    cases step with
    | stay => simp [hfolder, PathStep.Fits, PathStep.after]
    | up => simp [hfolder, PathStep.Fits, PathStep.after]
    | down name =>
      by_cases hlong : 255 < name.utf8ByteSize
      · simp [hlong, PathStep.Fits, Nat.not_le_of_lt hlong]
      · simp [hlong, hfolder, PathStep.Fits, PathStep.after, Nat.le_of_not_lt hlong]
  · rw [if_neg hfolder]
    by_cases hfile : (t.content? place).isSome = true <;> simp [hfile, hfolder]

theorem follow_append_eq_ok_iff {front back : List PathStep} :
    t.follow place (front ++ back) = .ok dest
      ↔ ∃ middle, t.follow place front = .ok middle ∧ t.follow middle back = .ok dest := by
  induction front generalizing place with
  | nil =>
    constructor
    · intro h
      exact ⟨place, rfl, h⟩
    · rintro ⟨middle, h, hback⟩
      cases h
      exact hback
  | cons step rest ih =>
    rw [List.cons_append, follow_cons_eq_ok_iff, ih]
    constructor
    · rintro ⟨hfolder, hfits, middle, hrest, hback⟩
      exact ⟨middle, follow_cons_eq_ok_iff.2 ⟨hfolder, hfits, hrest⟩, hback⟩
    · rintro ⟨middle, hfront, hback⟩
      obtain ⟨hfolder, hfits, hrest⟩ := follow_cons_eq_ok_iff.1 hfront
      exact ⟨hfolder, hfits, middle, hrest, hback⟩

/-- Following ends where the steps lead. -/
theorem eq_foldl_of_follow {steps : List PathStep} (h : t.follow place steps = .ok dest) :
    dest = steps.foldl PathStep.after place := by
  induction steps generalizing place with
  | nil => exact (Except.ok.inj h).symm
  | cons step rest ih => exact ih (follow_cons_eq_ok_iff.1 h).2.2

/-- A path that can be followed can be followed wherever there are more folders. -/
theorem follow_mono {steps : List PathStep}
    (hmore : ∀ place, t.isFolder place = true → t'.isFolder place = true)
    (h : t.follow place steps = .ok dest) : t'.follow place steps = .ok dest := by
  induction steps generalizing place with
  | nil => exact h
  | cons step rest ih =>
    obtain ⟨hfolder, hfits, hrest⟩ := follow_cons_eq_ok_iff.1 h
    exact follow_cons_eq_ok_iff.2 ⟨hmore place hfolder, hfits, ih hrest⟩

theorem place?_eq_ok_iff :
    t.place? path = .ok dest ↔ wellFormed path = .ok ()
      ∧ t.follow (t.start path) (PathStep.ofPath path
          ++ if path.toList.getLast? = some '/' then [.stay] else []) = .ok dest := by
  rw [place?, bind_eq_ok_iff]
  exact ⟨fun ⟨_, hwell, h⟩ => ⟨hwell, h⟩, fun ⟨hwell, h⟩ => ⟨(), hwell, h⟩⟩

theorem place?_mono (hworking : t'.working = t.working)
    (hmore : ∀ place, t.isFolder place = true → t'.isFolder place = true)
    (h : t.place? path = .ok dest) : t'.place? path = .ok dest := by
  obtain ⟨hwell, hfollow⟩ := place?_eq_ok_iff.1 h
  have hstart : t'.start path = t.start path := by rw [start, start, hworking]
  refine place?_eq_ok_iff.2 ⟨hwell, ?_⟩
  rw [hstart]
  exact follow_mono hmore hfollow

/-- The place of a path is where it leads. -/
theorem eq_destination_of_place? (h : t.place? path = .ok dest) : dest = t.destination path := by
  rw [eq_foldl_of_follow (place?_eq_ok_iff.1 h).2, List.foldl_append, destination]
  split <;> rfl

/-! ### Reading -/

/-- Bytes that are a text are the bytes of that text. -/
theorem fromUTF8?_eq_some_iff {bytes : ByteArray} :
    String.fromUTF8? bytes = some text ↔ bytes = text.toUTF8 := by
  unfold String.fromUTF8?
  constructor
  · intro h
    split_ifs at h
    rw [← Option.some.inj h]
    rfl
  · rintro rfl
    rw [String.toUTF8_eq_toByteArray, dif_pos text.isValidUTF8]
    rfl

/-- A text is read exactly where a path can be followed to a file that holds it. -/
theorem readText_eq_ok_iff :
    t.readText path = .ok text ↔ t.place? path = .ok (t.destination path)
      ∧ t.isFolder (t.destination path) = false
      ∧ t.content? (t.destination path) = some text.toUTF8 := by
  rw [readText, bind_eq_ok_iff]
  constructor
  · rintro ⟨place, hplace, h⟩
    obtain rfl := eq_destination_of_place? hplace
    split_ifs at h with hfolder
    refine ⟨hplace, Bool.eq_false_iff.2 hfolder, ?_⟩
    cases hcontent : t.content? (t.destination path) with
    | none => simp [hcontent] at h
    | some bytes =>
      cases htext : String.fromUTF8? bytes with
      | none => simp [hcontent, htext] at h
      | some found =>
        simp only [hcontent, htext, Except.ok.injEq] at h
        rw [fromUTF8?_eq_some_iff.1 htext, h]
  · rintro ⟨hplace, hfolder, hcontent⟩
    refine ⟨_, hplace, ?_⟩
    have htext : String.fromUTF8? text.toUTF8 = some text := fromUTF8?_eq_some_iff.2 rfl
    rw [if_neg (by simp [hfolder]), hcontent]
    simp only [htext]

/-- Paths with one destination read one text. -/
theorem readText_eq_of_destination_eq (hsame : t.destination path = t.destination other)
    (h : t.readText path = .ok text) (hother : t.readText other = .ok was) : text = was := by
  have hbytes : text.toUTF8 = was.toUTF8 := by
    have hcontent := (readText_eq_ok_iff.1 h).2.2
    rw [hsame, (readText_eq_ok_iff.1 hother).2.2] at hcontent
    exact (Option.some.inj hcontent).symm
  exact String.toByteArray_inj.1 hbytes

/-! ### Making folders -/

/-- A tree with further folders, all of them where nothing was. -/
structure AddsFolders (t t' : FileTree) : Prop where
  working : t'.working = t.working
  files : t'.files = t.files
  folder : ∀ place, t.isFolder place = true → t'.isFolder place = true
  fresh : ∀ place, t'.isFolder place = true → t.isFolder place = true ∨ t.content? place = none

namespace AddsFolders

theorem refl (t : FileTree) : t.AddsFolders t :=
  ⟨rfl, rfl, fun _ h => h, fun _ h => .inl h⟩

theorem trans (h : t.AddsFolders t') (h' : t'.AddsFolders t'') : t.AddsFolders t'' where
  working := h'.working.trans h.working
  files := h'.files.trans h.files
  folder place hplace := h'.folder place (h.folder place hplace)
  fresh place hplace := by
    rcases h'.fresh place hplace with hfolder | hnone
    · exact h.fresh place hfolder
    · right
      rw [content?, ← h.files]
      exact hnone

/-- Making folders changes nothing that is read. -/
theorem readText (h : t.AddsFolders t') (hread : t.readText path = .ok text) :
    t'.readText path = .ok text := by
  obtain ⟨hplace, hfolder, hcontent⟩ := readText_eq_ok_iff.1 hread
  rw [readText_eq_ok_iff, destination_eq_of_working h.working]
  refine ⟨place?_mono h.working h.folder hplace, ?_, ?_⟩
  · rw [Bool.eq_false_iff]
    intro hnow
    rcases h.fresh _ hnow with hbefore | hnone
    · simp [hfolder] at hbefore
    · simp [hcontent] at hnone
  · rw [content?, h.files]
    exact hcontent

end AddsFolders

theorem addsFolders_putFolder (h : t.isFolder place = false) (hnone : t.content? place = none) :
    t.AddsFolders (t.putFolder place) where
  working := rfl
  files := rfl
  folder dest hdest := by
    simp only [isFolder, putFolder, Bool.or_eq_true, List.contains_iff_mem] at hdest ⊢
    exact hdest.imp_right (List.mem_cons_of_mem _)
  fresh dest hdest := by
    simp only [isFolder, putFolder, Bool.or_eq_true, List.contains_iff_mem, List.mem_cons] at hdest ⊢
    rcases hdest with hroot | rfl | hfolder
    · exact .inl (.inl hroot)
    · exact .inr hnone
    · exact .inl (.inr hfolder)

theorem addsFolders_makeFolder (h : t.makeFolder path = .ok t') : t.AddsFolders t' := by
  rw [makeFolder, bind_eq_ok_iff] at h
  obtain ⟨⟨around, name⟩, -, h⟩ := h
  cases name with
  | none => cases h
  | some name =>
    by_cases hthere : (t.isFolder (around ++ [name]) || (t.content? (around ++ [name])).isSome) = true
    · simp only [if_pos hthere] at h
      cases h
    · simp only [if_neg hthere, Except.ok.injEq] at h
      simp only [Bool.or_eq_true, not_or, Bool.not_eq_true, Option.isSome_eq_false_iff,
        Option.isNone_iff_eq_none] at hthere
      rw [← h]
      exact addsFolders_putFolder hthere.1 hthere.2

theorem addsFolders_ensureFolder (h : t.ensureFolder path = .ok t') : t.AddsFolders t' := by
  unfold ensureFolder at h
  split at h
  · rename_i made hmade
    cases h
    exact addsFolders_makeFolder hmade
  · -- Nothing is made where a folder is.
    split at h
    · split at h
      · cases h
        exact .refl _
      · cases h
    · cases h
  · cases h

theorem addsFolders_foldlM {paths : List String} (h : paths.foldlM ensureFolder t = .ok t') :
    t.AddsFolders t' := by
  induction paths generalizing t with
  | nil =>
    cases h
    exact .refl _
  | cons path rest ih =>
    rw [List.foldlM_cons, bind_eq_ok_iff] at h
    obtain ⟨made, hmade, h⟩ := h
    exact (addsFolders_ensureFolder hmade).trans (ih h)

theorem addsFolders_ensureFolders {pending paths : List String}
    (h : t.ensureFolders pending paths = .ok t') : t.AddsFolders t' := by
  induction paths generalizing pending with
  | nil => exact addsFolders_foldlM h
  | cons path outer ih =>
    rw [ensureFolders] at h
    split at h
    · rename_i made hmade
      exact (addsFolders_ensureFolder hmade).trans (addsFolders_foldlM h)
    · exact ih h
    · cases h

theorem addsFolders_makeFolders (h : t.makeFolders path = .ok t') : t.AddsFolders t' :=
  addsFolders_ensureFolders h

/-! ### Writing -/

theorem content?_putContent (bytes : ByteArray) :
    (t.putContent place bytes).content? dest
      = if dest = place then some bytes else t.content? dest := by
  rw [content?, putContent, List.lookup_cons]
  by_cases hsame : dest = place
  · simp [hsame]
  · have hfilter : (t.files.filter (fun file => file.1 != place)).lookup dest
        = t.files.lookup dest := by
      induction t.files with
      | nil => rfl
      | cons file rest ih => grind
    rw [if_neg hsame, beq_eq_false_iff_ne.2 hsame]
    exact hfilter

theorem place?_putContent (bytes : ByteArray) (h : t.place? path = .ok dest) :
    (t.putContent place bytes).place? path = .ok dest := by
  refine place?_mono ?_ ?_ h
  · rfl
  · intro _ hfolder
    exact hfolder

/-- The last part of a path is a step from the folder that it is in. -/
theorem lastPart_eq_ok {around : FilePlace} {name : String}
    (h : t.lastPart path = .ok (around, some name)) : wellFormed path = .ok ()
      ∧ t.follow (t.start path) (PathStep.ofPath path) = .ok (around ++ [name]) := by
  rw [lastPart, bind_eq_ok_iff] at h
  obtain ⟨_, hwell, h⟩ := h
  rw [bind_eq_ok_iff] at h
  obtain ⟨place, hplace, h⟩ := h
  refine ⟨hwell, ?_⟩
  cases hlast : (PathStep.ofPath path).getLast? with
  | none => simp [hlast] at h; cases h
  | some step =>
    rw [hlast] at h
    have hsteps : PathStep.ofPath path = (PathStep.ofPath path).dropLast ++ [step] :=
      (List.dropLast_append_getLast? step hlast).symm
    cases step with
    | stay =>
      obtain ⟨_, -, h⟩ := bind_eq_ok_iff.1 h
      cases h
    | up =>
      obtain ⟨_, -, h⟩ := bind_eq_ok_iff.1 h
      cases h
    | down last =>
      obtain ⟨dest, hdest, h⟩ := bind_eq_ok_iff.1 h
      cases h
      rw [hsteps, follow_append_eq_ok_iff]
      refine ⟨around, hplace, ?_⟩
      rw [eq_foldl_of_follow hdest] at hdest
      exact hdest

/-- A text is written to where its path leads, which is no folder. -/
theorem writeText_eq_ok (h : t.writeText path text = .ok t') : wellFormed path = .ok ()
    ∧ t.follow (t.start path) (PathStep.ofPath path) = .ok (t.destination path)
    ∧ t.isFolder (t.destination path) = false
    ∧ t' = t.putContent (t.destination path) text.toUTF8 := by
  rw [writeText, bind_eq_ok_iff] at h
  obtain ⟨⟨around, name⟩, hlast, h⟩ := h
  cases name with
  | none => cases h
  | some name =>
    obtain ⟨hwell, hfollow⟩ := lastPart_eq_ok hlast
    have hdest : around ++ [name] = t.destination path := eq_foldl_of_follow hfollow
    by_cases hfolder : t.isFolder (around ++ [name]) = true
    · simp only [if_pos hfolder] at h
      cases h
    · simp only [if_neg hfolder, Except.ok.injEq] at h
      rw [hdest] at hfollow hfolder h
      exact ⟨hwell, hfollow, Bool.eq_false_iff.2 hfolder, h.symm⟩

theorem working_writeText (h : t.writeText path text = .ok t') : t'.working = t.working := by
  rw [(writeText_eq_ok h).2.2.2]
  rfl

/-- What has been written is read, unless the path asks for a folder. -/
theorem readText_of_writeText (hname : path.toList.getLast? ≠ some '/')
    (h : t.writeText path text = .ok t') : t'.readText path = .ok text := by
  have hdest : t'.destination path = t.destination path :=
    destination_eq_of_working (working_writeText h)
  obtain ⟨hwell, hfollow, hfolder, rfl⟩ := writeText_eq_ok h
  rw [readText_eq_ok_iff, hdest]
  refine ⟨?_, hfolder, ?_⟩
  · apply place?_putContent
    rw [place?_eq_ok_iff, if_neg hname, List.append_nil]
    exact ⟨hwell, hfollow⟩
  · rw [content?_putContent, if_pos rfl]

/-- **Writing** replaces what is read wherever the written path leads, and nothing
    else. -/
theorem readText_after_writeText (h : t.writeText path text = .ok t')
    (hread : t.readText other = .ok was) :
    t'.readText other
      = .ok (if t.destination other = t.destination path then text else was) := by
  have hdest : t'.destination other = t.destination other :=
    destination_eq_of_working (working_writeText h)
  obtain ⟨-, -, -, rfl⟩ := writeText_eq_ok h
  obtain ⟨hplace, hfolder, hcontent⟩ := readText_eq_ok_iff.1 hread
  rw [readText_eq_ok_iff, hdest]
  refine ⟨place?_putContent _ hplace, hfolder, ?_⟩
  rw [content?_putContent]
  split
  · rfl
  · exact hcontent

end FileTree

end TypedClient
