import Mathlib.Data.List.Induction
import TypedClient.Proofs.UrlTemplate

/-! # Parts of a text with arguments in place

    What putting an argument in its place does to the parts of a text, be the key
    of the argument a slot or a text with braces of its own.

    * **The step**: parts whose text is the key in braces give way to a dollar sign
      and a slot with the name, all others stay as they are.
    * **The run**: a slot of the text at the end was there at the start, and is no
      key, or holds the name of an argument whose key was found on the way.
    * **Counting**: outside of slots no character but the dollar sign gets more.
-/

namespace TypedClient

/-! ### Parts of texts put together -/

/-- Of two closing braces in a text the first one that no brace comes before is not
    behind the other one. -/
theorem Braceless.cut {text behind s t : List Char} (htext : Braceless text)
    (h : s ++ '\x7d' :: t = text ++ '\x7d' :: behind) :
    (s = text ∧ behind = t) ∨ ∃ v, s = text ++ '\x7d' :: v ∧ behind = v ++ '\x7d' :: t := by
  rcases List.append_eq_append_iff.1 h with ⟨u, hu, hrest⟩ | ⟨u, hu, hrest⟩
  · cases u with
    | nil => exact .inl ⟨by rw [hu, List.append_nil], (List.cons.inj hrest).2.symm⟩
    | cons d v =>
      have hmem : '\x7d' ∈ text := by
        rw [hu, ← (List.cons.inj hrest).1]
        simp
      exact absurd (htext _ hmem) (by decide)
  · cases u with
    | nil => exact .inl ⟨by rw [hu, List.append_nil], (List.cons.inj hrest).2⟩
    | cons d v =>
      obtain ⟨rfl, rfl⟩ := List.cons.inj hrest
      exact .inr ⟨v, hu, rfl⟩

namespace PathPart

variable {c : Char} {s t text : List Char}

theorem parts_cons (h : c ≠ '\x7b') (s : List Char) : parts (c :: s) = .plain c :: parts s := by
  rw [parts, prepend, if_neg h]

/-- An opening brace opens nothing if no text without braces stands behind it in
    front of a closing one. -/
theorem parts_open (h : closing? (parts s) = none) :
    parts ('\x7b' :: s) = .plain '\x7b' :: parts s := by
  rw [parts, prepend, if_pos rfl, h]

/-- A text without braces is a slot in braces. -/
theorem parts_slot (h : Braceless text) (s : List Char) :
    parts ('\x7b' :: (text ++ '\x7d' :: s)) = .slot text :: parts s := by
  rw [parts, prepend, if_pos rfl, closing?_parts h]

/-- A text without opening braces in front has parts of its own. -/
theorem parts_append (h : '\x7b' ∉ s) (t : List Char) :
    parts (s ++ t) = s.map PathPart.plain ++ parts t := by
  induction s with
  | nil => rfl
  | cons c r ih =>
    rw [List.mem_cons, not_or] at h
    rw [List.cons_append, parts_cons (Ne.symm h.1), ih h.2]
    rfl

/-- **Cuts**: a closing brace is the end of a part. -/
theorem exists_parts_append (s t : List Char) :
    ∃ front, parts (s ++ '\x7d' :: t) = front ++ parts t
      ∧ front.flatMap chars = s ++ ['\x7d'] := by
  have hfront : ∃ front, parts (s ++ '\x7d' :: t) = front ++ parts t := by
    -- A slot is passed over in one go, so the induction is on the length.
    induction hn : s.length using Nat.strongRecOn generalizing s with
    | ind n ih =>
      cases s with
      | nil => exact ⟨[.plain '\x7d'], parts_cons (by decide) t⟩
      | cons c r =>
        have hr : r.length < n := hn ▸ Nat.lt_succ_self r.length
        obtain ⟨front, hparts⟩ := ih r.length hr r rfl
        by_cases hc : c = '\x7b'
        · subst hc
          cases hclosing : closing? (parts (r ++ '\x7d' :: t)) with
          | none =>
            refine ⟨.plain '\x7b' :: front, ?_⟩
            rw [List.cons_append, parts_open hclosing, hparts, List.cons_append]
          | some found =>
            obtain ⟨htext, behind, hbehind, -⟩ := of_closing?_parts hclosing
            have hslot : parts ('\x7b' :: r ++ '\x7d' :: t) = .slot found.1 :: parts behind := by
              rw [List.cons_append, hbehind, parts_slot htext]
            rcases htext.cut hbehind with ⟨-, rfl⟩ | ⟨v, rfl, rfl⟩
            · exact ⟨[.slot found.1], hslot⟩
            · have hv : v.length < n := by
                rw [List.length_append, List.length_cons] at hr
                omega
              obtain ⟨front, hparts⟩ := ih v.length hv v rfl
              exact ⟨.slot found.1 :: front, by rw [hslot, hparts, List.cons_append]⟩
        · refine ⟨.plain c :: front, ?_⟩
          rw [List.cons_append, parts_cons hc, hparts, List.cons_append]
  obtain ⟨front, hparts⟩ := hfront
  refine ⟨front, hparts, (List.append_left_inj t).1 ?_⟩
  have hchars := congrArg (List.flatMap chars) hparts
  rw [List.flatMap_append, flatMap_chars_parts, flatMap_chars_parts] at hchars
  rw [← hchars, List.append_assoc, List.singleton_append]

/-- Outside of braces a character of a text is one outside of slots, unless it
    stands in one. -/
theorem count_flatMap_chars {parts : List PathPart} (hc : Name.isBrace c = false)
    (h : ∀ text, .slot text ∈ parts → c ∉ text) :
    (parts.flatMap chars).count c = parts.count (.plain c) := by
  induction parts with
  | nil => rfl
  | cons part rest ih =>
    rw [List.flatMap_cons, List.count_append, List.count_cons,
      ih fun text htext => h text (List.mem_cons_of_mem part htext), Nat.add_comm]
    congr 1
    cases part with
    | plain d => simp [chars, List.count_cons]
    | slot text =>
      have htext := h text List.mem_cons_self
      have hbraced : c ∉ braced text := by
        intro hmem
        rcases List.mem_append.1 hmem with hmem | hmem
        · rcases List.mem_cons.1 hmem with rfl | hmem
          · exact absurd hc (by decide)
          · exact htext hmem
        · rw [List.mem_singleton.1 hmem] at hc
          exact absurd hc (by decide)
      exact List.count_eq_zero.2 hbraced

/-- Characters outside of slots stand in the text. -/
theorem count_plain_le (parts : List PathPart) (c : Char) :
    parts.count (.plain c) ≤ (parts.flatMap chars).count c := by
  induction parts with
  | nil => exact Nat.le_refl _
  | cons part rest ih =>
    rw [List.flatMap_cons, List.count_append, List.count_cons, Nat.add_comm]
    refine Nat.add_le_add ?_ ih
    cases part with
    | plain d => simp [chars, List.count_cons]
    | slot text => simp

end PathPart

/-! ### One argument -/

/-- **One step**, part by part: parts before, and parts with an argument in the
    place of its key. -/
inductive Placing (a : Argument) : List PathPart → List PathPart → Prop where
  | nil : Placing a [] []
  /-- A part that is not the slot of the key stays. -/
  | kept {part : PathPart} {before after : List PathPart} (hpart : part ≠ .slot a.key.toList)
      (hrest : Placing a before after) : Placing a (part :: before) (part :: after)
  /-- Parts whose text is the key in braces give way. -/
  | placed {gone before after : List PathPart}
      (hgone : gone.flatMap PathPart.chars = braced a.key.toList)
      (hrest : Placing a before after) :
      Placing a (gone ++ before) (.plain '$' :: .slot a.name.toList :: after)

namespace Placing

variable {a : Argument} {before after : List PathPart} {v : List Char}

/-- No slot opens that was not there. -/
theorem closing?_eq_none (h : Placing a before after) (hbefore : PathPart.closing? before = none) :
    PathPart.closing? after = none := by
  induction h with
  | nil => rfl
  | @kept part before after hpart hrest ih =>
    cases part with
    | slot text => rfl
    | plain c =>
      rw [PathPart.closing?] at hbefore ⊢
      split at hbefore
      · cases hbefore
      · rename_i hclose
        rw [if_neg hclose]
        split at hbefore
        · rename_i hopen
          rw [if_pos hopen]
        · rename_i hopen
          rw [if_neg hopen, ih (Option.map_eq_none_iff.1 hbefore)]
          rfl
  | placed hgone hrest ih => rfl

/-- No key ends at a closing brace that none opens. -/
theorem placeArgument_closing {text : List Char} (h : Braceless text) (a : Argument)
    (behind : List Char) : Endpoint.placeArgument (text ++ '\x7d' :: behind) a
      = text ++ '\x7d' :: Endpoint.placeArgument behind a := by
  have hnone : '\x7b' ∉ text ++ ['\x7d'] := by
    intro hmem
    rcases List.mem_append.1 hmem with hmem | hmem
    · exact h.not_mem rfl hmem
    · exact absurd (List.mem_singleton.1 hmem) (by decide)
  have hkept : Endpoint.placeArgument ((text ++ ['\x7d']) ++ behind) a
      = (text ++ ['\x7d']) ++ Endpoint.placeArgument behind a :=
    Text.replaceAll_append_of_not_mem hnone behind
  rwa [List.append_assoc, List.append_assoc, List.singleton_append,
    List.singleton_append] at hkept

/-- Putting an argument in its place is a step of the parts. -/
theorem parts_placeArgument (ha : Braceless a.name.toList) (s : List Char) :
    Placing a (PathPart.parts s) (PathPart.parts (Endpoint.placeArgument s a)) := by
  have hplaced : ∀ t, PathPart.parts (('$' :: braced a.name.toList) ++ t)
      = .plain '$' :: .slot a.name.toList :: PathPart.parts t := by
    intro t
    rw [List.cons_append, PathPart.parts_cons (by decide)]
    simpa [braced] using PathPart.parts_slot ha t
  -- A key is passed over in one go, and so is a slot.
  induction hn : s.length using Nat.strongRecOn generalizing s with
  | ind n ih =>
    by_cases hstart : braced a.key.toList <+: s
    · obtain ⟨t, rfl⟩ := hstart
      have ht : t.length < n := by
        rw [← hn, List.length_append, braced, List.length_append, List.length_cons]
        omega
      obtain ⟨gone, hgone, hchars⟩ := PathPart.exists_parts_append ('\x7b' :: a.key.toList) t
      have hbefore : PathPart.parts (braced a.key.toList ++ t) = gone ++ PathPart.parts t := by
        rw [← hgone, braced]
        simp
      have hafter : Endpoint.placeArgument (braced a.key.toList ++ t) a
          = ('$' :: braced a.name.toList) ++ Endpoint.placeArgument t a :=
        Text.replaceAll_append (by simp) t
      rw [hbefore, hafter, hplaced]
      exact .placed hchars (ih t.length ht t rfl)
    · cases s with
      | nil => exact .nil
      | cons c r =>
        have hr : r.length < n := hn ▸ Nat.lt_succ_self r.length
        have hstep : Endpoint.placeArgument (c :: r) a = c :: Endpoint.placeArgument r a :=
          Text.replaceAll_cons hstart
        rw [hstep]
        by_cases hc : c = '\x7b'
        · subst hc
          cases hclosing : PathPart.closing? (PathPart.parts r) with
          | none =>
            have hrest := ih r.length hr r rfl
            rw [PathPart.parts_open hclosing, PathPart.parts_open (hrest.closing?_eq_none hclosing)]
            exact .kept (by simp) hrest
          | some found =>
            obtain ⟨text, rest⟩ := found
            obtain ⟨htext, behind, rfl, -⟩ := PathPart.of_closing?_parts hclosing
            have hbehind : behind.length < n := by
              rw [List.length_append, List.length_cons] at hr
              omega
            rw [placeArgument_closing htext, PathPart.parts_slot htext, PathPart.parts_slot htext]
            refine .kept (fun heq => hstart ?_) (ih behind.length hbehind behind rfl)
            rw [← PathPart.slot.inj heq]
            exact PathPart.braced_prefix_iff.2 ⟨behind, rfl⟩
        · rw [PathPart.parts_cons hc, PathPart.parts_cons hc]
          exact .kept (by simp) (ih r.length hr r rfl)

/-- A slot was there and is not the key, or it holds the name, and the key was
    found. -/
theorem of_slot_mem (h : Placing a before after) (hv : .slot v ∈ after) :
    (.slot v ∈ before ∧ a.key.toList ≠ v)
      ∨ (v = a.name.toList ∧ braced a.key.toList <:+: before.flatMap PathPart.chars) := by
  induction h with
  | nil => cases hv
  | @kept part before after hpart hrest ih =>
    rcases List.mem_cons.1 hv with heq | hv
    · refine .inl ⟨heq ▸ List.mem_cons_self, fun hkey => hpart ?_⟩
      rw [← heq, hkey]
    · rcases ih hv with ⟨hmem, hkey⟩ | ⟨hname, hfound⟩
      · exact .inl ⟨List.mem_cons_of_mem part hmem, hkey⟩
      · refine .inr ⟨hname, hfound.trans ?_⟩
        rw [List.flatMap_cons]
        exact (List.suffix_append _ _).isInfix
  | @placed gone before after hgone hrest ih =>
    have hfound : braced a.key.toList <:+: (gone ++ before).flatMap PathPart.chars := by
      rw [List.flatMap_append, hgone]
      exact (List.prefix_append _ _).isInfix
    rcases List.mem_cons.1 hv with heq | hv
    · cases heq
    rcases List.mem_cons.1 hv with heq | hv
    · exact .inr ⟨PathPart.slot.inj heq, hfound⟩
    · exact (ih hv).imp (And.imp_left (List.mem_append_right gone)) (fun h => ⟨h.1, hfound⟩)

/-- Outside of slots nothing is put in but a dollar sign. -/
theorem count_le (h : Placing a before after) {c : Char} (hc : c ≠ '$') :
    after.count (.plain c) ≤ before.count (.plain c) := by
  induction h with
  | nil => exact Nat.le_refl _
  | kept hpart hrest ih =>
    rw [List.count_cons, List.count_cons]
    exact Nat.add_le_add_right ih _
  | placed hgone hrest ih =>
    rw [List.count_append, List.count_cons_of_ne (by simpa using hc.symm),
      List.count_cons_of_ne (by simp)]
    exact Nat.le_trans ih (Nat.le_add_left _ _)

end Placing

/-! ### All arguments -/

/-- **The run**, for slots: a slot at the end was there at the start and is no key,
    or it holds the name of an argument whose key was found on the way. -/
theorem of_slot_mem_foldl {arguments : List Argument}
    (hnames : ∀ a ∈ arguments, Braceless a.name.toList) {s v : List Char}
    (hv : .slot v ∈ PathPart.parts (arguments.foldl Endpoint.placeArgument s)) :
    (.slot v ∈ PathPart.parts s ∧ ∀ a ∈ arguments, a.key.toList ≠ v)
      ∨ ∃ before a after, arguments = before ++ a :: after ∧ v = a.name.toList
          ∧ braced a.key.toList <:+: before.foldl Endpoint.placeArgument s := by
  -- The last step decides, so the induction takes arguments off the end.
  induction arguments using List.reverseRecOn with
  | nil => exact .inl ⟨hv, by simp⟩
  | append_singleton before a ih =>
    rw [List.foldl_append, List.foldl_cons, List.foldl_nil] at hv
    have ha : Braceless a.name.toList := hnames a (by simp)
    rcases (Placing.parts_placeArgument ha _).of_slot_mem hv with ⟨hmem, hkey⟩ | ⟨hname, hfound⟩
    · rcases ih (fun b hb => hnames b (List.mem_append_left _ hb)) hmem with
        ⟨hstart, hkeys⟩ | ⟨front, b, behind, hsplit, hname, hfound⟩
      · refine .inl ⟨hstart, fun b hb => ?_⟩
        rcases List.mem_append.1 hb with hb | hb
        · exact hkeys b hb
        · rw [List.mem_singleton.1 hb]
          exact hkey
      · exact .inr ⟨front, b, behind ++ [a], by simp [hsplit], hname, hfound⟩
    · rw [PathPart.flatMap_chars_parts] at hfound
      exact .inr ⟨before, a, [], rfl, hname, hfound⟩

/-- **The run**, for characters outside of slots. -/
theorem count_parts_foldl_le {arguments : List Argument}
    (hnames : ∀ a ∈ arguments, Braceless a.name.toList) {c : Char} (hc : c ≠ '$') (s : List Char) :
    (PathPart.parts (arguments.foldl Endpoint.placeArgument s)).count (.plain c)
      ≤ (PathPart.parts s).count (.plain c) := by
  induction arguments generalizing s with
  | nil => exact Nat.le_refl _
  | cons a rest ih =>
    obtain ⟨ha, hrest⟩ := List.forall_mem_cons.1 hnames
    exact Nat.le_trans (ih hrest _) ((Placing.parts_placeArgument ha s).count_le hc)

/-! ### Templates -/

/-- The parts of a part whose slot is filled. -/
def PathPart.refilled (fill : List Char → Filling) : PathPart → List PathPart
  | .plain c => (Endpoint.pathChar c).map PathPart.plain
  | .slot text =>
    (List.replicate (fill text).dollars '$').map PathPart.plain ++ [.slot (fill text).value]

section

variable {fill other : List Char → Filling} {parts : List PathPart}

/-- A template has the slots of its parts, filled. -/
theorem parts_template (hparts : PathPart.Settled parts) (hfill : BracelessFill fill parts) :
    PathPart.parts (template fill parts) = parts.flatMap (PathPart.refilled fill) := by
  induction hparts with
  | nil => rfl
  | @plain c rest hc hrest ih =>
    rw [template_plain, List.flatMap_cons, ← ih hfill.tail]
    by_cases hopen : c = '\x7b'
    · subst hopen
      have hnone : PathPart.closing? (PathPart.parts (template fill rest)) = none := by
        cases hclosing : PathPart.closing? (PathPart.parts (template fill rest)) with
        | none => rfl
        | some found =>
          obtain ⟨htext, behind, hbehind, -⟩ := PathPart.of_closing?_parts hclosing
          exact absurd (hc rfl) (closing?_of_template htext hbehind)
      exact PathPart.parts_open hnone
    · refine PathPart.parts_append ?_ _
      unfold Endpoint.pathChar
      split
      · decide
      · simpa using Ne.symm hopen
  | @slot text rest htext hrest ih =>
    have hvalue := hfill text List.mem_cons_self
    rw [template_slot, List.flatMap_cons, ← ih hfill.tail, Filling.chars_append,
      PathPart.parts_append ((braceless_dollars _).not_mem rfl), PathPart.parts_slot hvalue,
      PathPart.refilled, List.append_assoc, List.singleton_append]

/-- The slots of a template hold values. -/
theorem slot_mem_parts_template (hparts : PathPart.Settled parts)
    (hfill : BracelessFill fill parts) {v : List Char}
    (hv : .slot v ∈ PathPart.parts (template fill parts)) :
    ∃ text, .slot text ∈ parts ∧ v = (fill text).value := by
  rw [parts_template hparts hfill] at hv
  obtain ⟨part, hpart, hmem⟩ := List.mem_flatMap.1 hv
  cases part with
  | plain c => simp [PathPart.refilled] at hmem
  | slot text => exact ⟨text, hpart, by simpa [PathPart.refilled] using hmem⟩

/-- Outside of slots all templates of the same parts have the same characters, but
    for dollar signs. -/
theorem count_parts_template (hparts : PathPart.Settled parts) (hfill : BracelessFill fill parts)
    (hother : BracelessFill other parts) {c : Char} (hc : c ≠ '$') :
    (PathPart.parts (template fill parts)).count (.plain c)
      = (PathPart.parts (template other parts)).count (.plain c) := by
  rw [parts_template hparts hfill, parts_template hparts hother, List.count_flatMap,
    List.count_flatMap]
  refine congrArg List.sum (List.map_congr_left fun part _ => ?_)
  cases part with
  | plain d => rfl
  | slot text =>
    have hslot : ∀ f : List Char → Filling,
        (PathPart.refilled f (.slot text)).count (.plain c) = 0 := by
      intro f
      rw [List.count_eq_zero, PathPart.refilled]
      simp [hc]
    exact (hslot fill).trans (hslot other).symm

end

end TypedClient
