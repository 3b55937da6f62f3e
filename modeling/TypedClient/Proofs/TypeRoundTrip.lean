import TypedClient.Proofs.DataTokens
import TypedClient.TypeExpr.Rendering

/-! # Types and their texts

    The text of a type says which type it is, up to what the language does not
    tell apart:

    * **Wrappers**: a union or intersection of one member is that member, and
      one of no members is `never`.
    * **Nesting**: the members of a union right inside a union belong to the
      outer one, and so do the factors of intersections.
    * **Descriptions** of fields are not written.
-/

namespace TypedClient.TypeExpr

/-! ### Canonical types -/

/-- The members of a type, if it is a union of several; else the type itself. -/
def alternatives : TypeExpr → List TypeExpr
  | .union (a :: b :: rest) => a :: b :: rest
  | type => [type]

/-- The factors of a type, if it is an intersection of several; else the type
    itself. -/
def factors : TypeExpr → List TypeExpr
  | .intersection (a :: b :: rest) => a :: b :: rest
  | type => [type]

/-- The union of members, without wrapper around a single one. -/
def unite : List TypeExpr → TypeExpr
  | [type] => type
  | types => .union types

/-- The intersection of factors, without wrapper around a single one. Without
    factors nothing is written but `never`, the union of no members. -/
def intersect : List TypeExpr → TypeExpr
  | [] => .union []
  | [type] => type
  | types => .intersection types

mutual

/-- A type as far as its text tells it: no wrappers, no union right inside a
    union, no intersection right inside an intersection, no descriptions. -/
def canonical : TypeExpr → TypeExpr
  | .array item => .array item.canonical
  | .record value => .record value.canonical
  | .object fields => .object (canonicalFields fields)
  | .union members => unite ((canonicalList members).flatMap alternatives)
  | .intersection members => intersect ((canonicalList members).flatMap factors)
  | .literal text => if text = "\x7b\x7d" then .object [] else .literal text
  | type => type

/-- Types as far as their texts tell them. -/
def canonicalList : List TypeExpr → List TypeExpr
  | [] => []
  | type :: rest => type.canonical :: canonicalList rest

/-- Fields as far as their texts tell them. -/
def canonicalFields : List Field → List Field
  | [] => []
  | { name, type, required, .. } :: rest =>
    { name, type := type.canonical, required, description := none } :: canonicalFields rest

end

mutual

/-- Whether the names and the data in a type can be told from all else: names
    are type names, and literals are values of data that are no texts. -/
def Legible : TypeExpr → Prop
  | .ref name => Name.typeName name = name
  | .literal text => ∃ v : Json, (∀ s, v ≠ .string s) ∧ text = v.compact
  | .array item => item.Legible
  | .record value => value.Legible
  | .object fields => LegibleFields fields
  | .union members => LegibleList members
  | .intersection members => LegibleList members
  | _ => True

/-- Whether all of some types are legible. -/
def LegibleList : List TypeExpr → Prop
  | [] => True
  | type :: rest => type.Legible ∧ LegibleList rest

/-- Whether the types of all of some fields are legible. -/
def LegibleFields : List Field → Prop
  | [] => True
  | { type, .. } :: rest => type.Legible ∧ LegibleFields rest

end

/-! ### Laws of canonical types -/

theorem unite_alternatives (type : TypeExpr) : unite type.alternatives = type := by
  unfold alternatives
  split <;> rfl

theorem intersect_factors (type : TypeExpr) : intersect type.factors = type := by
  unfold factors
  split <;> rfl

theorem alternatives_unite {types : List TypeExpr} (h : 2 ≤ types.length) :
    (unite types).alternatives = types := by
  match types, h with
  | a :: b :: rest, _ => rfl

theorem factors_intersect {types : List TypeExpr} (h : 2 ≤ types.length) :
    (intersect types).factors = types := by
  match types, h with
  | a :: b :: rest, _ => rfl

theorem alternatives_ne_nil (type : TypeExpr) : type.alternatives ≠ [] := by
  unfold alternatives
  split <;> simp

theorem factors_ne_nil (type : TypeExpr) : type.factors ≠ [] := by
  unfold factors
  split <;> simp

theorem canonicalList_eq_map (types : List TypeExpr) :
    canonicalList types = types.map canonical := by
  induction types with
  | nil => rfl
  | cons type rest ih => rw [canonicalList, ih, List.map_cons]

/-- The members that types contribute to a union of them. -/
def spreadAlternatives (types : List TypeExpr) : List TypeExpr :=
  types.flatMap (fun type => type.canonical.alternatives)

/-- The factors that types contribute to an intersection of them. -/
def spreadFactors (types : List TypeExpr) : List TypeExpr :=
  types.flatMap (fun type => type.canonical.factors)

/-- Two pieces of which none is empty have two elements at least. -/
theorem two_le_length_flatMap {α β : Type} {f : α → List β} (h : ∀ a, f a ≠ []) (a b : α)
    (rest : List α) : 2 ≤ ((a :: b :: rest).flatMap f).length := by
  have ha : 0 < (f a).length := List.length_pos_iff.2 (h a)
  have hb : 0 < (f b).length := List.length_pos_iff.2 (h b)
  simp only [List.flatMap_cons, List.length_append]
  omega

theorem canonical_union (members : List TypeExpr) :
    (TypeExpr.union members).canonical = unite (spreadAlternatives members) := by
  rw [canonical, canonicalList_eq_map, List.flatMap_map]
  rfl

theorem canonical_intersection (members : List TypeExpr) :
    (TypeExpr.intersection members).canonical = intersect (spreadFactors members) := by
  rw [canonical, canonicalList_eq_map, List.flatMap_map]
  rfl

theorem canonical_union_singleton (member : TypeExpr) :
    (TypeExpr.union [member]).canonical = member.canonical := by
  rw [canonical_union]
  simp [spreadAlternatives, unite_alternatives]

theorem canonical_intersection_singleton (member : TypeExpr) :
    (TypeExpr.intersection [member]).canonical = member.canonical := by
  rw [canonical_intersection]
  simp [spreadFactors, intersect_factors]

end TypedClient.TypeExpr

namespace TypedClient.TypeReader

open TypeExpr

/-! ### The texts of types, form by form -/

theorem chars_array (level : Nat) (item : TypeExpr) :
    (TypeExpr.array item).chars level
      = if item.isCompound then '(' :: item.chars level ++ ")[]".toList
        else item.chars level ++ "[]".toList :=
  rfl

theorem chars_object (level : Nat) (f : Field) (fields : List Field) :
    (TypeExpr.object (f :: fields)).chars level
      = '\x7b' :: '\n' :: fieldsChars (level + 1) (f :: fields)
        ++ indentation level ++ ['\x7d'] :=
  rfl

/-- A factor of an intersection, in round brackets if it is a union. -/
def factorChars (level : Nat) (factor : TypeExpr) : List Char :=
  if factor.isUnion then '(' :: factor.chars level ++ [')'] else factor.chars level

theorem unionChars_cons (level : Nat) (member next : TypeExpr) (rest : List TypeExpr) :
    unionChars level (member :: next :: rest)
      = member.chars level ++ " | ".toList ++ unionChars level (next :: rest) :=
  rfl

theorem intersectionChars_cons (level : Nat) (factor next : TypeExpr) (rest : List TypeExpr) :
    intersectionChars level (factor :: next :: rest)
      = factorChars level factor ++ " & ".toList ++ intersectionChars level (next :: rest) :=
  rfl

/-! ### What reading the text of a type does -/

/-- A text takes a reader from in front of an operand to behind one, with `q` as
    what is left unfinished instead of `p`. -/
def ReadsTo (a : List Char) (p q : Unfinished) (last : TypeExpr) : Prop :=
  ∀ frames rest, Stops rest →
    readFrom ⟨frames, .operand p⟩ (a ++ rest) = readFrom ⟨frames, .behind q last⟩ rest

/-- A text is read as one operand that stands for a type. -/
def ReadsAtom (a : List Char) (type : TypeExpr) : Prop :=
  ∀ p, ∃ last, ReadsTo a p p last ∧ last.canonical = type.canonical

/-- A text is read as factors that stand for those of a type. -/
def ReadsProduct (a : List Char) (types : List TypeExpr) : Prop :=
  ∀ p, ∃ fs last, ReadsTo a p ⟨p.members, fs⟩ last
    ∧ spreadFactors (fs ++ [last]) = spreadFactors p.factors ++ spreadFactors types

/-- A text is read as members that stand for those of types, where no
    intersection is open. -/
def ReadsSum (a : List Char) (types : List TypeExpr) : Prop :=
  ∀ p, p.factors = [] → ∃ q last, ReadsTo a p q last
    ∧ spreadAlternatives (q.members ++ [intersectionOf (q.factors ++ [last])])
      = spreadAlternatives p.members ++ spreadAlternatives types

/-- How the text of a type is read, by the marks that no bracket encloses. -/
structure Readable (type : TypeExpr) : Prop where
  /-- Without `|` and `&` it is a single operand. -/
  atom : type.isCompound = false → ∀ level, ReadsAtom (type.chars level) type
  /-- Without `|` it is a list of factors. -/
  product : type.isUnion = false → ∀ level, ReadsProduct (type.chars level) [type]
  /-- In any case it is a list of members. -/
  sum : ∀ level, ReadsSum (type.chars level) [type]

theorem canonical_unionOf (types : List TypeExpr) :
    (unionOf types).canonical = unite (spreadAlternatives types) := by
  unfold unionOf
  split
  · rename_i type
    rw [← canonical_union, canonical_union_singleton]
  · exact canonical_union types

theorem canonical_intersectionOf (types : List TypeExpr) :
    (intersectionOf types).canonical = intersect (spreadFactors types) := by
  unfold intersectionOf
  split
  · rename_i type
    rw [← canonical_intersection, canonical_intersection_singleton]
  · exact canonical_intersection types

theorem spreadFactors_append (types more : List TypeExpr) :
    spreadFactors (types ++ more) = spreadFactors types ++ spreadFactors more :=
  List.flatMap_append

theorem spreadAlternatives_append (types more : List TypeExpr) :
    spreadAlternatives (types ++ more) = spreadAlternatives types ++ spreadAlternatives more :=
  List.flatMap_append

theorem spreadFactors_singleton (type : TypeExpr) :
    spreadFactors [type] = type.canonical.factors := by
  simp [spreadFactors]

theorem spreadAlternatives_singleton (type : TypeExpr) :
    spreadAlternatives [type] = type.canonical.alternatives := by
  simp [spreadAlternatives]

theorem ReadsAtom.product {a : List Char} {type : TypeExpr} (h : ReadsAtom a type) :
    ReadsProduct a [type] := by
  intro p
  obtain ⟨last, hread, hlast⟩ := h p
  refine ⟨p.factors, last, hread, ?_⟩
  rw [spreadFactors_append, spreadFactors_singleton, spreadFactors_singleton, hlast]

theorem ReadsProduct.sum {a : List Char} {type : TypeExpr} (h : ReadsProduct a [type]) :
    ReadsSum a [type] := by
  intro p hp
  obtain ⟨fs, last, hread, hfactors⟩ := h p
  refine ⟨⟨p.members, fs⟩, last, hread, ?_⟩
  have hmember : (intersectionOf (fs ++ [last])).canonical = type.canonical := by
    rw [canonical_intersectionOf, hfactors, hp, spreadFactors_singleton]
    exact intersect_factors type.canonical
  rw [spreadAlternatives_append, spreadAlternatives_singleton, spreadAlternatives_singleton,
    hmember]

/-- A type whose text is a single operand is readable. -/
theorem Readable.of_atom {type : TypeExpr} (h : ∀ level, ReadsAtom (type.chars level) type) :
    Readable type where
  atom _ := h
  product _ level := (h level).product
  sum level := (h level).product.sum

theorem Readable.value {type : TypeExpr} (h : Readable type) (level : Nat) :
    ∃ q last, ReadsTo (type.chars level) {} q last ∧ (q.value last).canonical = type.canonical := by
  obtain ⟨q, last, hread, halternatives⟩ := h.sum level {} rfl
  refine ⟨q, last, hread, ?_⟩
  rw [Unfinished.value, canonical_unionOf, halternatives, spreadAlternatives_singleton]
  exact unite_alternatives type.canonical

/-! ### Pieces of texts -/

/-- A mark ends every name and number in front of it. -/
theorem stops_cons {c : Char} (hc : c ∈ " |&()<>[]\x7b\x7d,:;?".toList) (rest : List Char) :
    Stops (c :: rest) := by
  have hall : ∀ d ∈ " |&()<>[]\x7b\x7d,:;?".toList,
      Name.isFollowing d = false ∧ Decimal.isNumeral d = false := by
    decide
  intro d hd
  exact Option.some.inj hd ▸ hall c hc

theorem readsAtom_group {type : TypeExpr} (h : Readable type) (level : Nat) :
    ReadsAtom ('(' :: type.chars level ++ [')']) type := by
  intro p
  obtain ⟨q, last, hread, hvalue⟩ := h.value level
  refine ⟨q.value last, ?_, hvalue⟩
  intro frames rest _
  calc readFrom ⟨frames, .operand p⟩ ('(' :: type.chars level ++ [')'] ++ rest)
      = readFrom ⟨.group p :: frames, .operand {}⟩ (type.chars level ++ [')'] ++ rest) :=
        readFrom_mark (by decide) (fun e => absurd e (by decide)) rfl
    _ = readFrom ⟨.group p :: frames, .behind q last⟩ (')' :: rest) := by
        rw [List.append_assoc]
        exact hread _ _ (stops_cons (by decide) rest)
    _ = readFrom ⟨frames, .behind p (q.value last)⟩ rest :=
        readFrom_mark (by decide) (fun e => absurd e (by decide)) rfl

/-- Square brackets behind an operand make a list of it. -/
theorem readsAtom_array {a : List Char} {item : TypeExpr} (h : ReadsAtom a item) :
    ReadsAtom (a ++ "[]".toList) (.array item) := by
  intro p
  obtain ⟨last, hread, hlast⟩ := h p
  refine ⟨.array last, ?_, ?_⟩
  · intro frames rest _
    rw [List.append_assoc]
    show readFrom ⟨frames, .operand p⟩ (a ++ '[' :: ']' :: rest) = _
    rw [hread _ _ (stops_cons (by decide) _)]
    exact readFrom_brackets rfl
  · rw [canonical, hlast, canonical]

/-- The keys of a record, and its angle brackets around its values. -/
theorem readsAtom_record {value : TypeExpr} (h : Readable value) (level : Nat) :
    ReadsAtom ("Record<string, ".toList ++ value.chars level ++ ['>']) (.record value) := by
  intro p
  obtain ⟨q, last, hread, hvalue⟩ := h.value level
  refine ⟨.record (q.value last), ?_, ?_⟩
  · intro frames rest _
    have hassoc : "Record<string, ".toList ++ value.chars level ++ ['>'] ++ rest
        = 'R' :: "ecord".toList ++ ('<' :: ('s' :: "tring".toList
          ++ (',' :: ' ' :: (value.chars level ++ '>' :: rest)))) := by
      simp
    rw [hassoc]
    calc readFrom ⟨frames, .operand p⟩ _
        = readFrom ⟨frames, .behind p (.ref "Record")⟩ _ :=
          readFrom_word (by decide) (by decide) (stops_cons (by decide) _) rfl
      _ = readFrom ⟨.record p :: frames, .recordKeys⟩ _ :=
          readFrom_mark (by decide) (fun e => absurd e (by decide)) rfl
      _ = readFrom ⟨.record p :: frames, .recordComma⟩ _ :=
          readFrom_word (by decide) (by decide) (stops_cons (by decide) _) rfl
      _ = readFrom ⟨.record p :: frames, .operand {}⟩ (' ' :: (value.chars level ++ '>' :: rest)) :=
          readFrom_mark (by decide) (fun e => absurd e (by decide)) rfl
      _ = readFrom ⟨.record p :: frames, .operand {}⟩ (value.chars level ++ '>' :: rest) :=
          readFrom_blank _ (by decide) _
      _ = readFrom ⟨.record p :: frames, .behind q last⟩ ('>' :: rest) :=
          hread _ _ (stops_cons (by decide) rest)
      _ = readFrom ⟨frames, .behind p (.record (q.value last))⟩ rest :=
          readFrom_mark (by decide) (fun e => absurd e (by decide)) rfl
  · rw [canonical, hvalue, canonical]

/-- The text of an array, with round brackets where the item needs them. -/
theorem readable_array {item : TypeExpr} (h : Readable item) : Readable (.array item) := by
  refine Readable.of_atom (fun level => ?_)
  rw [chars_array]
  split
  · have hassoc : '(' :: item.chars level ++ ")[]".toList
        = ('(' :: item.chars level ++ [')']) ++ "[]".toList := by
      simp
    rw [hassoc]
    exact readsAtom_array (readsAtom_group h level)
  · rename_i hplain
    exact readsAtom_array (h.atom (by simpa using hplain) level)

theorem readable_record {value : TypeExpr} (h : Readable value) : Readable (.record value) :=
  Readable.of_atom (readsAtom_record h)

/-! ### Objects -/

/-- A key is read as its name, bare or not. -/
theorem readFrom_key (frames : List Frame) (outer : Unfinished) (before : List Field)
    (name : String) {rest : List Char} (hrest : Stops rest) :
    readFrom ⟨frames, .key outer before⟩ (keyChars name ++ rest)
      = readFrom ⟨frames, .behindKey outer before name⟩ rest := by
  unfold keyChars
  split
  · rename_i hplain
    rw [Name.isPlain] at hplain
    cases hname : name.toList with
    | nil => simp [hname, Name.isPlainChars] at hplain
    | cons c r =>
      rw [hname, Name.isPlainChars_cons] at hplain
      refine readFrom_word hplain.1 hplain.2 hrest ?_
      simp only [step, ← hname, String.ofList_toList]
  · refine readFrom_literal ?_
    simp only [step, String.ofList_toList]

/-- A field is read in front of its line break, its indentation left out. -/
theorem readFrom_field (outer : Unfinished) (before : List Field) (name : String)
    {type : TypeExpr} (h : Readable type) (required : Bool) (level : Nat) :
    ∃ read : TypeExpr, read.canonical = type.canonical ∧ ∀ frames rest,
      readFrom ⟨frames, .key outer before⟩
        (keyChars name ++ ((if required then [] else ['?']) ++ (": ".toList
          ++ (type.chars level ++ (";\n".toList ++ rest)))))
        = readFrom ⟨frames, .key outer (before ++ [⟨name, read, required, none⟩])⟩ rest := by
  obtain ⟨q, last, hread, hvalue⟩ := h.value level
  refine ⟨q.value last, hvalue, ?_⟩
  intro frames rest
  -- Up to the colon it matters whether there is a question mark.
  have hcolon : readFrom ⟨frames, .key outer before⟩
      (keyChars name ++ ((if required then [] else ['?']) ++ ':' :: ' '
        :: (type.chars level ++ ';' :: '\n' :: rest)))
      = readFrom ⟨.field outer before name required :: frames, .operand {}⟩
        (' ' :: (type.chars level ++ ';' :: '\n' :: rest)) := by
    cases required with
    | true =>
      rw [if_pos rfl, List.nil_append, readFrom_key _ _ _ _ (stops_cons (by decide) _)]
      exact readFrom_mark (by decide) (fun e => absurd e (by decide)) rfl
    | false =>
      rw [if_neg Bool.false_ne_true]
      calc readFrom ⟨frames, .key outer before⟩ (keyChars name ++ '?' :: _)
          = readFrom ⟨frames, .behindKey outer before name⟩ ('?' :: _) :=
            readFrom_key _ _ _ _ (stops_cons (by decide) _)
        _ = readFrom ⟨frames, .behindMark outer before name⟩ (':' :: _) :=
            readFrom_mark (by decide) (fun e => absurd e (by decide)) rfl
        _ = _ := readFrom_mark (by decide) (fun e => absurd e (by decide)) rfl
  calc readFrom ⟨frames, .key outer before⟩ _
      = readFrom ⟨.field outer before name required :: frames, .operand {}⟩
          (' ' :: (type.chars level ++ ';' :: '\n' :: rest)) := hcolon
    _ = readFrom ⟨.field outer before name required :: frames, .operand {}⟩
          (type.chars level ++ ';' :: '\n' :: rest) := readFrom_blank _ (by decide) _
    _ = readFrom ⟨.field outer before name required :: frames, .behind q last⟩
          (';' :: '\n' :: rest) := hread _ _ (stops_cons (by decide) _)
    _ = readFrom ⟨frames, .key outer (before ++ [⟨name, q.value last, required, none⟩])⟩
          ('\n' :: rest) := readFrom_mark (by decide) (fun e => absurd e (by decide)) rfl
    _ = _ := readFrom_blank _ (by decide) _

/-- The lines of fields are read as fields that mean the same. -/
theorem readFrom_fields (outer : Unfinished) {fields : List Field}
    (h : ∀ f ∈ fields, Readable f.type) (level : Nat) (before : List Field) :
    ∃ read : List Field, canonicalFields read = canonicalFields fields ∧ ∀ frames rest,
      readFrom ⟨frames, .key outer before⟩ (fieldsChars level fields ++ rest)
        = readFrom ⟨frames, .key outer (before ++ read)⟩ rest := by
  induction fields generalizing before with
  | nil =>
    refine ⟨[], rfl, fun frames rest => ?_⟩
    rw [fieldsChars, List.nil_append, List.append_nil]
  | cons f fields ih =>
    obtain ⟨name, type, required, description⟩ := f
    obtain ⟨first, hfirst, hfield⟩ := readFrom_field outer before name
      (h ⟨name, type, required, description⟩ List.mem_cons_self) required level
    obtain ⟨others, hothers, hfields⟩ := ih (fun f hf => h f (List.mem_cons_of_mem _ hf))
      (before ++ [⟨name, first, required, none⟩])
    refine ⟨⟨name, first, required, none⟩ :: others, ?_, ?_⟩
    · rw [canonicalFields, canonicalFields, hothers]
      exact congrArg (fun t => Field.mk name t required none :: canonicalFields fields) hfirst
    · intro frames rest
      rw [fieldsChars]
      simp only [List.append_assoc]
      rw [indentation, readFrom_indentation, hfield, hfields, List.append_assoc]
      rfl

theorem readable_object {fields : List Field} (h : ∀ f ∈ fields, Readable f.type) :
    Readable (.object fields) := by
  refine Readable.of_atom (fun level p => ?_)
  cases fields with
  | nil =>
    refine ⟨.object [], ?_, rfl⟩
    intro frames rest _
    calc readFrom ⟨frames, .operand p⟩ ('\x7b' :: '\x7d' :: rest)
        = readFrom ⟨frames, .key p []⟩ ('\x7d' :: rest) :=
          readFrom_mark (by decide) (fun _ => by simp) rfl
      _ = readFrom ⟨frames, .behind p (.object [])⟩ rest :=
          readFrom_mark (by decide) (fun e => absurd e (by decide)) rfl
  | cons f fields =>
    obtain ⟨read, hread, hfields⟩ := readFrom_fields p h (level + 1) []
    refine ⟨.object read, ?_, ?_⟩
    · intro frames rest _
      have hassoc : chars level (.object (f :: fields)) ++ rest
          = '\x7b' :: '\n' :: (fieldsChars (level + 1) (f :: fields)
            ++ (List.replicate (2 * level) ' ' ++ '\x7d' :: rest)) := by
        simp [chars_object, indentation]
      rw [hassoc]
      calc readFrom ⟨frames, .operand p⟩ _
          -- No text stands right behind the brace, so it opens no object of data.
          = readFrom ⟨frames, .key p []⟩ ('\n' :: _) :=
            readFrom_mark (by decide) (fun _ => by simp) rfl
        _ = readFrom ⟨frames, .key p []⟩ (fieldsChars (level + 1) (f :: fields) ++ _) :=
            readFrom_blank _ (by decide) _
        _ = readFrom ⟨frames, .key p read⟩ (List.replicate (2 * level) ' ' ++ '\x7d' :: rest) :=
            hfields frames _
        _ = readFrom ⟨frames, .key p read⟩ ('\x7d' :: rest) := readFrom_indentation _ _ _
        _ = readFrom ⟨frames, .behind p (.object read)⟩ rest :=
            readFrom_mark (by decide) (fun e => absurd e (by decide)) rfl
    · rw [canonical, hread, canonical]

/-! ### Unions and intersections -/

/-- Members with `|` between them are read as their members together. -/
theorem readsSum_union (level : Nat) {member : TypeExpr} {members : List TypeExpr}
    (h : ∀ type ∈ member :: members, Readable type) :
    ReadsSum (unionChars level (member :: members)) (member :: members) := by
  induction members generalizing member with
  | nil => exact (h member List.mem_cons_self).sum level
  | cons next rest ih =>
    intro p hp
    obtain ⟨q, last, hread, hfirst⟩ := (h member List.mem_cons_self).sum level p hp
    obtain ⟨q', last', hread', hothers⟩ := ih (fun t ht => h t (List.mem_cons_of_mem member ht))
      ⟨q.members ++ [intersectionOf (q.factors ++ [last])], []⟩ rfl
    refine ⟨q', last', ?_, ?_⟩
    · intro frames text htext
      rw [unionChars_cons, List.append_assoc, List.append_assoc]
      calc readFrom ⟨frames, .operand p⟩ (member.chars level ++ ' ' :: '|' :: ' ' :: _)
          = readFrom ⟨frames, .behind q last⟩ (' ' :: '|' :: ' ' :: _) :=
            hread frames _ (stops_cons (by decide) _)
        _ = readFrom ⟨frames, .behind q last⟩ ('|' :: ' ' :: _) := readFrom_blank _ (by decide) _
        _ = readFrom ⟨frames, .operand _⟩ (' ' :: _) :=
            readFrom_mark (by decide) (fun e => absurd e (by decide)) rfl
        _ = readFrom ⟨frames, .operand _⟩ (unionChars level (next :: rest) ++ text) :=
            readFrom_blank _ (by decide) _
        _ = readFrom ⟨frames, .behind q' last'⟩ text := hread' frames text htext
    · rw [hothers, hfirst, List.append_assoc, ← spreadAlternatives_append]
      rfl

/-- A factor is read as its factors, in brackets as itself. -/
theorem readsProduct_factor (level : Nat) {factor : TypeExpr} (h : Readable factor) :
    ReadsProduct (factorChars level factor) [factor] := by
  unfold factorChars
  split
  · exact (readsAtom_group h level).product
  · rename_i hplain
    exact h.product (by simpa using hplain) level

/-- Factors with `&` between them are read as their factors together. -/
theorem readsProduct_intersection (level : Nat) {factor : TypeExpr} {factors : List TypeExpr}
    (h : ∀ type ∈ factor :: factors, Readable type) :
    ReadsProduct (intersectionChars level (factor :: factors)) (factor :: factors) := by
  induction factors generalizing factor with
  | nil => exact readsProduct_factor level (h factor List.mem_cons_self)
  | cons next rest ih =>
    intro p
    obtain ⟨fs, last, hread, hfirst⟩ := readsProduct_factor level (h factor List.mem_cons_self) p
    obtain ⟨fs', last', hread', hothers⟩ := ih (fun t ht => h t (List.mem_cons_of_mem factor ht))
      ⟨p.members, fs ++ [last]⟩
    refine ⟨fs', last', ?_, ?_⟩
    · intro frames text htext
      rw [intersectionChars_cons, List.append_assoc, List.append_assoc]
      calc readFrom ⟨frames, .operand p⟩ (factorChars level factor ++ ' ' :: '&' :: ' ' :: _)
          = readFrom ⟨frames, .behind ⟨p.members, fs⟩ last⟩ (' ' :: '&' :: ' ' :: _) :=
            hread frames _ (stops_cons (by decide) _)
        _ = readFrom ⟨frames, .behind ⟨p.members, fs⟩ last⟩ ('&' :: ' ' :: _) :=
            readFrom_blank _ (by decide) _
        _ = readFrom ⟨frames, .operand _⟩ (' ' :: _) :=
            readFrom_mark (by decide) (fun e => absurd e (by decide)) rfl
        _ = readFrom ⟨frames, .operand _⟩ (intersectionChars level (next :: rest) ++ text) :=
            readFrom_blank _ (by decide) _
        _ = readFrom ⟨frames, .behind ⟨p.members, fs'⟩ last'⟩ text := hread' frames text htext
    · rw [hothers, hfirst, List.append_assoc, ← spreadFactors_append]
      rfl

/-- A word that names no other type is read as a single operand. -/
theorem readsAtom_word {c : Char} {r : List Char} {type : TypeExpr}
    (hc : Name.isInitial c = true) (hr : ∀ d ∈ r, Name.isFollowing d = true)
    (htype : (wordType (String.ofList (c :: r))).canonical = type.canonical) :
    ReadsAtom (c :: r) type :=
  fun _ => ⟨_, fun _ _ hrest => readFrom_word hc hr hrest rfl, htype⟩

/-- A wrapper around a single member is read as that member. -/
theorem readable_wrapper {type member : TypeExpr} (h : Readable member)
    (hchars : ∀ level, type.chars level = member.chars level)
    (hcanonical : type.canonical = member.canonical)
    (hcompound : type.isCompound = member.isCompound) (hunion : type.isUnion = member.isUnion) :
    Readable type := by
  refine ⟨?_, ?_, ?_⟩
  · intro hplain level p
    rw [hchars, hcanonical]
    exact h.atom (hcompound ▸ hplain) level p
  · intro hplain level p
    rw [hchars, spreadFactors_singleton, hcanonical, ← spreadFactors_singleton]
    exact h.product (hunion ▸ hplain) level p
  · intro level p hp
    rw [hchars, spreadAlternatives_singleton, hcanonical, ← spreadAlternatives_singleton]
    exact h.sum level p hp

theorem readable_union {members : List TypeExpr} (h : ∀ type ∈ members, Readable type) :
    Readable (.union members) := by
  match members, h with
  | [], _ =>
    exact Readable.of_atom (fun level => readsAtom_word (c := 'n') (r := "ever".toList)
      (by decide) (by decide) rfl)
  | [member], h =>
    exact readable_wrapper (h member List.mem_cons_self) (fun _ => rfl)
      (canonical_union_singleton member) rfl rfl
  | member :: next :: rest, h =>
    have hseveral : spreadAlternatives [.union (member :: next :: rest)]
        = spreadAlternatives (member :: next :: rest) := by
      rw [spreadAlternatives_singleton, canonical_union]
      exact alternatives_unite (two_le_length_flatMap
        (fun t => alternatives_ne_nil (canonical t)) member next rest)
    refine ⟨fun e => by simp [isCompound] at e, fun e => by simp [isUnion] at e, ?_⟩
    intro level p hp
    rw [hseveral]
    exact readsSum_union level h p hp

theorem readable_intersection {factors : List TypeExpr} (h : ∀ type ∈ factors, Readable type) :
    Readable (.intersection factors) := by
  match factors, h with
  | [], _ =>
    exact Readable.of_atom (fun level => readsAtom_word (c := 'n') (r := "ever".toList)
      (by decide) (by decide) rfl)
  | [factor], h =>
    have hfactor := h factor List.mem_cons_self
    have hproduct : ∀ level, ReadsProduct ((TypeExpr.intersection [factor]).chars level)
        [.intersection [factor]] := by
      intro level p
      rw [spreadFactors_singleton, canonical_intersection_singleton, ← spreadFactors_singleton]
      exact readsProduct_factor level hfactor p
    refine ⟨?_, fun _ => hproduct, fun level => (hproduct level).sum⟩
    intro hplain level p
    rw [canonical_intersection_singleton]
    show ∃ last, ReadsTo (factorChars level factor) p p last ∧ last.canonical = factor.canonical
    simp only [isCompound] at hplain
    -- A factor that is a union stands in brackets, so it cannot be the reason.
    cases hunion : factor.isUnion with
    | true =>
      rw [factorChars, hunion, if_pos rfl]
      exact readsAtom_group hfactor level p
    | false =>
      rw [factorChars, hunion, if_neg Bool.false_ne_true]
      exact hfactor.atom (by simpa [hunion] using hplain) level p
  | factor :: next :: rest, h =>
    have hseveral : spreadFactors [.intersection (factor :: next :: rest)]
        = spreadFactors (factor :: next :: rest) := by
      rw [spreadFactors_singleton, canonical_intersection]
      exact factors_intersect (two_le_length_flatMap
        (fun t => factors_ne_nil (canonical t)) factor next rest)
    have hproduct : ∀ level, ReadsProduct
        ((TypeExpr.intersection (factor :: next :: rest)).chars level)
        [.intersection (factor :: next :: rest)] := by
      intro level p
      rw [hseveral]
      exact readsProduct_intersection level h p
    exact ⟨fun e => by simp [isCompound] at e, fun _ => hproduct, fun level => (hproduct level).sum⟩

/-! ### Single words and data -/

theorem wordType_of_typeName {name : String} (h : Name.typeName name = name) :
    wordType name = .ref name := by
  unfold wordType
  split
  all_goals try exact absurd h (by decide)
  rfl

/-- A type name is read as the type of that name. -/
theorem readable_ref {name : String} (h : Name.typeName name = name) : Readable (.ref name) := by
  obtain ⟨c, r, hchars, hc, hr⟩ := Name.exists_typeChars_eq name.toList
  have hlist : name.toList = c :: r := by
    rw [← hchars]
    exact (congrArg String.toList h).symm.trans String.toList_ofList
  have hinitial : Name.isInitial c = true := by
    rcases hc with hupper | rfl
    · simp [Name.isInitial, isAlpha_of_isUpper hupper]
    · decide
  refine Readable.of_atom (fun level => ?_)
  show ReadsAtom name.toList (.ref name)
  rw [hlist]
  refine readsAtom_word hinitial (fun d hd => isFollowing_of_isAlphanum (hr d hd)) ?_
  rw [← hlist, String.ofList_toList, wordType_of_typeName h]

/-- The text of a value is read as that value. -/
theorem readable_literal {v : Json} (hv : ∀ s, v ≠ .string s) : Readable (.literal v.compact) := by
  refine Readable.of_atom (fun level p => ⟨dataType v, ?_, ?_⟩)
  · intro frames rest hrest
    show readFrom _ (v.compact.toList ++ rest) = _
    rw [Json.compact, String.toList_ofList]
    exact readFrom_data frames p hv hrest
  · unfold dataType
    split
    · rfl
    · rfl

mutual

theorem readable_of_legible : (type : TypeExpr) → type.Legible → Readable type
  | .string, _ => Readable.of_atom (fun _ => readsAtom_word (c := 's') (r := "tring".toList)
      (by decide) (by decide) rfl)
  | .number, _ => Readable.of_atom (fun _ => readsAtom_word (c := 'n') (r := "umber".toList)
      (by decide) (by decide) rfl)
  | .boolean, _ => Readable.of_atom (fun _ => readsAtom_word (c := 'b') (r := "oolean".toList)
      (by decide) (by decide) rfl)
  | .unknown, _ => Readable.of_atom (fun _ => readsAtom_word (c := 'u') (r := "nknown".toList)
      (by decide) (by decide) rfl)
  | .any, _ => Readable.of_atom (fun _ => readsAtom_word (c := 'a') (r := "ny".toList)
      (by decide) (by decide) rfl)
  | .stringLiteral text, _ => Readable.of_atom (fun _ _ =>
      ⟨.stringLiteral text, fun _ _ _ => readFrom_literal (by
        simp only [step, operandStep, String.ofList_toList]), rfl⟩)
  | .literal text, h => by
    obtain ⟨v, hv, rfl⟩ := h
    exact readable_literal hv
  | .ref name, h => readable_ref h
  | .array item, h => readable_array (readable_of_legible item h)
  | .record value, h => readable_record (readable_of_legible value h)
  | .object fields, h => readable_object (readable_of_legibleFields fields h)
  | .union members, h => readable_union (readable_of_legibleList members h)
  | .intersection members, h => readable_intersection (readable_of_legibleList members h)

theorem readable_of_legibleList : (types : List TypeExpr) → LegibleList types →
    ∀ type ∈ types, Readable type
  | [], _ => by simp
  | type :: rest, h => by
    intro t ht
    rcases List.mem_cons.1 ht with heq | ht
    · exact heq ▸ readable_of_legible type h.1
    · exact readable_of_legibleList rest h.2 t ht

/-- The types of all of some legible fields are readable. -/
theorem readable_of_legibleFields : (fields : List Field) → LegibleFields fields →
    ∀ f ∈ fields, Readable f.type
  | [], _ => by simp
  | ⟨name, type, required, description⟩ :: rest, h => by
    intro f hf
    rcases List.mem_cons.1 hf with heq | hf
    · exact heq ▸ readable_of_legible type h.1
    · exact readable_of_legibleFields rest h.2 f hf

end

end TypedClient.TypeReader

namespace TypedClient.TypeExpr

/-! ### Round trip -/

/-- **Texts of types are unambiguous**: the text of a legible type reads as that
    type, as far as the language tells types apart. -/
theorem canonical_read_render (type : TypeExpr) (h : type.Legible) :
    (TypeReader.read type.render).map canonical = some type.canonical := by
  obtain ⟨q, last, hread, hvalue⟩ := (TypeReader.readable_of_legible type h).value 0
  have hall := hread [] [] (by simp [TypeReader.Stops])
  rw [List.append_nil] at hall
  rw [TypeReader.read, render, String.toList_ofList, hall, TypeReader.readFrom.eq_def]
  exact congrArg some hvalue

/-- A record of lists of unions of intersections, with literals and data in it. -/
def sample : TypeExpr :=
  .object
    [⟨"it's", .array (.union [.intersection [.union [.ref "A", .ref "B"], .ref "_3d"],
        .stringLiteral "]|", .literal "[1,\"a]\"]"]), false, some "text"⟩,
     ⟨"$id", .record (.intersection [.union [.literal "-1", .object []], .union []]), true, none⟩]

theorem canonical_read_render_sample :
    sample.Legible ∧
      (TypeReader.read sample.render).map canonical = some sample.canonical := by
  have hlist : "[1,\"a]\"]" = (Json.array [.number (.int 1), .string "a]"]).compact := rfl
  have hnumber : "-1" = (Json.number (.int (-1))).compact := rfl
  have hlegible : sample.Legible :=
    ⟨⟨⟨⟨rfl, rfl, trivial⟩, rfl, trivial⟩, trivial, ⟨_, by simp, hlist⟩, trivial⟩,
      ⟨⟨⟨_, by simp, hnumber⟩, trivial, trivial⟩, trivial, trivial⟩, trivial⟩
  exact ⟨hlegible, canonical_read_render sample hlegible⟩

end TypedClient.TypeExpr
