import TypedClient.Proofs.FunctionText
import TypedClient.Proofs.PathParts
import TypedClient.Proofs.ScannedTypes

/-! # Functions in scanned code

    The text of the functions reveals every named type that they use, as long
    as the texts that come from the document as they are hold no quotes.

    * **Query strings** put the keys of arguments between quotes, where quotes
      of their own are escaped.
    * **Paths and comments** stand in the code as they are, so that a quote in
      them may hide what comes behind it.
-/

namespace TypedClient

open Scan

/-! ### Query strings -/

namespace Expression

mutual

/-- Whether the literals of an expression end where they should, and nothing
    else in it holds quotes. -/
def WellQuoted : Expression → Prop
  | .null => True
  | .literal body => Skips '\'' body
  | .name text => Quoteless text
  | .call function argument => Quoteless function ∧ argument.WellQuoted
  | .conditional test whenTrue whenFalse =>
    test.WellQuoted ∧ whenTrue.WellQuoted ∧ whenFalse.WellQuoted
  | .both left right => left.WellQuoted ∧ right.WellQuoted
  | .isGiven operand => operand.WellQuoted
  | .differs left right => left.WellQuoted ∧ right.WellQuoted
  | .hasItems operand => operand.WellQuoted
  | .append left right => left.WellQuoted ∧ right.WellQuoted
  | .list items => WellQuotedList items
  | .mapItems operand bound body => operand.WellQuoted ∧ Quoteless bound ∧ body.WellQuoted
  | .onlyTrue operand => operand.WellQuoted
  | .joinItems operand separator => operand.WellQuoted ∧ Skips '\'' separator
  | .binding bound value body => Quoteless bound ∧ value.WellQuoted ∧ body.WellQuoted

/-- Whether this holds of all items of a list. -/
def WellQuotedList : List Expression → Prop
  | [] => True
  | item :: rest => item.WellQuoted ∧ WellQuotedList rest

end

mutual

theorem neutral_chars : (e : Expression) → e.WellQuoted → Neutral e.chars
  | .null, _ => neutral_word "null"
  | .literal body, h => .literal (.inl rfl) h
  | .name text, h => .of_quoteless h
  | .call function argument, h => by
    have hfunction : Neutral function := .of_quoteless h.1
    have hargument : Neutral (['('] ++ argument.chars) :=
      (neutral_char (by decide)).append (neutral_chars argument h.2)
    have hclose : Neutral ")".toList := neutral_word ")"
    exact (hfunction.append hargument).append hclose
  | .conditional test whenTrue whenFalse, h => by
    have htest := neutral_chars test h.1
    have htrue := neutral_chars whenTrue h.2.1
    have hfalse := neutral_chars whenFalse h.2.2
    have hquestion : Neutral " ? ".toList := neutral_word " ? "
    have hcolon : Neutral " : ".toList := neutral_word " : "
    exact (((htest.append hquestion).append htrue).append hcolon).append hfalse
  | .both left right, h => by
    have hleft := neutral_chars left h.1
    have hright := neutral_chars right h.2
    exact (hleft.append (neutral_word " && ")).append hright
  | .isGiven operand, h => by
    have hoperand := neutral_chars operand h
    exact hoperand.append (neutral_word " != null")
  | .differs left right, h => by
    have hleft := neutral_chars left h.1
    have hright := neutral_chars right h.2
    exact (hleft.append (neutral_word " !== ")).append hright
  | .hasItems operand, h => by
    have hoperand := neutral_chars operand h
    exact hoperand.append (neutral_word ".length > 0")
  | .append left right, h => by
    have hleft := neutral_chars left h.1
    have hright := neutral_chars right h.2
    exact (hleft.append (neutral_word " + ")).append hright
  | .list items, h => by
    have hitems := neutral_listChars items h
    have hopen : Neutral "[".toList := neutral_word "["
    exact (hopen.append hitems).append (neutral_word "]")
  | .mapItems operand bound body, h => by
    have hoperand := neutral_chars operand h.1
    have hbound : Neutral bound := .of_quoteless h.2.1
    have hbody := neutral_chars body h.2.2
    have hmap : Neutral ".map((".toList := neutral_word ".map(("
    have harrow : Neutral ") => ".toList := neutral_word ") => "
    have hclose : Neutral ")".toList := neutral_word ")"
    exact ((((hoperand.append hmap).append hbound).append harrow).append hbody).append hclose
  | .onlyTrue operand, h => by
    have hoperand := neutral_chars operand h
    exact hoperand.append (neutral_word ".filter(Boolean)")
  | .joinItems operand separator, h => by
    have hcall := (neutral_chars operand h.1).append (neutral_word ".join(")
    have hliteral : Neutral ('\'' :: separator ++ ['\'']) := .literal (.inl rfl) h.2
    have hall := (hcall.append hliteral).append (neutral_word ")")
    have hopen : ".join('".toList = ".join(".toList ++ ['\''] := by decide
    have hclose : "')".toList = ['\''] ++ ")".toList := by decide
    have hchars : (Expression.joinItems operand separator).chars
        = operand.chars ++ ".join('".toList ++ separator ++ "')".toList := rfl
    rw [hchars, hopen, hclose]
    simpa only [List.append_assoc, List.cons_append, List.nil_append] using hall
  | .binding bound value body, h => by
    have hbound : Neutral bound := .of_quoteless h.1
    have hvalue := neutral_chars value h.2.1
    have hbody := neutral_chars body h.2.2
    have hopen : Neutral "(() => \x7b const ".toList :=
      neutral_word "(() => \x7b const "
    have hequals : Neutral " = ".toList := neutral_word " = "
    have hreturn : Neutral "; return ".toList := neutral_word "; return "
    have hclose : Neutral "; \x7d)()".toList := neutral_word "; \x7d)()"
    have hconst := ((hopen.append hbound).append hequals).append hvalue
    exact ((hconst.append hreturn).append hbody).append hclose

/-- The texts of the well-quoted items of a list are neutral. -/
theorem neutral_listChars : (items : List Expression) → WellQuotedList items →
    Neutral (listChars items)
  | [], _ => .nil
  | [item], h => neutral_chars item h.1
  | item :: next :: rest, h => by
    have hitem := neutral_chars item h.1
    have hrest := neutral_listChars (next :: rest) h.2
    exact (hitem.append (neutral_word ", ")).append hrest

end

end Expression

namespace Query

variable {a : Argument}

theorem skips_key (a : Argument) : Skips '\'' (key a) := by
  refine .flatMap (fun c _ => ?_)
  unfold keyChar
  split
  · exact .escape (by decide) (by decide)
  · exact .escape (by decide) (by decide)
  · rename_i hb hq
    exact .plain hq hb

/-- A contribution is well quoted if the name of its argument holds no quotes. -/
theorem wellQuoted_pair {lead : List Char} (hlead : Skips '\'' lead) (h : Quoteless a.name.toList) :
    (pair lead a).WellQuoted := by
  have hequals : Skips '\'' ['='] := .plain (by decide) (by decide)
  have hvalue : (encodedValue a).WellQuoted := by
    unfold encodedValue
    split
    · have hbound : Quoteless ['v'] := by decide
      have hsep : Skips '\'' ('&' :: key a ++ ['=']) :=
        (Skips.append (a := ['&']) (.plain (by decide) (by decide)) (skips_key a)).append hequals
      exact ⟨⟨h, hbound, by decide, by decide, hbound⟩, hsep⟩
    · exact ⟨by decide, by decide, h⟩
  exact ⟨(hlead.append (skips_key a)).append hequals, hvalue⟩

theorem wellQuoted_presence (h : Quoteless a.name.toList) : (presence a).WellQuoted := by
  unfold presence
  refine ⟨h, ?_⟩
  split
  · exact h
  · exact ⟨⟨by decide, h⟩, .nil⟩

theorem wellQuoted_joined {arguments : List Argument}
    (h : ∀ a ∈ arguments, Quoteless a.name.toList) : (joined arguments).WellQuoted := by
  have hlist : Expression.WellQuotedList (arguments.map contribution) := by
    induction arguments with
    | nil => trivial
    | cons a rest ih =>
      obtain ⟨ha, hrest⟩ := List.forall_mem_cons.1 h
      refine ⟨?_, ih hrest⟩
      unfold contribution
      split
      · exact wellQuoted_pair .nil ha
      · exact ⟨wellQuoted_presence ha, wellQuoted_pair .nil ha, trivial⟩
  have hparts : Quoteless partsName := by decide
  have hmark : Skips '\'' ['?'] := .plain (by decide) (by decide)
  have hand : Skips '\'' ['&'] := .plain (by decide) (by decide)
  exact ⟨hparts, hlist, hparts, ⟨hmark, hparts, hand⟩, .nil⟩

/-- What stands behind the path in a URL is neutral. -/
theorem neutral_suffixChars {arguments : List Argument}
    (h : ∀ a ∈ arguments, Quoteless a.name.toList) : Neutral (suffixChars arguments) := by
  have hall : ∀ e ∈ expression? arguments, e.WellQuoted := by
    intro e he
    unfold expression? at he
    split at he
    · cases he
    · rename_i only
      have honly : Quoteless only.name.toList := h only List.mem_cons_self
      split at he
      · obtain rfl := Option.some.inj he
        exact wellQuoted_joined h
      · obtain rfl := Option.some.inj he
        exact ⟨wellQuoted_presence honly, wellQuoted_pair (.plain (by decide) (by decide)) honly,
          .nil⟩
    · obtain rfl := Option.some.inj he
      exact wellQuoted_joined h
  unfold suffixChars
  split
  · exact .nil
  · rename_i e he
    have hchars := Expression.neutral_chars e (hall e he)
    exact ((Neutral.of_quoteless (a := ['$', '\x7b']) (by decide)).append hchars).append
      (neutral_char (by decide))

end Query

/-! ### Comments -/

namespace Comment

/-- A text that is kept from ending its comment holds no quotes of its own. -/
theorem quoteless_safe {s : List Char} (h : Quoteless s) : Quoteless (safe s) := by
  intro c hc
  rcases mem_of_mem_safe hc with rfl | hmem
  · decide
  · exact h c hmem

/-- Nor does a comment of lines without quotes. -/
theorem quoteless_block {lines : List (List Char)} (h : ∀ line ∈ lines, Quoteless line) :
    Quoteless (block lines) := by
  cases lines with
  | nil => simp [block, Quoteless]
  | cons line rest =>
    have hopening : Quoteless "/**\n".toList := by decide
    have hclosing : Quoteless " */\n".toList := by decide
    have hstar : Quoteless " * ".toList := by decide
    have hfeed : Quoteless ['\n'] := by decide
    have hlines : Quoteless ((line :: rest).flatMap
        (fun line => " * ".toList ++ safe line ++ ['\n'])) := by
      intro c hc
      obtain ⟨l, hl, hc⟩ := List.mem_flatMap.1 hc
      exact (hstar.append (quoteless_safe (h l hl))).append hfeed c hc
    exact (hopening.append hlines).append hclosing

/-- A comment of lines without quotes lets words start behind it. -/
theorem opens_block {lines : List (List Char)} (h : ∀ line ∈ lines, Quoteless line) :
    Opens (block lines) where
  neutral := .of_quoteless (quoteless_block h)
  ends := by
    rw [blankLiterals_of_quoteless (quoteless_block h)]
    cases lines with
    | nil => simp [block, EndsWord]
    | cons line rest =>
      have hend : " */\n".toList = " */".toList ++ ['\n'] := by decide
      have hfeed : ∀ s : List Char, EndsWord (s ++ ['\n']) := by
        intro s
        have hword : Text.isWord '\n' = false := by decide
        simpa [EndsWord] using hword
      rw [block, hend, ← List.append_assoc]
      exact hfeed _

end Comment

/-! ### Functions -/

/-- What is known of the texts of an endpoint that are made up for it: its names
    hold no quotes, and its types are given. -/
structure Endpoint.Regular (e : Endpoint) : Prop where
  /-- The name of the function. -/
  name : Quoteless e.name.toList
  arguments : ∀ a ∈ e.arguments, Quoteless a.name.toList ∧ ∃ sources, a.type.Given sources
  body : ∀ b ∈ e.body, Quoteless b.name.toList ∧ ∃ sources, b.type.Given sources
  /-- The type of what it returns. -/
  returns : ∃ sources, e.returns.Given sources

/-- Whether the texts that an endpoint takes from the document as they are hold
    no quotes. -/
structure Endpoint.Unquoted (withoutComments : Bool) (e : Endpoint) : Prop where
  path : Quoteless e.path.toList
  /-- The texts of the comment, unless it is left out. -/
  comments : withoutComments = false →
    Quoteless (e.summary.getD "").toList ∧ Quoteless (e.description.getD "").toList

/-- The names of the named types at any depth of the types of an endpoint. -/
def Endpoint.refs (e : Endpoint) : List String :=
  e.arguments.flatMap (·.type.refs) ++ (e.body.map (·.type.refs)).getD [] ++ e.returns.refs

theorem SignatureEntry.reveals_chars {e : SignatureEntry} (hname : Quoteless e.name.toList)
    {sources : List String} (htype : e.type.Given sources) (requiredBehind : Bool) :
    Reveals e.type.refs (e.chars requiredBehind) := by
  have htype := Scan.reveals_chars e.type htype 0
  have hcolon : Opens (e.name.toList ++ ": ".toList) := by
    have hsnoc := Opens.snoc (c := ' ')
      ((Neutral.of_quoteless hname).append (neutral_char (c := ':') (by decide)))
      (by decide) (by decide)
    rwa [List.append_assoc] at hsnoc
  have hmark : Opens (e.name.toList ++ "?: ".toList) := by
    have hsnoc := Opens.snoc (c := ' ')
      ((Neutral.of_quoteless hname).append (Neutral.of_quoteless (a := "?:".toList) (by decide)))
      (by decide) (by decide)
    rwa [List.append_assoc] at hsnoc
  unfold chars
  split
  · exact htype.prepend hcolon
  · split
    · exact htype.surround hcolon (.cons (by decide) _) (.of_quoteless (by decide))
    · exact htype.prepend hmark

/-- Entries of a signature, with commas in between, reveal their types. -/
theorem SignatureEntry.reveals_texts {entries : List SignatureEntry}
    (h : ∀ e ∈ entries, Quoteless e.name.toList ∧ ∃ sources, e.type.Given sources) :
    Reveals (entries.flatMap (·.type.refs)) (List.intercalate ", ".toList (texts entries)) := by
  induction entries with
  | nil => exact .nil .nil
  | cons e rest ih =>
    obtain ⟨⟨hname, sources, htype⟩, hrest⟩ := List.forall_mem_cons.1 h
    have hhere := e.reveals_chars hname htype (rest.any (·.required))
    have hbehind := ih hrest
    rw [List.flatMap_cons, texts]
    cases rest with
    | nil =>
      rw [List.flatMap_nil, List.append_nil, texts, List.intercalate_singleton]
      exact hhere
    | cons next more =>
      have hmore : texts (next :: more) ≠ [] := List.cons_ne_nil _ _
      rw [List.intercalate_cons_of_ne_nil hmore]
      exact hhere.separate hbehind ',' [] ' ' (by decide) (by decide) (by decide)

namespace Endpoint

variable {e : Endpoint} {clientName : String} {withoutComments : Bool}

theorem Regular.entries (h : e.Regular) :
    ∀ entry ∈ e.entries, Quoteless entry.name.toList ∧ ∃ sources, entry.type.Given sources := by
  intro entry hentry
  rcases List.mem_append.1 hentry with hentry | hentry
  · obtain ⟨a, ha, rfl⟩ := List.mem_map.1 hentry
    exact h.arguments a ha
  · obtain ⟨b, hb, rfl⟩ := Option.map_eq_some_iff.1 (Option.mem_toList.1 hentry)
    exact h.body b hb

/-- The signature of a regular endpoint reveals the types of its arguments. -/
theorem Regular.reveals_signature (h : e.Regular) :
    Reveals (e.arguments.flatMap (·.type.refs) ++ (e.body.map (·.type.refs)).getD [])
      e.signatureChars := by
  have hrefs : e.entries.flatMap (·.type.refs)
      = e.arguments.flatMap (·.type.refs) ++ (e.body.map (·.type.refs)).getD [] := by
    rw [Endpoint.entries, List.flatMap_append, List.flatMap_map]
    cases e.body with
    | none => rfl
    | some b => exact congrArg _ (List.append_nil b.type.refs)
  rw [← hrefs]
  exact SignatureEntry.reveals_texts h.entries

/-- **The step**: putting an argument in the place of its token brings no quotes
    into a text. -/
theorem quoteless_placeArgument {s : List Char} {a : Argument} (hs : Quoteless s)
    (ha : Quoteless a.name.toList) : Quoteless (placeArgument s a) := by
  have hopen : Quoteless ['$', '\x7b'] := by decide
  have hclose : Quoteless ['\x7d'] := by decide
  have hreplacement : Quoteless (['$', '\x7b'] ++ a.name.toList ++ ['\x7d']) :=
    (hopen.append ha).append hclose
  intro c hc
  rcases Text.mem_replaceFrom hc with hc | hc
  · exact hs c hc
  · exact hreplacement c hc

/-- **The run**: nor does putting in all arguments. -/
theorem quoteless_foldl_placeArgument {arguments : List Argument} {s : List Char}
    (hnames : ∀ a ∈ arguments, Quoteless a.name.toList) (hs : Quoteless s) :
    Quoteless (arguments.foldl placeArgument s) := by
  induction arguments generalizing s with
  | nil => exact hs
  | cons a rest ih =>
    obtain ⟨ha, hrest⟩ := List.forall_mem_cons.1 hnames
    exact ih hrest (quoteless_placeArgument hs ha)

/-- Keeping a path from ending its literal brings no quotes into it. -/
theorem quoteless_flatMap_pathChar {path : List Char} (h : Quoteless path) :
    Quoteless (path.flatMap pathChar) := by
  have hmarks : Quoteless ['\\', '`'] := by decide
  intro c hc
  obtain ⟨d, hd, hcd⟩ := List.mem_flatMap.1 hc
  unfold pathChar at hcd
  split at hcd
  · exact hmarks c hcd
  · rw [List.mem_singleton.1 hcd]
    exact h d hd

/-- The arguments of one place of a regular endpoint. -/
theorem Regular.quoteless_names (h : e.Regular) (p : Argument → Bool) :
    ∀ a ∈ e.arguments.filter p, Quoteless a.name.toList := by
  intro a ha
  exact (h.arguments a (List.mem_filter.1 ha).1).1

/-- The URL of a regular endpoint is neutral if its path holds no quotes. -/
theorem Regular.neutral_urlChars (h : e.Regular) (hpath : Quoteless e.path.toList) :
    Neutral e.urlChars := by
  have htemplate : Quoteless e.pathTemplate :=
    quoteless_foldl_placeArgument (h.quoteless_names _) (quoteless_flatMap_pathChar hpath)
  have hsuffix : Neutral (Query.suffixChars e.queryArguments) :=
    Query.neutral_suffixChars (h.quoteless_names _)
  exact (Neutral.of_quoteless htemplate).append hsuffix

/-- What a call passes on of a body is neutral. -/
theorem neutral_bodyArgument (method : Method) {name : String} (h : Quoteless name.toList) :
    Neutral (bodyArgument method name) := by
  have hname : Neutral name.toList := .of_quoteless h
  have hcomma : Neutral ", ".toList := neutral_word ", "
  have hshort : Neutral ", \x7b data \x7d".toList := neutral_word ", \x7b data \x7d"
  have hopen : Neutral ", \x7b data: ".toList := neutral_word ", \x7b data: "
  have hclose : Neutral " \x7d".toList := neutral_word " \x7d"
  have hwrapped : Neutral (if name = "data" then ", \x7b data \x7d".toList
      else ", \x7b data: ".toList ++ name.toList ++ " \x7d".toList) := by
    split
    · exact hshort
    · exact (hopen.append hname).append hclose
  cases method with
  | get => exact hwrapped
  | delete => exact hwrapped
  | post => exact hcomma.append hname
  | put => exact hcomma.append hname
  | patch => exact hcomma.append hname

theorem Regular.neutral_callArguments (h : e.Regular) : Neutral e.callArguments := by
  unfold callArguments
  split
  · exact .nil
  · rename_i b hb
    exact neutral_bodyArgument e.method (h.body b hb).1

/-- **Functions reveal their types**, as long as no quotes come from elsewhere. -/
theorem Regular.reveals_functionChars (h : e.Regular) (hclient : Quoteless clientName.toList)
    (hpath : Quoteless e.path.toList) : Reveals e.refs (e.functionChars clientName) := by
  obtain ⟨sources, hreturns⟩ := h.returns
  have hmethod : Quoteless e.method.lower.toList := by
    cases e.method <;> decide
  have hopens : Opens ("export async function ".toList ++ e.name.toList ++ ['(']) := by
    have hfront : Neutral "export async function ".toList :=
      neutral_word "export async function "
    exact .snoc (hfront.append (.of_quoteless h.name)) (by decide) (by decide)
  have htypes : Reveals e.refs
      (e.signatureChars ++ "): Promise<".toList ++ e.returns.chars 0) := by
    have hreturned := Scan.reveals_chars e.returns hreturns 0
    exact h.reveals_signature.separate hreturned ')' ": Promise".toList '<'
      (by decide) (by decide) (by decide)
  have hcall : Neutral (clientName.toList ++ '.' :: e.method.lower.toList ++ "(`".toList
      ++ e.urlChars ++ ['`'] ++ e.callArguments) := by
    have hdot : Neutral (['.'] ++ e.method.lower.toList) :=
      (neutral_char (by decide)).append (.of_quoteless hmethod)
    have hbracket : Neutral "(`".toList := neutral_word "(`"
    have hfunction := ((Neutral.of_quoteless hclient).append hdot).append hbracket
    have hurl := hfunction.append (h.neutral_urlChars hpath)
    exact (hurl.append (neutral_char (by decide))).append h.neutral_callArguments
  have htail : Neutral ("> \x7b\n  const response = await ".toList
      ++ (clientName.toList ++ '.' :: e.method.lower.toList ++ "(`".toList ++ e.urlChars ++ ['`']
        ++ e.callArguments) ++ ");\n  return response.data;\n\x7d\n".toList) :=
    ((Neutral.of_quoteless (by decide)).append hcall).append (.of_quoteless (by decide))
  have hall := htypes.surround hopens (.cons (by decide) _) htail
  -- Stated for any texts, so that the words of the language stay closed.
  have hshape : ∀ front name signature promise returns await client method call url behind tail :
      List Char,
      front ++ name ++ '(' :: signature ++ promise ++ returns ++ await ++ client ++ '.' :: method
          ++ call ++ url ++ ['`'] ++ behind ++ tail
        = front ++ name ++ ['('] ++ (signature ++ promise ++ returns)
          ++ (await ++ (client ++ '.' :: method ++ call ++ url ++ ['`'] ++ behind) ++ tail) := by
    intros
    simp only [List.append_assoc, List.cons_append, List.nil_append]
  unfold functionChars
  rw [hshape]
  exact hall

/-- The function of an endpoint with its comment reveals its types. -/
theorem Regular.reveals_piece (h : e.Regular) (hclient : Quoteless clientName.toList)
    (hunquoted : e.Unquoted withoutComments) :
    Reveals e.refs ((e.piece clientName).chars withoutComments) := by
  have hfunction := h.reveals_functionChars hclient hunquoted.path
  cases withoutComments with
  | true => exact hfunction
  | false =>
    obtain ⟨hsummary, hdescription⟩ := hunquoted.comments rfl
    have hlines : ∀ line ∈ e.docLines, Quoteless line := by
      intro line hline c hc
      rcases (of_mem_docLines hline hc).2 with hc | hc | hc
      · exact hsummary c hc
      · exact hdescription c hc
      · exact (by decide : Quoteless "@deprecated".toList) c hc
    exact hfunction.prepend (Comment.opens_block hlines)

/-- **All functions** reveal their types. -/
theorem reveals_pieces {endpoints : List Endpoint} (h : ∀ e ∈ endpoints, e.Regular)
    (hclient : Quoteless clientName.toList)
    (hunquoted : ∀ e ∈ endpoints, e.Unquoted withoutComments) :
    Reveals (endpoints.flatMap refs)
      (Piece.concat withoutComments (pieces clientName endpoints)) := by
  induction endpoints with
  | nil => exact .nil .nil
  | cons e rest ih =>
    obtain ⟨he, hrest⟩ := List.forall_mem_cons.1 h
    obtain ⟨heu, hrestu⟩ := List.forall_mem_cons.1 hunquoted
    have hhere := he.reveals_piece hclient heu
    have hbehind := ih hrest hrestu
    rw [List.flatMap_cons]
    cases rest with
    | nil =>
      rw [List.flatMap_nil, List.append_nil, concat_pieces_singleton]
      exact hhere
    | cons next more =>
      have hfront : Reveals e.refs ((e.piece clientName).chars withoutComments ++ (['\n']
          ++ Piece.concat withoutComments (pieces clientName (next :: more)))) :=
        hhere.append (.cons (by decide) _) ((neutral_char (by decide)).append hbehind.neutral)
      have hback := hbehind.prepend (Opens.snoc (c := '\n') hhere.neutral (by decide) (by decide))
      rw [List.append_assoc] at hback
      rw [concat_pieces_cons]
      exact hfront.union hback

end Endpoint

end TypedClient
