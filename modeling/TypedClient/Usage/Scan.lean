import TypedClient.Usage.Names
import TypedClient.Text.Blank
import TypedClient.Text.Word

/-! # Types that a text mentions

    A second look at the generated code, for names that the schemas did not
    give:

    * **Literals**: quoted texts are blanked out first. A quote without its
      partner stays, as does one with a backslash before a line feed.
    * **Delimited names** are capitalized words with a delimiter, a blank or
      the end of the text behind them.
    * **Names behind colons** need nothing behind them.
-/

namespace TypedClient.Scan

/-- The text behind a literal that starts behind its opening quote. -/
def behindLiteral (quote : Char) : List Char → Option (List Char)
  | [] => none
  | [c] => if c = quote then some [] else none
  | c :: d :: r =>
    if c = quote then some (d :: r)
    else if c = '\\' then
      -- A backslash keeps the next character, but no line feed.
      if d = '\n' then none else behindLiteral quote r
    else behindLiteral quote (d :: r)

/-- What stands behind a literal is shorter than what stood behind its quote. -/
theorem length_behindLiteral_lt {quote : Char} {s rest : List Char}
    (h : behindLiteral quote s = some rest) : rest.length < s.length := by
  fun_induction behindLiteral quote s with
  | case1 => simp at h
  | case2 => simp at h; subst h; simp
  | case3 => simp at h
  | case4 => simp at h; subst h; simp
  | case5 => simp at h
  | case6 d r hq hd ih => have := ih h; simp only [List.length_cons]; omega
  | case7 c d r hq hb ih =>
    have := ih h
    simp only [List.length_cons] at this ⊢
    omega

/-- Puts an empty literal in the place of every literal. -/
def blankLiterals (s : List Char) : List Char :=
  match s with
  | [] => []
  | c :: r =>
    if c = '\'' ∨ c = '"' then
      match _h : behindLiteral c r with
      | some rest => '\'' :: '\'' :: blankLiterals rest
      | none => c :: blankLiterals r
    else c :: blankLiterals r
termination_by s.length
decreasing_by
  · have := length_behindLiteral_lt (by assumption)
    simp; omega
  · simp
  · simp

/-- The characters that end a delimited name. -/
def isDelimiter (c : Char) : Bool :=
  Text.isBlank c || "[]<>\x7b\x7d();,?:|&".toList.contains c

/-- Splits off the letters and digits at the front. -/
def word (s : List Char) : List Char × List Char :=
  (s.takeWhile Char.isAlphanum, s.dropWhile Char.isAlphanum)

/-- The capitalized words with a delimiter behind them. `inWord` says whether a
    word character stands before the text, so that none can start here. -/
def delimitedNames (inWord : Bool) : List Char → List String
  | [] => []
  | c :: r =>
    let here :=
      if !inWord && c.isUpper then
        match word r with
        -- The end of the text delimits too.
        | (name, []) => [String.ofList (c :: name)]
        | (name, d :: _) => if isDelimiter d then [String.ofList (c :: name)] else []
      else []
    here ++ delimitedNames (Text.isWord c) r

/-- The capitalized words right behind colons and blanks. -/
def namesBehindColons : List Char → List String
  | [] => []
  | c :: r =>
    let here :=
      if c = ':' then
        match r.dropWhile Text.isBlank with
        | d :: rest => if d.isUpper then [String.ofList (d :: (word rest).1)] else []
        | [] => []
      else []
    here ++ namesBehindColons r

/-- The declared types that a text mentions, in the order in which they are
    found. -/
def mentions (text : String) (definitions : Definitions) : NameSet :=
  let code := blankLiterals text.toList
  NameSet.ofNames ((delimitedNames false code ++ namesBehindColons code).filter definitions.declares)

end TypedClient.Scan
