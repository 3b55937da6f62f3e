import TypedClient.Text.Blank

/-! # Paths as they are written

    A path is a text of names with slashes between them. What is asked of it
    here is answered by the text alone, whatever there is on the disk:

    * **Idle parts**: further slashes, slashes at the end, and single dots
      behind a slash name nothing.
    * **The folder around a path** is the path without its last part.
    * **The extension** is what follows the last dot of the last name, unless
      that dot is the first character.
-/

namespace TypedClient.PathText

/-- Removes the idle parts at the end of a path that is written backwards. -/
def trimBack : List Char → List Char
  | '/' :: c :: r => trimBack (c :: r)
  | '.' :: '/' :: r => trimBack ('/' :: r)
  | s => s
termination_by s => s.length

/-- The folder around a path; a path without any part has none. -/
def parent? (path : String) : Option String :=
  match trimBack path.toList.reverse with
  | [] => none
  | ['/'] => none
  | back =>
    match back.dropWhile (· != '/') with
    | [] => some ""
    | rest => some (String.ofList (trimBack rest).reverse)

/-- A path and the folders around it, from the inside out, down to the last
    that has a name. At most `limit` of them. -/
def outwards (limit : Nat) (path : String) : List String :=
  match limit with
  | 0 => []
  | limit + 1 =>
    if path.isEmpty then []
    else
      match parent? path with
      | none => []
      | some parent => path :: outwards limit parent

/-- A path and the folders around it, from the inside out. -/
def ancestry (path : String) : List String :=
  outwards path.length path

/-- Whether a path starts at the root. -/
def isAbsolute (path : String) : Bool :=
  path.toList.head? == some '/'

/-- A path inside a folder. -/
def join (folder path : String) : String :=
  if isAbsolute path then path
  else
    match folder.toList.getLast? with
    | none => path
    | some '/' => folder ++ path
    | some _ => folder ++ "/" ++ path

/-- The last name of a path, backwards; none where it ends in dots. -/
def lastNameBack? (path : String) : Option (List Char) :=
  match (trimBack path.toList.reverse).takeWhile (· != '/') with
  | [] => none
  | ['.'] => none
  | ['.', '.'] => none
  | name => some name

/-- The extension of a path. -/
def extension? (path : String) : Option String :=
  (lastNameBack? path).bind (fun name =>
    match name.dropWhile (· != '.') with
    | [] => none
    | [_] => none
    | _ => some (String.ofList (name.takeWhile (· != '.')).reverse))

end TypedClient.PathText
