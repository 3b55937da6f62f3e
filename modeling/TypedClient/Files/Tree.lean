import TypedClient.Files.Error
import TypedClient.Files.PathText

/-! # Trees of files

    The files and folders below a root, and what happens to them when a path is
    read, made or written.

    * **Places** are the names on the way from the root; paths that do not
      start at the root start at the working folder.
    * **Following a path**, every part but the last has to be a folder. Two
      dots go back to the folder around it.
    * **Limits**: a name has at most 255 bytes, a path at most 4095.
-/

namespace TypedClient

/-- The names on the way from the root. -/
abbrev FilePlace := List String

/-- A part of a path. -/
inductive PathStep where
  | stay
  /-- Goes to the folder around it. -/
  | up
  /-- Goes to a name in the folder. -/
  | down (name : String)
  deriving DecidableEq, Repr

/-- The part that a piece of a path stands for; an empty piece is none. -/
def PathStep.ofPiece? (piece : List Char) : Option PathStep :=
  match piece with
  | [] => none
  | ['.'] => some .stay
  | ['.', '.'] => some .up
  | name => some (.down (String.ofList name))

/-- The parts of a path. -/
def PathStep.ofPath (path : String) : List PathStep :=
  (Text.cutAt '/' path.toList).filterMap ofPiece?

/-- Files and folders. -/
structure FileTree where
  /-- The place that paths start at. -/
  working : FilePlace
  /-- The folders besides the root. -/
  folders : List FilePlace
  /-- The files and their bytes. -/
  files : List (FilePlace × ByteArray)

namespace FileTree

/-- Whether there is a folder at a place. -/
def isFolder (t : FileTree) (place : FilePlace) : Bool :=
  place.isEmpty || t.folders.contains place

/-- The bytes of the file at a place. -/
def content? (t : FileTree) (place : FilePlace) : Option ByteArray :=
  t.files.lookup place

/-- Puts bytes at a place. -/
def putContent (t : FileTree) (place : FilePlace) (bytes : ByteArray) : FileTree :=
  { t with files := (place, bytes) :: t.files.filter (fun file => file.1 != place) }

/-- Puts a folder at a place. -/
def putFolder (t : FileTree) (place : FilePlace) : FileTree :=
  { t with folders := place :: t.folders }

/-- Follows parts from a place. Whether there is anything at the end is not
    looked at. -/
def follow (t : FileTree) (place : FilePlace) : List PathStep → Except FileError FilePlace
  | [] => .ok place
  | step :: rest =>
    -- Only a folder can be gone on from, also for a dot.
    if t.isFolder place then
      match step with
      | .stay => t.follow place rest
      | .up => t.follow place.dropLast rest
      | .down name =>
        if 255 < name.utf8ByteSize then .error .tooLong else t.follow (place ++ [name]) rest
    else if (t.content? place).isSome then .error .notAFolder
    else .error .missing

/-- Refuses texts that are no path at all. -/
def wellFormed (path : String) : Except FileError Unit :=
  if path.toList.contains '\x00' then .error .badName
  else if path.isEmpty then .error .missing
  else if 4095 < path.utf8ByteSize then .error .tooLong
  else .ok ()

def start (t : FileTree) (path : String) : FilePlace :=
  if PathText.isAbsolute path then [] else t.working

/-- The place of a path. A path that ends in a slash is that of a folder. -/
def place? (t : FileTree) (path : String) : Except FileError FilePlace := do
  wellFormed path
  -- A slash at the end asks for one more step, which stays.
  let inFolder := if path.toList.getLast? = some '/' then [PathStep.stay] else []
  t.follow (t.start path) (PathStep.ofPath path ++ inFolder)

/-- Whether there is anything at a path. -/
def pathExists (t : FileTree) (path : String) : Bool :=
  match t.place? path with
  | .ok place => t.isFolder place || (t.content? place).isSome
  | .error _ => false

def readText (t : FileTree) (path : String) : Except FileError String := do
  let place ← t.place? path
  if t.isFolder place then .error .isAFolder
  else
    match t.content? place with
    | none => .error .missing
    | some bytes =>
      match String.fromUTF8? bytes with
      | some text => .ok text
      | none => .error .notText

/-- The place that the last part of a path is in, and its name if it has one of
    its own. -/
def lastPart (t : FileTree) (path : String) : Except FileError (FilePlace × Option String) := do
  wellFormed path
  let steps := PathStep.ofPath path
  let place ← t.follow (t.start path) steps.dropLast
  match steps.getLast? with
  | some (.down name) =>
    let _ ← t.follow place [.down name]
    return (place, some name)
  | some step =>
    let around ← t.follow place [step]
    return (around, none)
  | none => return (place, none)

def makeFolder (t : FileTree) (path : String) : Except FileError FileTree := do
  match ← t.lastPart path with
  | (_, none) => .error .occupied
  | (around, some name) =>
    let place := around ++ [name]
    if t.isFolder place || (t.content? place).isSome then .error .occupied
    else .ok (t.putFolder place)

/-- Makes a folder, unless it is there. -/
def ensureFolder (t : FileTree) (path : String) : Except FileError FileTree :=
  match t.makeFolder path with
  | .ok t => .ok t
  -- Something is there already, which is good if it is a folder.
  | .error .occupied =>
    match t.place? path with
    | .ok place => if t.isFolder place then .ok t else .error .occupied
    | .error _ => .error .occupied
  | .error e => .error e

/-- Makes folders, from the inside out until one can be made, and then inwards
    again. `pending` holds those to be made inwards. -/
def ensureFolders (t : FileTree) (pending : List String) : List String → Except FileError FileTree
  | [] => pending.foldlM ensureFolder t
  | path :: outer =>
    match t.ensureFolder path with
    | .ok t => pending.foldlM ensureFolder t
    | .error .missing => t.ensureFolders (path :: pending) outer
    | .error e => .error e

/-- Makes a folder and the folders around it, as far as they are missing. -/
def makeFolders (t : FileTree) (path : String) : Except FileError FileTree :=
  t.ensureFolders [] (PathText.ancestry path)

/-- Writes a text, in place of what the file held before. -/
def writeText (t : FileTree) (path text : String) : Except FileError FileTree := do
  match ← t.lastPart path with
  | (_, none) => .error .isAFolder
  | (around, some name) =>
    let place := around ++ [name]
    if t.isFolder place then .error .isAFolder else .ok (t.putContent place text.toUTF8)

/-! ### Making and comparing trees -/

/-- A tree that holds nothing but its working folder. -/
def empty : FileTree :=
  ⟨["home"], [["home"]], []⟩

/-- Adds the folders on the way to a place, with the one at its end. -/
def addFolders (t : FileTree) (place : FilePlace) : FileTree :=
  (List.range (place.length + 1)).foldl (fun t n =>
    let around := place.take n
    if t.isFolder around then t else t.putFolder around) t

/-- The place of names in the working folder. -/
def placeOf (t : FileTree) (path : String) : FilePlace :=
  t.working ++ (PathStep.ofPath path).filterMap (fun
    | .down name => some name
    | _ => none)

/-- Adds a file and the folders around it. -/
def addFile (t : FileTree) (path : String) (bytes : ByteArray) : FileTree :=
  let place := t.placeOf path
  (t.addFolders place.dropLast).putContent place bytes

/-- Adds a folder and the folders around it. -/
def addFolder (t : FileTree) (path : String) : FileTree :=
  t.addFolders (t.placeOf path)

/-- The path of a place, seen from the working folder. -/
def pathOf? (t : FileTree) (place : FilePlace) : Option String :=
  if t.working.isPrefixOf place then
    some (String.intercalate "/" (place.drop t.working.length))
  else none

/-- The files in the working folder that are not what they were before, by path. -/
def changes (before after : FileTree) : List (String × ByteArray) :=
  (after.files.filterMap (fun (place, bytes) =>
    if before.content? place == some bytes then none
    else (after.pathOf? place).map (fun path => (path, bytes)))).mergeSort
      (fun a b => decide (a.1 ≤ b.1))

end FileTree

end TypedClient
