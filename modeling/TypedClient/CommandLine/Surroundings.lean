import TypedClient.Files.Tree
import TypedClient.Table
import TypedClient.Url.Basic

/-! # Surroundings of a command

    What a command needs from where it runs: the files, the environment, what
    answers requests, other programs, and two places to write to.

    * **`Surroundings`** says what that is; commands are written for any.
    * **`Session`** is one that is all data: a tree of files, variables, what
      comes of requests and of other programs, and what has been written so far.
-/

namespace TypedClient.CommandLine

/-- What is wrong with a request, with the causes behind it, the nearest first. -/
structure RequestError where
  message : String
  causes : List String := []

/-- The error of a request that nothing answers. -/
def RequestError.unanswered (url : Url) : RequestError where
  message := "error sending request for url (" ++ url.text ++ ")"

/-- What answers a request. -/
structure Reply where
  /-- The number of its status. -/
  status : Nat
  /-- The usual phrase for the status. -/
  phrase : String
  /-- The text of its body, which may break off. -/
  body : Except RequestError String

/-- Whether a reply brings what was requested. -/
def Reply.isSuccess (r : Reply) : Bool :=
  200 ≤ r.status && r.status < 300

/-- What a command needs from where it runs. -/
class Surroundings (m : Type → Type) where
  /-- Whether there is anything at a path. -/
  pathExists : String → m Bool
  readText : String → m (Except FileError String)
  /-- Makes a folder and the folders around it, as far as they are missing. -/
  makeFolders : String → m (Except FileError Unit)
  /-- Writes a text into a file. -/
  writeText : String → String → m (Except FileError Unit)
  /-- The value of a variable. -/
  lookUp : String → m (Option String)
  /-- Gets ready for requests, or says what keeps it from that. -/
  connect : m (Except String Unit)
  /-- Requests what is at a URL. -/
  request : Url → m (Except RequestError Reply)
  /-- Runs a program with its arguments in a folder: whether it succeeds, where
      it can be started at all. -/
  runProgram : String → List String → String → m (Option Bool)
  /-- Tells the user something on the way. -/
  tell : String → m Unit
  /-- Prints a part of the answer. -/
  answer : String → m Unit

/-- Surroundings that are all data. Where nothing else is said, nothing answers a
    request, and no program can be started. -/
structure Session where
  tree : FileTree
  environment : Table String := []
  /-- What the user has been told. -/
  told : String := ""
  answered : String := ""
  /-- What comes of getting ready for requests. -/
  connected : Except String Unit := .ok ()
  /-- What comes of a request. -/
  replies : Url → Except RequestError Reply := fun url => .error (.unanswered url)
  /-- What comes of running a program with its arguments in a folder: whether it
      succeeds, and the tree behind it. -/
  programs : String → List String → String → FileTree → Option (Bool × FileTree) :=
    fun _ _ _ _ => none

namespace Session

variable (s : Session)

/-- Puts the outcome of a change into a session. -/
def change : Except FileError FileTree → Except FileError Unit × Session
  | .ok tree => (.ok (), { s with tree })
  | .error e => (.error e, s)

/-- Puts the outcome of a program into a session. -/
def afterProgram : Option (Bool × FileTree) → Option Bool × Session
  | some (succeeded, tree) => (some succeeded, { s with tree })
  | none => (none, s)

end Session

instance : Surroundings (StateM Session) where
  pathExists path := do return (← get).tree.pathExists path
  readText path := do return (← get).tree.readText path
  makeFolders path := modifyGet (fun s => s.change (s.tree.makeFolders path))
  writeText path text := modifyGet (fun s => s.change (s.tree.writeText path text))
  lookUp name := do return Table.find? name (← get).environment
  connect := do return (← get).connected
  request url := do return (← get).replies url
  runProgram program arguments folder :=
    modifyGet (fun s => s.afterProgram (s.programs program arguments folder s.tree))
  tell text := modify (fun s => { s with told := s.told ++ text })
  answer text := modify (fun s => { s with answered := s.answered ++ text })

end TypedClient.CommandLine
