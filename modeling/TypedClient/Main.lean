import TypedClient.CommandLine.Run

/-! # The program

    The command line on a real system: files, variables and streams. From here
    no request can be sent and no other program be started.
-/

namespace TypedClient

/-- What the system says about a path. -/
def FileError.ofSystem : IO.Error → FileError
  | .noFileOrDirectory .. => .missing
  | .alreadyExists .. => .occupied
  | .inappropriateType _ code _ => if code = 20 then .notAFolder else .isAFolder
  | e => .other (toString e)

/-- Does something to the files of the system. -/
def onSystem {α : Type} (act : IO α) : IO (Except FileError α) := do
  match ← act.toBaseIO with
  | .ok value => return .ok value
  | .error e => return .error (.ofSystem e)

/-- Reads a text from the files of the system. -/
def readSystemText (path : String) : IO (Except FileError String) := do
  match ← onSystem (IO.FS.readBinFile path) with
  | .error e => return .error e
  | .ok bytes =>
    match String.fromUTF8? bytes with
    | some text => return .ok text
    | none => return .error .notText

instance : CommandLine.Surroundings IO where
  pathExists path := do
    match ← (IO.FS.realPath path).toBaseIO with
    | .ok _ => return true
    | .error _ => return false
  readText := readSystemText
  makeFolders path := if path.isEmpty then return .ok () else onSystem (IO.FS.createDirAll path)
  writeText path text := onSystem (IO.FS.writeFile path text)
  lookUp name := IO.getEnv name
  connect := return .ok ()
  request url := return .error (.unanswered url)
  runProgram _ _ _ := return none
  tell := IO.eprint
  answer := IO.print

end TypedClient

def main (arguments : List String) : IO UInt32 := do
  let code ← TypedClient.CommandLine.run (m := IO) arguments
  return code.toUInt32
