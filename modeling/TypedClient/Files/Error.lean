/-! # Errors of files

    Why a file or a folder could not be read, made or written, with the words
    and the numbers that the operating system has for it.
-/

namespace TypedClient

/-- Why something could not be done with a path. -/
inductive FileError where
  /-- There is nothing at the path, or at the way to it. -/
  | missing
  /-- There is something at the path already. -/
  | occupied
  /-- There is a file where the path goes on. -/
  | notAFolder
  /-- There is a folder where a file is wanted. -/
  | isAFolder
  /-- The path, or a name in it, is too long. -/
  | tooLong
  /-- A name holds a NUL, which no name may. -/
  | badName
  /-- The file holds bytes that are no text. -/
  | notText
  /-- Anything else, in the words of the system. -/
  | other (words : String)
  deriving DecidableEq, Repr

/-- The wording of an error. -/
def FileError.message : FileError → String
  | .missing => "No such file or directory (os error 2)"
  | .occupied => "File exists (os error 17)"
  | .notAFolder => "Not a directory (os error 20)"
  | .isAFolder => "Is a directory (os error 21)"
  | .tooLong => "File name too long (os error 36)"
  | .badName => "file name contained an unexpected NUL byte"
  | .notText => "stream did not contain valid UTF-8"
  | .other words => words

end TypedClient
