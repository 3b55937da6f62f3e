import TypedClient.Text.Blank

/-! # Arguments

    The words of a command line, read into what is asked for:

    * **Flags** come in any order behind the command. A long one has its value
      behind an equals sign or in the next word, a short one in the same word
      or in the next.
    * **Refused** are unknown words and flags, flags that come twice, missing
      values, and values that start with a dash in a word of their own.
    * **At once**: a word that asks for help or for the version is answered
      when it is met, whatever comes behind it.
-/

namespace TypedClient.CommandLine

/-- Where the document comes from, as far as flags say it. -/
structure SourceFlags where
  /-- The base URL of the API. -/
  apiUrl : Option String
  /-- What follows the base URL. -/
  documentPath : Option String
  input : Option String
  config : Option String
  deriving DecidableEq, Repr

/-- A way to write an outline. -/
inductive OutlineFormat where
  | yaml
  | json
  deriving DecidableEq, Repr

/-- What is to be done. -/
inductive Command where
  | generate (source : SourceFlags) (outputFolder : Option String) (unformatted : Bool)
  /-- Print an outline of the package. -/
  | inspect (source : SourceFlags) (format : OutlineFormat)
  | init (force : Bool)
  /-- Print a completion script for a shell. -/
  | completions (shell : String)
  deriving DecidableEq, Repr

/-- What a command line asks for, besides commands. -/
inductive Halt where
  /-- To be told the version. -/
  | version
  /-- To be told what may be asked for. -/
  | help
  | misuse
  deriving DecidableEq, Repr

/-- What the value of a flag may be. -/
inductive ValueKind where
  | none
  | text
  /-- A path, which is not empty. -/
  | path
  | oneOf (words : List String)
  deriving DecidableEq, Repr

/-- A flag of a command. -/
structure Flag where
  /-- Its name behind two dashes. -/
  long : String
  /-- Its name behind one dash. -/
  short : Option Char
  /-- What its value may be. -/
  kind : ValueKind
  deriving DecidableEq, Repr

/-- Whether a flag may have a value. -/
def Flag.admits (f : Flag) (value : String) : Bool :=
  match f.kind with
  | .none => true
  | .text => true
  | .path => !value.isEmpty
  | .oneOf words => words.contains value

/-- The flags that have been given, with their values. -/
abbrev Given := List (String × String)

/-- Adds a flag, which must not be there yet. -/
def Given.add (given : Given) (f : Flag) (value : String) : Except Halt Given :=
  if (given.lookup f.long).isSome || !f.admits value then .error .misuse
  else .ok ((f.long, value) :: given)

/-- Whether a word can be a value of its own. -/
def isValueWord (word : String) : Bool :=
  match word.toList with
  | '-' :: _ :: _ => false
  | _ => true

/-- What a word is. -/
inductive Word where
  /-- The end of the flags. -/
  | separator
  /-- A long flag, and the value behind its equals sign. -/
  | long (name : String) (value : Option String)
  /-- A short flag, and what follows it in the word. -/
  | short (name : Char) (rest : List Char)
  | other
  deriving DecidableEq, Repr

def Word.ofText (word : String) : Word :=
  match word.toList with
  | ['-', '-'] => .separator
  | '-' :: '-' :: r =>
    match r.dropWhile (· != '=') with
    | [] => .long (String.ofList r) Option.none
    | _ :: value => .long (String.ofList (r.takeWhile (· != '='))) (some (String.ofList value))
  | '-' :: c :: r => .short c r
  | _ => .other

/-- The flag that a word names, and the value that it has in the word. -/
def Word.flag? (flags : List Flag) : Word → Option (Flag × Option String)
  | .long name value => (flags.find? (fun f => f.long == name)).map (fun f => (f, value))
  | .short name rest =>
    (flags.find? (fun f => f.short == some name)).map (fun f =>
      (f, match rest with
        | [] => Option.none
        | '=' :: value => some (String.ofList value)
        | value => some (String.ofList value)))
  | _ => Option.none

/-- Whether a word asks for help. -/
def Word.asksForHelp : Word → Bool
  | .long name value => name == "help" && value.isNone
  | .short name _ => name == 'h'
  | _ => false

/-- Reads the flags of a command. -/
def readFlags (flags : List Flag) (given : Given) : List String → Except Halt Given
  | [] => .ok given
  | text :: rest =>
    let word := Word.ofText text
    if word = .separator then (if rest.isEmpty then .ok given else .error .misuse)
    -- Help is answered even where the flags so far make no sense together.
    else if word.asksForHelp then .error .help
    else
      match word.flag? flags with
      | Option.none => .error .misuse
      | some (f, value) =>
        if f.kind = .none then
          if value.isSome then .error .misuse
          else do readFlags flags (← given.add f "") rest
        else
          match value, rest with
          | some value, rest => do readFlags flags (← given.add f value) rest
          | Option.none, next :: rest =>
            if isValueWord next then do readFlags flags (← given.add f next) rest
            else .error .misuse
          | Option.none, [] => .error .misuse

/-- The flags that say where the document comes from. -/
def sourceFlags : List Flag :=
  [⟨"api-url", some 'u', .text⟩, ⟨"swagger-path", some 's', .text⟩, ⟨"input", some 'i', .path⟩,
   ⟨"config", some 'c', .path⟩]

/-- Where the document comes from. -/
def SourceFlags.ofGiven (given : Given) : SourceFlags :=
  { apiUrl := given.lookup "api-url"
    documentPath := given.lookup "swagger-path"
    input := given.lookup "input"
    config := given.lookup "config" }

/-- The shells that completion scripts are for. -/
def shells : List String :=
  ["bash", "elvish", "fish", "powershell", "zsh"]

/-- Reads the shell of a completion script. -/
def readShell : List String → Except Halt Command
  | [] => .error .misuse
  | "--" :: rest =>
    match rest with
    | [shell] => if shells.contains shell then .ok (.completions shell) else .error .misuse
    | _ => .error .misuse
  | text :: rest =>
    if (Word.ofText text).asksForHelp then .error .help
    else if !shells.contains text then .error .misuse
    else
      match rest with
      | [] => .ok (.completions text)
      | next :: _ =>
        if (Word.ofText next).asksForHelp then .error .help
        else if next = "--" ∧ rest = ["--"] then .ok (.completions text)
        else .error .misuse

/-- The names of the commands. -/
def commandNames : List String :=
  ["generate", "inspect", "init", "completions", "help"]

/-- What a command line asks for. -/
def Command.ofArguments : List String → Except Halt Command
  | "generate" :: rest => do
    let given ← readFlags
      (sourceFlags ++ [⟨"output-dir", some 'o', .path⟩, ⟨"no-format", Option.none, .none⟩]) [] rest
    return .generate (.ofGiven given) (given.lookup "output-dir")
      (given.lookup "no-format").isSome
  | "inspect" :: rest => do
    let given ← readFlags
      (sourceFlags ++ [⟨"format", Option.none, .oneOf ["yaml", "json"]⟩]) [] rest
    return .inspect (.ofGiven given) (if given.lookup "format" = some "json" then .json else .yaml)
  | "init" :: rest => do
    let given ← readFlags [⟨"force", Option.none, .none⟩] [] rest
    return .init (given.lookup "force").isSome
  | "completions" :: rest => readShell rest
  | "help" :: rest =>
    match rest with
    | [] => .error .help
    | [name] => if commandNames.contains name then .error .help else .error .misuse
    | _ => .error .misuse
  | text :: _ =>
    match Word.ofText text with
    | .long "version" Option.none => .error .version
    | .short 'V' _ => .error .version
    | word => if word.asksForHelp then .error .help else .error .misuse
  | [] => .error .misuse

end TypedClient.CommandLine
