/-! The arguments of the command line. They are taken from left to right: the first fault ends the
reading, and so does the wish to see the version. -/
namespace Javelet.CommandLine

inductive Format where
  | text | json
deriving DecidableEq

def Format.ofName? : String → Option Format
  | "text" => some .text
  | "json" => some .json
  | _ => none

structure Options where
  files : List String
  format : Format
  quiet : Bool
deriving DecidableEq

inductive Request where
  | version
  | check (options : Options)
deriving DecidableEq

inductive UsageFault where
  | noFile
  | emptyPath
  | unknownOption (option : String)
  | missingValue (option : String)
  | unexpectedValue (option : String)
  | badFormat (value : String)
  | repeated (option : String)
deriving DecidableEq

def UsageFault.message : UsageFault → String
  | noFile => "at least one file is required"
  | emptyPath => "a file cannot have an empty name"
  | unknownOption option => "unknown option " ++ option
  | missingValue option => option ++ " needs a value"
  | unexpectedValue option => option ++ " takes no value"
  | badFormat value => "the format is text or json, not " ++ value
  | repeated option => option ++ " can be given only once"

/-- A switch as it stands in one argument. The value of a format may be left to the next one. -/
inductive Switch where
  | quiet
  | version
  | format (value : Option String)
  | faulty (fault : UsageFault)
deriving DecidableEq

/-- What was given so far. Files are in reverse. -/
structure Given where
  files : List String := []
  format : Option Format := none
  quiet : Bool := false

namespace Given

def addFile (given : Given) (name : String) : Except UsageFault Given :=
  if name.isEmpty then .error .emptyPath else .ok { given with files := name :: given.files }

def setFormat (given : Given) (value : String) : Except UsageFault Given :=
  match Format.ofName? value with
  | none => .error (.badFormat value)
  | some format =>
    if given.format.isSome then .error (.repeated "--format")
    else .ok { given with format := some format }

def setQuiet (given : Given) : Except UsageFault Given :=
  if given.quiet then .error (.repeated "--quiet") else .ok { given with quiet := true }

/-- Without a format, text is meant. -/
def toOptions (given : Given) : Except UsageFault Options :=
  if given.files.isEmpty then .error .noFile
  else .ok ⟨given.files.reverse, given.format.getD .text, given.quiet⟩

end Given

/-- The switches behind a single dash. A format takes what is left of the argument, with or without
an equals sign, as its value. -/
def shortSwitches : List Char → List Switch
  | [] => []
  | 'q' :: rest => .quiet :: shortSwitches rest
  | 'V' :: rest => .version :: shortSwitches rest
  | ['f'] => [.format none]
  | 'f' :: '=' :: value => [.format (some (String.ofList value))]
  | 'f' :: value => [.format (some (String.ofList value))]
  | c :: _ => [.faulty (.unknownOption ("-" ++ String.ofList [c]))]

/-- The switch behind two dashes, from its name and the value behind an equals sign. -/
def longSwitch : String → Option String → Switch
  | "quiet", none => .quiet
  | "version", none => .version
  | "format", value => .format value
  | name, some _ =>
    if name = "quiet" ∨ name = "version" then .faulty (.unexpectedValue ("--" ++ name))
    else .faulty (.unknownOption ("--" ++ name))
  | name, none => .faulty (.unknownOption ("--" ++ name))

/-- The switches of an argument. A lone dash is a file, not a switch. -/
def switches? (argument : String) : Option (List Switch) :=
  match argument.toList with
  | '-' :: '-' :: long =>
    let name := String.ofList (long.takeWhile (· ≠ '='))
    match long.dropWhile (· ≠ '=') with
    | [] => some [longSwitch name none]
    | _ :: value => some [longSwitch name (some (String.ofList value))]
  | '-' :: c :: short => some (shortSwitches (c :: short))
  | _ => none

/-- Where a run of switches leads. -/
inductive Step where
  | version
  | next (given : Given)
  | awaitFormat (given : Given)

def applySwitches (given : Given) : List Switch → Except UsageFault Step
  | [] => .ok (.next given)
  | .quiet :: rest => do applySwitches (← given.setQuiet) rest
  | .version :: _ => .ok .version
  | .format (some value) :: rest => do applySwitches (← given.setFormat value) rest
  | .format none :: _ => .ok (.awaitFormat given)
  | .faulty fault :: _ => .error fault

def readArguments (given : Given) : List String → Except UsageFault Request
  | [] => .check <$> given.toOptions
  | "--" :: files => do .check <$> (← files.foldlM Given.addFile given).toOptions
  | argument :: rest =>
    match switches? argument with
    | none => do readArguments (← given.addFile argument) rest
    | some switches => do
      match ← applySwitches given switches with
      | .version => return .version
      | .next given => readArguments given rest
      | .awaitFormat given =>
        match rest with
        | [] => throw (.missingValue "--format")
        | value :: rest =>
          if (switches? value).isSome then throw (.missingValue "--format")
          else readArguments (← given.setFormat value) rest

def Request.ofArguments (arguments : List String) : Except UsageFault Request :=
  readArguments {} arguments

end Javelet.CommandLine
