import Javelet.Checked
import Javelet.CommandLine.Arguments
import Javelet.Error.Render
import Javelet.Json

namespace Javelet.CommandLine

def version : String := "typechecker 0.1.0"

inductive ReadFault where
  | missing
  | notText
  | other (reason : String)
deriving DecidableEq

def ReadFault.message : ReadFault → String
  | missing => "No such file or directory (os error 2)"
  | notText => "stream did not contain valid UTF-8"
  | other reason => reason

/-- Bytes as text, which they are in UTF-8 or not at all. -/
def textOfBytes (bytes : ByteArray) : Except ReadFault String :=
  match String.fromUTF8? bytes with
  | some text => .ok text
  | none => .error .notText

/-- What is written to standard error for an event, which is nothing for one that is not shown. The
time is not part of it: the same event is always written in the same way. -/
abbrev Logger := Event → String

namespace Logger

def silent : Logger := fun _ => ""

/-- Without a setting of its own, a run shows errors only, with the name of the program. -/
def errors : Logger := fun event =>
  if event.level = .error then
    "[" ++ event.level.name ++ " typechecker] " ++ event.text ++ "\n"
  else ""

def write (log : Logger) (events : List Event) : String := String.join (events.map log)

end Logger

/-- What came of one file, the best first. -/
inductive Outcome where
  | wellTyped | illTyped | fatal
deriving DecidableEq

def Outcome.exitCode : Outcome → Nat
  | wellTyped => 0
  | illTyped => 1
  | fatal => 2

structure Report where
  stdout : String
  stderr : String
  outcome : Outcome

/-- An error goes to standard error as text and to standard output as JSON. -/
def reportError (options : Options) (name source : String) (error : Error) : Report :=
  match options.format with
  | .text => ⟨"", error.render source, .fatal⟩
  | .json =>
    let json := Json.object
      [("error", .string error.cause.name), ("file", .string name),
        ("message", .string error.cause.message), ("position", .nat error.position.offset.toNat)]
    ⟨json.render ++ "\n", "", .fatal⟩

def reportVerdict (options : Options) (name : String) (verdict : Verdict) : Report :=
  let outcome := if verdict.wellTyped then .wellTyped else .illTyped
  match options.format with
  | .text =>
    let tree := if options.quiet then "" else verdict.root.report
    ⟨name ++ ": " ++ verdict.text ++ "\n" ++ tree, "", outcome⟩
  | .json =>
    let result := if options.quiet then ("well_typed", .bool verdict.wellTyped)
      else ("result", verdict.toJson)
    ⟨(Json.object [("file", .string name), result]).render ++ "\n", "", outcome⟩

def reportSource (options : Options) (name source : String) : Report :=
  match check source name with
  | .error e => reportError options name source e
  | .ok checked => reportVerdict options name checked.verdict

/-- The events of a file are written before what becomes of it. -/
def reportFile (log : Logger) (options : Options) (name : String)
    (content : Except ReadFault String) : Report :=
  match content with
  | .error fault =>
    let events := [.checking name, .unreadable name fault.message]
    ⟨"", log.write events ++ "Error: could not read " ++ name ++ ": " ++ fault.message ++ "\n",
      .fatal⟩
  | .ok source =>
    let report := reportSource options name source
    let events := .checking name :: Event.ofSource source name
    { report with stderr := log.write events ++ report.stderr }

structure Output where
  stdout : String
  stderr : String
  exit : Nat
deriving DecidableEq

/-- All reports, one behind the other. The worst outcome decides the exit code. -/
def Output.ofReports (reports : List Report) : Output where
  stdout := String.join (reports.map (·.stdout))
  stderr := String.join (reports.map (·.stderr))
  exit := (reports.map (·.outcome.exitCode)).foldl max 0

def UsageFault.output (fault : UsageFault) : Output :=
  ⟨"", "error: " ++ fault.message ++ "\n", 2⟩

/-- The answer to a request, given the files by name. -/
def Request.answer (log : Logger) (read : String → Except ReadFault String) : Request → Output
  | version => ⟨CommandLine.version ++ "\n", "", 0⟩
  | check options =>
    .ofReports (options.files.map fun name => reportFile log options name (read name))

/-- A run that shows no events. -/
def run (read : String → Except ReadFault String) (arguments : List String) :
    Except UsageFault Output :=
  (·.answer .silent read) <$> Request.ofArguments arguments

end Javelet.CommandLine
