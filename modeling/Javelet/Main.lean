import Javelet.CommandLine

namespace Javelet.CommandLine

def readFile (name : String) : IO (Except ReadFault String) := do
  try
    return textOfBytes (← IO.FS.readBinFile name)
  catch
    | .noFileOrDirectory _ _ _ => return .error .missing
    | fault => return .error (.other (toString fault))

/-- Every file is read once, before the first is checked. -/
def readFiles (names : List String) : IO (String → Except ReadFault String) := do
  let contents ← names.mapM fun name => do return (name, ← readFile name)
  return fun name => (contents.lookup name).getD (.error .missing)

def answer (arguments : List String) : IO Output := do
  match Request.ofArguments arguments with
  | .error fault => return fault.output
  | .ok .version => return Request.version.answer .errors fun _ => .error .missing
  | .ok (.check options) =>
    return (Request.check options).answer .errors (← readFiles options.files)

end Javelet.CommandLine

def main (arguments : List String) : IO UInt32 := do
  let output ← Javelet.CommandLine.answer arguments
  IO.print output.stdout
  IO.eprint output.stderr
  return output.exit.toUInt32
