import Javelet.Error
import Javelet.SourceLine
import Javelet.Text.Blank

namespace Javelet

/-- The line without its indentation and its end, and below it a pointer to the byte. -/
def SourceLine.excerpt (line : SourceLine) : String :=
  let isIndent := fun c => c == ' ' || c == '\t'
  let indent := (line.text.takeWhile isIndent).length
  let number := toString line.number
  let gutter := "".pushn ' ' (number.length + 1) ++ "|"
  gutter ++ "\n" ++
  number ++ " | " ++ String.ofList (Text.trimRight (line.text.drop indent)) ++ "\n" ++
  gutter ++ " " ++ "".pushn '-' (line.byte - indent) ++ "^\n"

/-- Name and tip, message, file, and the line of the source if it is there. -/
def Error.render (error : Error) (source : String) : String :=
  let tip := match error.cause.tip? with
    | some tip => " (" ++ tip ++ ")"
    | none => ""
  "Error: " ++ error.cause.name ++ tip ++ "\n" ++
  error.cause.message ++ "\n" ++
  "-> " ++ error.position.file ++ "\n" ++
  match SourceLine.find? source error.position.offset.toNat with
  | some line => line.excerpt
  | none => ""

end Javelet
