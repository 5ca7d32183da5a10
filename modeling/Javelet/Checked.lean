import Javelet.Declaration.Parser
import Javelet.Derivation
import Javelet.Signatures.Collect
import Javelet.Token.Scan

/-! Checking a source from its text to the verdict. The language is a small part of Java: one class
with fields, and methods whose bodies declare local variables. -/
namespace Javelet

structure Checked where
  signatures : Signatures
  verdict : Verdict

def CompilationUnit.ofSource (source file : String) : Except Error CompilationUnit := do
  CompilationUnit.ofTokens (← Token.scan source file) file

/-- What a source declares and the verdict on it, or the first error on the way. -/
def check (source file : String) : Except Error Checked := do
  let unit ← CompilationUnit.ofSource source file
  let signatures ← Signatures.ofUnit unit
  return ⟨signatures, ← Verdict.ofUnit signatures unit⟩

namespace Event

/-- The declarations of a unit, up to the error if there is one. -/
def ofCollecting (unit : CompilationUnit) : List Event :=
  let declared := fun (s : Signatures) => s.types.map fun (name, tag) => Event.declared name tag
  match (Collector.unit unit).run {} with
  | .ok _ s => declared s ++ [.collected s.types.length unit.classes.length]
  | .error _ s => declared s

/-- The steps of checking a unit, up to the error if there is one. -/
def ofChecking (signatures : Signatures) (unit : CompilationUnit) : List Event :=
  match (Check.unit unit).run { scopes := { globals := signatures } } with
  | .ok derivation c => c.events.reverse ++ [.unitChecked derivation.tag.isVoid]
  | .error _ c => c.events.reverse

/-- Everything that checking a source reports, in order. -/
def ofSource (source file : String) : List Event :=
  match CompilationUnit.ofSource source file with
  | .error _ => []
  | .ok unit =>
    .parsed file unit.imports.length unit.classes.length :: ofCollecting unit ++
    match Signatures.ofUnit unit with
    | .error _ => []
    | .ok signatures => ofChecking signatures unit

end Event
end Javelet
