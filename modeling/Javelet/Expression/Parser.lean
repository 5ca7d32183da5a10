import Javelet.Expression
import Javelet.Grammar
import Javelet.Parser
import Javelet.Token.Number

namespace Javelet.Parser

def primary : Parser Expression := do
  let cursor ← get
  let token := cursor.current
  match token.kind with
  | .number =>
    match Number.value? token.value with
    | some value => return .number value token.value (← advance).span
    | none => throw ⟨.badNumber token.value, cursor.position⟩
  | .identifier => return .name token.value (← advance).span
  | .keyword .trueWord => return .boolean true (← advance).span
  | .keyword .falseWord => return .boolean false (← advance).span
  | .keyword .nullWord => return .null (← advance).span
  | _ => unexpected

/-- An operand that the language leaves out. -/
def refusedOperand : Parser Expression := do
  match ← kind with
  | .punct .openParen => unsupported "parenthesized expression"
  | .punct .dash => unsupported "unary operator"
  | kind => unsupported kind.construct

/-- An operator behind an operand: the language has none. -/
def refusedOperator : Parser Expression := do unsupported (← kind).construct

def operand (g : Grammar) : Parser Expression := do
  match g.operand (← kind) with
  | some .primary => primary
  | some .refused => refusedOperand
  | none => unexpected

/-- An operand, refusing operators behind it that bind more strongly than `floor`. -/
def expression (g : Grammar) (floor : Power) : Parser Expression := do
  let operand ← operand g
  if floor < g.operator (← kind) then refusedOperator else return operand

end Javelet.Parser
