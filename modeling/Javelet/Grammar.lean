import Javelet.Token.Kind

/-! Which rule reads an expression, a statement or a type, by the kind of its first token. The
rules for what the language leaves out are there so that an error can name the construct. -/
namespace Javelet

/-- How strongly an operator binds, weakest first. -/
inductive Power where
  | lowest | assignment | logical | relational | additive | multiplicative | unary | call | member
  | primary
deriving DecidableEq

namespace Power

def rank : Power → Nat
  | lowest => 0
  | assignment => 1
  | logical => 2
  | relational => 3
  | additive => 4
  | multiplicative => 5
  | unary => 6
  | call => 7
  | member => 8
  | primary => 9

instance : LT Power := ⟨fun a b => a.rank < b.rank⟩

instance (a b : Power) : Decidable (a < b) := inferInstanceAs (Decidable (a.rank < b.rank))

end Power

inductive OperandRule where
  | primary
  | refused
deriving DecidableEq

inductive StatementRule where
  | block
  | declaration
  | refused
deriving DecidableEq

inductive TypeRule where
  | name
  | primitive
deriving DecidableEq

/-- Every infix operator is refused, and every suffix of a type is an array's brackets, so a power
says all there is to say about one. -/
structure Grammar where
  operand : Kind → Option OperandRule
  operator : Kind → Power
  statement : Kind → Option StatementRule
  typeHead : Kind → Option TypeRule
  typeSuffix : Kind → Power

/-- What a program would do with a token of this kind, as errors put it. -/
def Kind.construct : Kind → String
  | punct .assign | punct .plusEquals | punct .minusEquals => "assignment"
  | punct .conjunction | punct .disjunction | punct .negation => "logical operator"
  | punct .question => "conditional expression"
  | punct .less | punct .lessEquals | punct .greater | punct .greaterEquals
  | punct .equals | punct .notEquals => "relational operator"
  | punct .plus | punct .dash | punct .star | punct .slash | punct .percent =>
    "arithmetic operator"
  | punct .plusPlus | punct .minusMinus => "increment operator"
  | punct .openParen => "method invocation"
  | punct .openBracket => "array access"
  | punct .dot => "field access"
  | string => "string literal"
  | keyword .newWord => "object creation"
  | keyword .returnWord => "return statement"
  | keyword .ifWord | keyword .elseWord => "if statement"
  | keyword .whileWord | keyword .doWord | keyword .forWord => "loop"
  | keyword .classWord => "local class declaration"
  | punct .semicolon => "empty statement"
  | keyword .interfaceWord => "interface declaration"
  | keyword .enumWord => "enum declaration"
  | keyword .extendsWord | keyword .implementsWord => "inheritance"
  | _ => "construct"

namespace Grammar

/-- No rules at all. -/
def empty : Grammar where
  operand _ := none
  operator _ := .lowest
  statement _ := none
  typeHead _ := none
  typeSuffix _ := .lowest

def standard : Grammar where
  operand
    | .number | .identifier | .keyword .trueWord | .keyword .falseWord | .keyword .nullWord =>
      some .primary
    | .string | .punct .dash | .punct .negation | .punct .plusPlus | .punct .minusMinus
    | .punct .openParen | .keyword .newWord => some .refused
    | _ => none
  operator
    | .punct .assign | .punct .plusEquals | .punct .minusEquals => .assignment
    | .punct .conjunction | .punct .disjunction | .punct .question => .logical
    | .punct .less | .punct .lessEquals | .punct .greater | .punct .greaterEquals
    | .punct .equals | .punct .notEquals => .relational
    | .punct .plus | .punct .dash => .additive
    | .punct .star | .punct .slash | .punct .percent => .multiplicative
    | .punct .plusPlus | .punct .minusMinus => .unary
    | .punct .openParen | .punct .openBracket => .call
    | .punct .dot => .member
    | _ => .lowest
  statement
    | .punct .openCurly => some .block
    | .primitive _ => some .declaration
    | .keyword .returnWord | .keyword .ifWord | .keyword .elseWord | .keyword .whileWord
    | .keyword .forWord | .keyword .doWord | .keyword .classWord | .punct .semicolon =>
      some .refused
    | _ => none
  typeHead
    | .identifier => some .name
    | .primitive _ => some .primitive
    | _ => none
  typeSuffix
    | .punct .openBracket => .call
    | _ => .lowest

def setOperand (g : Grammar) (kind : Kind) (rule : OperandRule) : Grammar :=
  { g with operand := fun k => if k = kind then some rule else g.operand k }

def setOperator (g : Grammar) (kind : Kind) (power : Power) : Grammar :=
  { g with operator := fun k => if k = kind then power else g.operator k }

def setStatement (g : Grammar) (kind : Kind) (rule : StatementRule) : Grammar :=
  { g with statement := fun k => if k = kind then some rule else g.statement k }

def setTypeHead (g : Grammar) (kind : Kind) (rule : TypeRule) : Grammar :=
  { g with typeHead := fun k => if k = kind then some rule else g.typeHead k }

def setTypeSuffix (g : Grammar) (kind : Kind) (power : Power) : Grammar :=
  { g with typeSuffix := fun k => if k = kind then power else g.typeSuffix k }

end Grammar
end Javelet
