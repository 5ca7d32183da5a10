/-! The value of an `int` literal. Underscores anywhere are ignored. Hexadecimal, binary and octal
literals give all 32 bits, so `0xFFFFFFFF` is -1; a decimal literal stays within the signed
range. -/
namespace Javelet.Number

/-- The value of a digit, when the base has it. -/
def digit? (base : Nat) (c : Char) : Option Nat :=
  let value :=
    if '0' ≤ c ∧ c ≤ '9' then c.toNat - '0'.toNat
    else if 'a' ≤ c ∧ c ≤ 'z' then c.toNat - 'a'.toNat + 10
    else if 'A' ≤ c ∧ c ≤ 'Z' then c.toNat - 'A'.toNat + 10
    else base
  if value < base then some value else none

/-- Reads digits, most significant first. No digits is no number. -/
def natural? (base : Nat) : List Char → Option Nat
  | [] => none
  | digits => digits.foldlM (fun value c => (digit? base c).map (value * base + ·)) 0

/-- A plus sign may stand in front. -/
def unsigned? (base : Nat) : List Char → Option Nat
  | '+' :: digits => natural? base digits
  | digits => natural? base digits

/-- A 32-bit word, read as a signed number in two's complement. -/
def word? (base : Nat) (digits : List Char) : Option Int32 :=
  match unsigned? base digits with
  | some value => if value < Nat.pow 2 32 then some value.toUInt32.toInt32 else none
  | none => none

def decimal? : List Char → Option Int32
  | '-' :: digits =>
    match natural? 10 digits with
    | some value => if value ≤ Nat.pow 2 31 then some (Int32.ofInt (-value)) else none
    | none => none
  | digits =>
    match unsigned? 10 digits with
    | some value => if value < Nat.pow 2 31 then some (Int32.ofInt value) else none
    | none => none

def value? (text : String) : Option Int32 :=
  match text.toList.filter (· ≠ '_') with
  | '0' :: 'x' :: digits => word? 16 digits
  | '0' :: 'X' :: digits => word? 16 digits
  | '0' :: 'b' :: digits => word? 2 digits
  | '0' :: 'B' :: digits => word? 2 digits
  | '0' :: c :: digits => word? 8 (c :: digits)
  | digits => decimal? digits

end Javelet.Number
