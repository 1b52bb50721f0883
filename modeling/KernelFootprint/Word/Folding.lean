import KernelFootprint.Fault
import KernelFootprint.Word

/-!
# Folding of immediate operands

Operations on known integers are carried out without bound and the result is
wrapped to the operand width. Shift amounts must lie below the width and
divisors must not be zero. Unsigned division is taken of the operands' bit
patterns, so that a divisor whose low bits are all zero still fails. Both errors
quote an operand, which may be too long to be written.
-/

namespace KernelFootprint.WordOp

/-- The failure of a shift by an amount that is quoted. -/
def shiftFault (width : Width) (amount : Except Misuse String) : Fault :=
  .quoting (do return .indeterminate (.shiftOutOfRange (← amount) width.bits))

/-- The failure of the division of a dividend that is quoted. -/
def divisionFault (dividend : Except Misuse String) : Fault :=
  .quoting (do return .indeterminate (.divisionByZero (← dividend)))

theorem divisionFault_of_hasNumeral {dividend : Int} (short : Text.hasNumeral dividend = true) :
    divisionFault (Text.writeInteger dividend) =
      Indeterminate.divisionByZero (toString dividend) := by
  rw [Text.writeInteger_of_hasNumeral short]
  rfl

/-- The exact result before wrapping. -/
def exact (op : WordOp) (width : Width) (first second : Int) : Except Fault Int :=
  match op with
  | .add => .ok (first + second)
  | .sub => .ok (first - second)
  | .mul => .ok (first * second)
  | .and => .ok (bitAnd first second)
  | .shl =>
      if 0 ≤ second ∧ second < width.bits then .ok (first <<< second.toNat)
      else .error (shiftFault width (Text.writeInteger second))
  | .lshr =>
      if 0 ≤ second ∧ second < width.bits then
        .ok (width.format.unsigned first >>> second.toNat)
      else .error (shiftFault width (Text.writeInteger second))
  | .udiv =>
      if second = 0 then .error (divisionFault (Text.writeInteger first))
      else if width.format.unsigned second = 0 then .error Misuse.zeroDivision
      else .ok (width.format.unsigned first / width.format.unsigned second)
  | .sdiv =>
      if second = 0 then .error (divisionFault (Text.writeInteger first))
      else .ok (first.tdiv second)
  | .srem =>
      if second = 0 then .error (divisionFault (Text.writeInteger first))
      else .ok (first.tmod second)
  | .max => .ok (Max.max first second)
  | .min => .ok (Min.min first second)

def fold (op : WordOp) (width : Width) (first second : Int) : Except Fault Int :=
  (op.exact width first second).map width.format.wrap

/-- Division rounding toward zero. -/
def truncatingDiv (first second : Int) : Except Misuse Int :=
  if second = 0 then .error .zeroDivision else .ok (first.tdiv second)

def name : WordOp → String
  | .add => "ADD"
  | .sub => "SUB"
  | .mul => "MUL"
  | .and => "AND"
  | .shl => "SHL"
  | .lshr => "LSHR"
  | .udiv => "UDIV"
  | .sdiv => "SDIV"
  | .srem => "SREM"
  | .max => "MAX"
  | .min => "MIN"

def all : List WordOp :=
  [.add, .sub, .mul, .and, .shl, .lshr, .udiv, .sdiv, .srem, .max, .min]

def ofName? (name : String) : Option WordOp := all.find? (fun op => op.name == name)

end KernelFootprint.WordOp
