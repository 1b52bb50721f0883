import KernelFootprint.Datum.Reading
import KernelFootprint.Number.Arithmetic

/-!
# Operands of arithmetic

An operand is an exact integer or a number of limited precision. Arithmetic on
integers is exact. As soon as one operand is of limited precision the other one
is rounded to it, and so is the result. Comparison never rounds. Bitwise
operations and shifts take integers only.
-/

namespace KernelFootprint

inductive Operand
  | exact (value : Int)
  | rounded (value : Number.Extended)

namespace Operand

open Number

def value : Operand → Extended
  | .exact value => .finite value
  | .rounded value => value

def isZero : Operand → Bool
  | .exact value => value == 0
  | .rounded value => value.isZero

def isNegative : Operand → Bool
  | .exact value => decide (value < 0)
  | .rounded value => value.isNegative

/-- Whether an operand is at least zero and below a bound. -/
def isWithin (bound : Nat) : Operand → Bool
  | .exact value => decide (0 ≤ value ∧ value < bound)
  | .rounded (.finite value) => decide (0 ≤ value ∧ value < (bound : Rat))
  | .rounded _ => false

/-- The integer that an operand is cut off to. -/
def toInteger : Operand → Except Misuse Int
  | .exact value => .ok value
  | .rounded value => Datum.cutOff value

/-- The operand at limited precision, unless it is beyond all such numbers. -/
def toRounded : Operand → Except Misuse Extended
  | .exact value =>
      match Binary64.round value with
      | .finite value => .ok (.finite value)
      | _ => .error .beyondDecimals
  | .rounded value => .ok value

/-- An operation that is exact on integers. -/
def combine (exactly : Int → Int → Int) (nearly : Extended → Extended → Extended) :
    Operand → Operand → Except Misuse Operand
  | .exact first, .exact second => .ok (.exact (exactly first second))
  | first, second => do return .rounded (nearly (← first.toRounded) (← second.toRounded))

/-- An operation that is exact on integers and has no result for a second operand zero. -/
def divide (exactly : Int → Int → Int) (nearly : Extended → Extended → Extended) :
    Operand → Operand → Except Misuse Operand
  | .exact first, .exact second =>
      if second = 0 then .error .zeroDivision else .ok (.exact (exactly first second))
  | first, second => do
      let first ← first.toRounded
      let second ← second.toRounded
      if second.isZero then throw .zeroDivision
      return .rounded (nearly first second)

/-- An operation that only integers have. -/
def onIntegers (operation : Int → Int → Except Misuse Int) :
    Operand → Operand → Except Misuse Operand
  | .exact first, .exact second => (operation first second).map .exact
  | _, _ => .error .wrongType

def add : Operand → Operand → Except Misuse Operand := combine (· + ·) Extended.add

def sub : Operand → Operand → Except Misuse Operand := combine (· - ·) Extended.sub

def mul : Operand → Operand → Except Misuse Operand := combine (· * ·) Extended.mul

def floorDiv : Operand → Operand → Except Misuse Operand := divide Int.fdiv Extended.floorDiv

def remainder : Operand → Operand → Except Misuse Operand := divide Int.fmod Extended.remainder

/-- The greater operand, the first one if neither is. -/
def max (first second : Operand) : Operand :=
  if first.value.isBelow second.value then second else first

/-- The lesser operand, the first one if neither is. -/
def min (first second : Operand) : Operand :=
  if second.value.isBelow first.value then second else first

def magnitude : Operand → Operand
  | .exact value => .exact value.natAbs
  | .rounded (.finite value) => .rounded (.finite value.abs)
  | .rounded (.infinite _) => .rounded (.infinite false)
  | .rounded .undefined => .rounded .undefined

def negate : Operand → Operand
  | .exact value => .exact (-value)
  | .rounded value => .rounded value.negate

/-- The quotient rounded toward zero, as its magnitude and whether it has a minus sign. -/
def signedQuotient (first second : Operand) : Except Misuse (Bool × Operand) := do
  let quotient ← first.magnitude.floorDiv second.magnitude
  return (first.isNegative != second.isNegative, quotient)

def truncatingDiv (first second : Operand) : Except Misuse Operand := do
  let (negative, quotient) ← signedQuotient first second
  return if negative then quotient.negate else quotient

@[simp] theorem isZero_exact (value : Int) : (exact value).isZero = true ↔ value = 0 :=
  beq_iff_eq

@[simp] theorem isWithin_exact (bound : Nat) (value : Int) :
    isWithin bound (.exact value) = true ↔ 0 ≤ value ∧ value < bound := decide_eq_true_iff

theorem max_exact (first second : Int) :
    max (.exact first) (.exact second) = .exact (Max.max first second) := by
  have below : (Extended.finite first).isBelow (.finite second) = decide (first < second) := by
    rw [Extended.isBelow, decide_eq_decide]
    exact Rat.intCast_lt_intCast
  rw [max, value, value, below]
  by_cases less : first < second
  · rw [if_pos (decide_eq_true less), Int.max_eq_right (Int.le_of_lt less)]
  · rw [if_neg (by simp [less]), Int.max_eq_left (Int.not_lt.mp less)]

theorem min_exact (first second : Int) :
    min (.exact first) (.exact second) = .exact (Min.min first second) := by
  have below : (Extended.finite second).isBelow (.finite first) = decide (second < first) := by
    rw [Extended.isBelow, decide_eq_decide]
    exact Rat.intCast_lt_intCast
  rw [min, value, value, below]
  by_cases less : second < first
  · rw [if_pos (decide_eq_true less), Int.min_eq_right (Int.le_of_lt less)]
  · rw [if_neg (by simp [less]), Int.min_eq_left (Int.not_lt.mp less)]

end Operand

namespace Datum

def operand? : Datum → Option Operand
  | .integer value => some (.exact value)
  | .flag value => some (.exact (if value then 1 else 0))
  | .decimal value => some (.rounded value.value)
  | _ => none

end Datum

namespace Value

/-- The operand of arithmetic that a value is; flags count as zero and one. -/
def operand? : Value → Option Operand
  | .int value => some (.exact value)
  | .datum content => content.operand?
  | _ => none

end Value

end KernelFootprint
