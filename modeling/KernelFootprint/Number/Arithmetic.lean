import KernelFootprint.Number.Binary64

/-!
# Arithmetic of binary64 numbers

The result of an operation on two rational numbers is the exact one rounded to
binary64. An infinity absorbs every rational number, and an operation without
a meaning is undefined. Quotients are rounded toward minus infinity, and a
remainder has the sign of its divisor. Both are built from the remainder of the
quotient rounded toward zero, which is always exact.
-/

namespace KernelFootprint.Number.Extended

def isZero (number : Extended) : Bool := number == .finite 0

def isNegative (number : Extended) : Bool := number.isBelow (.finite 0)

def negate : Extended → Extended
  | .finite value => .finite (-value)
  | .infinite negative => .infinite (!negative)
  | .undefined => .undefined

def add : Extended → Extended → Extended
  | .finite first, .finite second => Binary64.round (first + second)
  | .infinite negative, .finite _ => .infinite negative
  | .finite _, .infinite negative => .infinite negative
  | .infinite first, .infinite second => if first = second then .infinite first else .undefined
  | _, _ => .undefined

def sub (first second : Extended) : Extended := first.add second.negate

/-- The infinity with the sign of a product or a quotient. -/
def boundless (first second : Extended) : Extended :=
  .infinite (first.isNegative != second.isNegative)

def mul : Extended → Extended → Extended
  | .finite first, .finite second => Binary64.round (first * second)
  | .undefined, _ => .undefined
  | _, .undefined => .undefined
  | first, second =>
      if first.isZero || second.isZero then .undefined else boundless first second

/-- The quotient by a number that is not zero. -/
def div : Extended → Extended → Extended
  | .finite first, .finite second => Binary64.round (first / second)
  | .finite _, .infinite _ => .finite 0
  | .infinite negative, .finite second => boundless (.infinite negative) (.finite second)
  | _, _ => .undefined

/-- What is left of a number by a divisor that is not zero, with the sign of the number. -/
def truncatedRemainder : Extended → Extended → Extended
  | .finite first, .finite second =>
      .finite (first - second * ((first / second).num.tdiv (first / second).den : Int))
  | .finite first, .infinite _ => .finite first
  | _, _ => .undefined

/-- Whether a truncated remainder has another sign than its divisor. -/
def isOpposed (rest divisor : Extended) : Bool :=
  !rest.isZero && rest.isNegative != divisor.isNegative

/-- The integer next to a quotient that is one up to rounding. -/
def settle : Extended → Extended
  | .finite value =>
      let whole := value.floor
      if (Extended.finite (1 / 2)).isBelow (sub (.finite value) (.finite whole)) then
        .finite (whole + 1 : Int)
      else .finite whole
  | number => number

/-- The quotient by a number that is not zero, rounded toward minus infinity. -/
def floorDiv (first second : Extended) : Extended :=
  let rest := first.truncatedRemainder second
  let quotient := (first.sub rest).div second
  settle (if rest.isOpposed second then quotient.sub (.finite 1) else quotient)

/-- The remainder by a number that is not zero, with the sign of the divisor. -/
def remainder (first second : Extended) : Extended :=
  let rest := first.truncatedRemainder second
  if rest.isOpposed second then rest.add second else rest

end KernelFootprint.Number.Extended
