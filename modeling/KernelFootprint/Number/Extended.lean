/-!
# Extended numbers

A number of loose data is a rational number, one of the two infinities, or
undefined. The infinities lie beyond all rational numbers, and an undefined
number is neither below nor above anything.
-/

namespace KernelFootprint.Number

inductive Extended
  | finite (value : Rat)
  | infinite (negative : Bool)
  | undefined
  deriving DecidableEq

namespace Extended

def isBelow : Extended → Extended → Bool
  | .finite first, .finite second => first < second
  | .finite _, .infinite negative => !negative
  | .infinite negative, .finite _ => negative
  | .infinite first, .infinite second => first && !second
  | _, _ => false

def isAtMost (first second : Extended) : Bool :=
  first.isBelow second || (first == second && first != .undefined)

end Extended

end KernelFootprint.Number
