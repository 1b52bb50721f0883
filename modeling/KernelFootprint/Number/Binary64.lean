import KernelFootprint.Number.Extended

/-!
# Decimals as binary floating-point numbers

A written decimal stands for the binary64 number nearest to it, an exact half
going to the even neighbour. The value is kept as an exact rational. A decimal
that rounds to two to the power 1024 or beyond stands for an infinity.
-/

namespace KernelFootprint.Number.Binary64

/-- The natural number nearest to a quotient, a half going to the even one. -/
def roundQuotient (numerator denominator : Nat) : Nat :=
  let quotient := numerator / denominator
  let twice := 2 * (numerator % denominator)
  if twice < denominator then quotient
  else if denominator < twice then quotient + 1
  else quotient + quotient % 2

/-- The exponent at which a positive quotient has a significand of 53 bits. -/
def exponent (numerator denominator : Nat) : Int :=
  let estimate : Int := (Nat.log2 numerator : Int) - Nat.log2 denominator
  let below :=
    if 0 ≤ estimate then numerator < denominator <<< estimate.toNat
    else numerator <<< (-estimate).toNat < denominator
  max ((if below then estimate - 1 else estimate) - 52) (-1074)

def nearestMagnitude (numerator denominator : Nat) : Rat :=
  let power := exponent numerator denominator
  if 0 ≤ power then
    (roundQuotient numerator (denominator <<< power.toNat) <<< power.toNat : Nat)
  else
    mkRat (roundQuotient (numerator <<< (-power).toNat) denominator) (1 <<< (-power).toNat)

/-- The binary64 number nearest to a quotient with a sign. -/
def nearestQuotient (negative : Bool) (numerator denominator : Nat) : Extended :=
  if numerator = 0 then .finite 0
  else
    let magnitude := nearestMagnitude numerator denominator
    if ((1 <<< 1024 : Nat) : Rat) ≤ magnitude then .infinite negative
    else .finite (if negative then -magnitude else magnitude)

/-- The binary64 number nearest to `mantissa` divided by ten to the power `places`. -/
def nearest (negative : Bool) (mantissa places : Nat) : Extended :=
  nearestQuotient negative mantissa (Nat.pow 10 places)

/-- The binary64 number nearest to a rational number. -/
def round (value : Rat) : Extended :=
  nearestQuotient (value < 0) value.num.natAbs value.den

end KernelFootprint.Number.Binary64
