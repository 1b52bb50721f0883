import KernelFootprint.Number.Binary64

/-!
# Decimals

A decimal keeps the sign and the digits with which it was given, so that zero
has a sign. It is written with these digits, less trailing zeros: with a point
while its leading digit stands between four places after the point and sixteen
before it, and with an exponent otherwise.
-/

namespace KernelFootprint.Number

inductive Decimal
  /-- The mantissa divided by ten to the power `places`. -/
  | finite (negative : Bool) (mantissa places : Nat)
  | infinite (negative : Bool)
  | undefined
  deriving DecidableEq, Inhabited

namespace Decimal

/-- The digits of a mantissa, of which `places` follow the point, times a power of ten. -/
def scaled (negative : Bool) (mantissa places : Nat) (exponent : Int) : Decimal :=
  if (places : Int) ≤ exponent then
    .finite negative (mantissa * Nat.pow 10 (exponent - places).toNat) 0
  else .finite negative mantissa (places - exponent).toNat

def value : Decimal → Extended
  | .finite negative mantissa places => Binary64.nearest negative mantissa places
  | .infinite negative => .infinite negative
  | .undefined => .undefined

def dropTrailingZeros (digits : List Char) : List Char :=
  (digits.reverse.dropWhile (· == '0')).reverse

def writtenExponent (exponent : Int) : List Char :=
  let digits := (toString exponent.natAbs).toList
  (if exponent < 0 then '-' else '+') :: (if digits.length < 2 then '0' :: digits else digits)

/-- The digits with the point after `place` of them. -/
def positional (digits : List Char) (place : Int) : List Char :=
  if place ≤ 0 then '0' :: '.' :: List.replicate (-place).toNat '0' ++ digits
  else
    let whole := digits.take place.toNat
    let missing := List.replicate (place.toNat - digits.length) '0'
    let fraction := digits.drop place.toNat
    whole ++ missing ++ '.' :: (if fraction.isEmpty then ['0'] else fraction)

def scientific (digits : List Char) (place : Int) : List Char :=
  let fraction := digits.tail
  digits.take 1 ++ (if fraction.isEmpty then [] else '.' :: fraction) ++
    'e' :: writtenExponent (place - 1)

def magnitude (mantissa places : Nat) : List Char :=
  if mantissa = 0 then ['0', '.', '0']
  else
    let digits := (toString mantissa).toList
    let place : Int := (digits.length : Int) - places
    let kept := dropTrailingZeros digits
    if -4 < place ∧ place ≤ 16 then positional kept place else scientific kept place

def signed (negative : Bool) (magnitude : List Char) : String :=
  String.ofList (if negative then '-' :: magnitude else magnitude)

def written : Decimal → String
  | .finite negative mantissa places => signed negative (magnitude mantissa places)
  | .infinite negative => signed negative ['i', 'n', 'f']
  | .undefined => "nan"

end Decimal

end KernelFootprint.Number
