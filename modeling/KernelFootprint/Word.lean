/-!
# Machine words

A format gives the width and the signedness of a machine integer. Wrapping
sends an unbounded integer to the number with the same low bits that the
format can hold. The word operations are those of address arithmetic.
-/

namespace KernelFootprint

structure WordFormat where
  bits : Nat
  signed : Bool
  deriving DecidableEq

namespace WordFormat

/-- The number of integers that the format can hold. -/
def modulus (format : WordFormat) : Int := (1 : Int) <<< format.bits

theorem modulus_pos (format : WordFormat) : 0 < format.modulus := by
  rw [modulus, Int.shiftLeft_eq, Int.one_mul]
  exact Int.pow_pos (by decide)

def lowest (format : WordFormat) : Int :=
  if format.signed then -((1 : Int) <<< (format.bits - 1)) else 0

def wrap (format : WordFormat) (value : Int) : Int :=
  (value - format.lowest) % format.modulus + format.lowest

theorem lowest_le_wrap (format : WordFormat) (value : Int) :
    format.lowest ≤ format.wrap value := by
  have low := Int.emod_nonneg (value - format.lowest) (Int.ne_of_gt format.modulus_pos)
  unfold wrap
  omega

theorem wrap_lt (format : WordFormat) (value : Int) :
    format.wrap value < format.lowest + format.modulus := by
  have high := Int.emod_lt_of_pos (value - format.lowest) format.modulus_pos
  unfold wrap
  omega

/-- A number that the format can hold is kept. -/
theorem wrap_eq_self {format : WordFormat} {value : Int} (low : format.lowest ≤ value)
    (high : value < format.lowest + format.modulus) : format.wrap value = value := by
  have same : (value - format.lowest) % format.modulus = value - format.lowest :=
    Int.emod_eq_of_lt (by omega) (by omega)
  unfold wrap
  omega

/-- The natural number with the same low bits. -/
def unsigned (format : WordFormat) (value : Int) : Int := value % format.modulus

end WordFormat

/-- The widths of immediate arithmetic. -/
inductive Width
  | narrow
  | wide
  deriving DecidableEq

namespace Width

def bits : Width → Nat
  | .narrow => 32
  | .wide => 64

def format (width : Width) : WordFormat := ⟨width.bits, true⟩

end Width

inductive WordOp
  | add
  | sub
  | mul
  | and
  | shl
  | lshr
  | udiv
  | sdiv
  | srem
  | max
  | min
  deriving DecidableEq

/-- Bitwise conjunction of integers read as two's complement of unbounded length. -/
def bitAnd : Int → Int → Int
  | .ofNat first, .ofNat second => .ofNat (first &&& second)
  | .ofNat first, .negSucc second => .ofNat (first ^^^ (first &&& second))
  | .negSucc first, .ofNat second => .ofNat (second ^^^ (second &&& first))
  | .negSucc first, .negSucc second => .negSucc (first ||| second)

/-- Bitwise disjunction of integers read as two's complement of unbounded length. -/
def bitOr (first second : Int) : Int :=
  -bitAnd (-first - 1) (-second - 1) - 1

end KernelFootprint
