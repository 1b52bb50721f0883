import KernelFootprint.Proofs.Numerals
import KernelFootprint.Word.Folding
import Mathlib.Data.Int.ModEq
import Mathlib.Tactic.Linarith
import Mathlib.Tactic.Ring

/-!
# Folding and unbounded arithmetic

Wrapping changes a number by a multiple of the modulus only, and a number of 64
bits not at all. Where operands and result are natural numbers below 2 ^ 63,
folding is therefore the unbounded operation. Which second operands an
operation accepts does not depend on the first one.
-/

namespace KernelFootprint

theorem WordFormat.wrap_modEq (format : WordFormat) (value : Int) :
    format.wrap value ≡ value [ZMOD format.modulus] := by
  have moved := (Int.mod_modEq (value - format.lowest) format.modulus).add_right format.lowest
  rwa [Int.sub_add_cancel] at moved

/-- The number of 64 bits that a number is wrapped to. -/
def wrapWide (value : Int) : Int := Width.wide.format.wrap value

theorem wrapWide_modEq (value : Int) : wrapWide value ≡ value [ZMOD 2 ^ 64] :=
  Width.wide.format.wrap_modEq value

theorem wrapWide_eq_self {value : Int} (low : -2 ^ 63 ≤ value) (high : value < 2 ^ 63) :
    wrapWide value = value :=
  WordFormat.wrap_eq_self low high

theorem wrapWide_lt (value : Int) : wrapWide value < 2 ^ 63 :=
  Width.wide.format.wrap_lt value

theorem hasNumeral_wrapWide (value : Int) : Text.hasNumeral (wrapWide value) = true := by
  have low : -2 ^ 63 ≤ wrapWide value := Width.wide.format.lowest_le_wrap value
  have high := wrapWide_lt value
  exact Text.hasNumeral_of_natAbs_le (by omega)

theorem wrapWide_congr {first second : Int} (same : first ≡ second [ZMOD 2 ^ 64]) :
    wrapWide first = wrapWide second := by
  have shifted : first - Width.wide.format.lowest ≡ second - Width.wide.format.lowest
      [ZMOD Width.wide.format.modulus] := Int.ModEq.sub_right _ same
  rw [wrapWide, wrapWide, WordFormat.wrap, WordFormat.wrap, shifted]

theorem wrapWide_eq_iff {first second : Int} :
    wrapWide first = wrapWide second ↔ first ≡ second [ZMOD 2 ^ 64] := by
  constructor
  · intro same
    have modEq := wrapWide_modEq second
    rw [← same] at modEq
    exact (wrapWide_modEq first).symm.trans modEq
  · exact wrapWide_congr

theorem wrapWide_mul (first second : Int) :
    wrapWide (wrapWide first * wrapWide second) = wrapWide (first * second) :=
  wrapWide_congr ((wrapWide_modEq first).mul (wrapWide_modEq second))

namespace WordOp

theorem fold_add (first second : Int) :
    WordOp.add.fold .wide first second = .ok (wrapWide (first + second)) := rfl

theorem fold_sub (first second : Int) :
    WordOp.sub.fold .wide first second = .ok (wrapWide (first - second)) := rfl

theorem fold_mul (first second : Int) :
    WordOp.mul.fold .wide first second = .ok (wrapWide (first * second)) := rfl

theorem fold_shl {second : Int} (inside : 0 ≤ second ∧ second < 64) (first : Int) :
    WordOp.shl.fold .wide first second = .ok (wrapWide (first * 2 ^ second.toNat)) := by
  have accepted : 0 ≤ second ∧ second < Width.wide.bits := inside
  rw [fold, exact, if_pos accepted, Int.shiftLeft_eq]
  rfl

theorem fold_max (first second : Int) :
    WordOp.max.fold .wide first second = .ok (wrapWide (Max.max first second)) := rfl

theorem fold_min (first second : Int) :
    WordOp.min.fold .wide first second = .ok (wrapWide (Min.min first second)) := rfl

/-- The operation on numbers of any size. Shifts are products and quotients by
powers of two. -/
def unbounded (op : WordOp) (first second : Int) : Int :=
  match op with
  | .add => first + second
  | .sub => first - second
  | .mul => first * second
  | .and => bitAnd first second
  | .shl => first * 2 ^ second.toNat
  | .lshr => first / 2 ^ second.toNat
  | .udiv => first / second
  | .sdiv => first.tdiv second
  | .srem => first.tmod second
  | .max => Max.max first second
  | .min => Min.min first second

/-- Whether an operation has a result for a second operand. -/
def Accepts (op : WordOp) (second : Int) : Prop :=
  match op with
  | .shl | .lshr => 0 ≤ second ∧ second < 64
  | .udiv | .sdiv | .srem => second ≠ 0
  | _ => True

/-- What folding returns is the exact result up to a multiple of the modulus. -/
theorem exists_exact_of_fold {op : WordOp} {first second result : Int}
    (folded : op.fold .wide first second = .ok result) :
    ∃ value, op.exact .wide first second = .ok value ∧ result ≡ value [ZMOD 2 ^ 64] := by
  rw [fold] at folded
  cases computed : op.exact .wide first second with
  | ok value =>
      rw [computed] at folded
      cases folded
      exact ⟨value, rfl, wrapWide_modEq value⟩
  | error fault =>
      rw [computed] at folded
      cases folded

theorem accepts_of_fold {op : WordOp} {first second result : Int}
    (folded : op.fold .wide first second = .ok result) : op.Accepts second := by
  obtain ⟨value, found, _⟩ := exists_exact_of_fold folded
  cases op with
  | shl | lshr =>
      by_cases inside : 0 ≤ second ∧ second < Width.wide.bits
      · exact inside
      · rw [exact, if_neg inside] at found
        cases found
  | udiv | sdiv | srem =>
      intro zero
      rw [exact, if_pos zero] at found
      cases found
  | _ => trivial

theorem unsigned_eq_self {value : Int} (low : 0 ≤ value) (high : value < 2 ^ 63) :
    Width.wide.format.unsigned value = value :=
  Int.emod_eq_of_lt low (Int.lt_trans high (by decide))

/-- On natural numbers below 2 ^ 63 the exact result is that of the unbounded operation. -/
theorem exact_eq_unbounded {op : WordOp} {first second : Int} (accepted : op.Accepts second)
    (low : 0 ≤ first) (high : first < 2 ^ 63) (secondLow : 0 ≤ second)
    (secondHigh : second < 2 ^ 63) :
    op.exact .wide first second = .ok (op.unbounded first second) := by
  cases op with
  | shl =>
      have inside : 0 ≤ second ∧ second < Width.wide.bits := accepted
      rw [exact, if_pos inside, Int.shiftLeft_eq, unbounded]
  | lshr =>
      have inside : 0 ≤ second ∧ second < Width.wide.bits := accepted
      rw [exact, if_pos inside, unsigned_eq_self low high, Int.shiftRight_eq_div_pow, unbounded]
      norm_cast
  | udiv =>
      rw [exact, if_neg accepted, unsigned_eq_self low high,
        unsigned_eq_self secondLow secondHigh, if_neg accepted, unbounded]
  | sdiv => rw [exact, if_neg accepted, unbounded]
  | srem => rw [exact, if_neg accepted, unbounded]
  | _ => rfl

theorem fold_eq_unbounded {op : WordOp} {first second : Int} (accepted : op.Accepts second)
    (low : 0 ≤ first) (high : first < 2 ^ 63) (secondLow : 0 ≤ second)
    (secondHigh : second < 2 ^ 63) (resultLow : 0 ≤ op.unbounded first second)
    (resultHigh : op.unbounded first second < 2 ^ 63) :
    op.fold .wide first second = .ok (op.unbounded first second) := by
  rw [fold, exact_eq_unbounded accepted low high secondLow secondHigh]
  change Except.ok (wrapWide _) = _
  rw [wrapWide_eq_self (by omega) resultHigh]

end WordOp

end KernelFootprint
