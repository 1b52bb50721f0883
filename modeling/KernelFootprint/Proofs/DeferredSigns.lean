import KernelFootprint.Proofs.Deferred

/-!
# Deferred operations on negative operands

Folding reads the operands of an unsigned quotient and of a shift to the right as bit
patterns, rounds a signed quotient toward zero, and gives a remainder the sign of the
dividend. What stands for these operations when they are deferred is a floor division, a
remainder with the sign of the divisor, and a shift that keeps the sign. The two agree
modulo 2 ^ 64 on natural numbers, and on negative operands only now and then.
-/

namespace KernelFootprint

/-- Rounding toward zero and rounding down differ for operands of different signs, unless
there is nothing to round. -/
theorem tdiv_eq_fdiv_add {first second : Int} (nonzero : second ≠ 0) :
    first.tdiv second =
      first.fdiv second + if second ∣ first ∨ (0 ≤ first ↔ 0 ≤ second) then 0 else 1 := by
  rw [Int.tdiv_eq_fdiv]
  by_cases divides : second ∣ first
  · rw [if_pos divides, if_pos (.inl divides)]
  · rw [if_neg divides]
    by_cases low : 0 ≤ first <;> by_cases otherLow : 0 ≤ second
    · simp [low, otherLow]
    · simp [low, otherLow, divides]
    · have sign : second.sign = 1 := Int.sign_eq_one_of_pos (by omega)
      simp [low, otherLow, divides, sign]
    · have sign : second.sign = -1 := Int.sign_eq_neg_one_of_neg (by omega)
      simp [low, otherLow, sign]

/-- The remainders that go with the two quotients differ by the divisor. -/
theorem tmod_eq_fmod_sub {first second : Int} (nonzero : second ≠ 0) :
    first.tmod second =
      first.fmod second - if second ∣ first ∨ (0 ≤ first ↔ 0 ≤ second) then 0 else second := by
  have truncated := Int.mul_tdiv_add_tmod first second
  have floored := Int.mul_fdiv_add_fmod first second
  rw [tdiv_eq_fdiv_add nonzero, Int.mul_add] at truncated
  split at truncated <;> omega

namespace WordOp

/-- Whether a deferred operation stands for the folded one modulo 2 ^ 64. -/
def AgreesDeferred (op : WordOp) (first second : Int) : Prop :=
  match op with
  | .lshr => 0 ≤ first ∨ second = 0
  | .udiv => (0 ≤ first ∧ 0 ≤ second) ∨ second = 1 ∨ first = 0 ∨ first = second
  | .sdiv | .srem => second ∣ first ∨ (0 ≤ first ↔ 0 ≤ second)
  | _ => True

variable {first second : Int}

theorem unsigned_of_neg (low : -2 ^ 63 ≤ first) (negative : first < 0) :
    Width.wide.format.unsigned first = first + 2 ^ 64 := by
  change first % 2 ^ 64 = _
  omega

theorem not_modEq_of_lt (less : first < second) (close : second < first + 2 ^ 64) :
    ¬ first ≡ second [ZMOD 2 ^ 64] := by
  change ¬ first % 2 ^ 64 = second % 2 ^ 64
  omega

/-- A shifted negative number and its bit pattern, shifted, differ by the bits shifted in. -/
theorem lshr_modEq_iff (low : -2 ^ 63 ≤ first) (high : first < 2 ^ 63)
    (inside : 0 ≤ second ∧ second < 64) :
    first / 2 ^ second.toNat ≡ Width.wide.format.unsigned first >>> second.toNat [ZMOD 2 ^ 64] ↔
      0 ≤ first ∨ second = 0 := by
  obtain ⟨amount, rfl⟩ := Int.eq_ofNat_of_zero_le inside.1
  have small : amount < 64 := by omega
  rw [Int.toNat_natCast, Int.shiftRight_eq_div_pow]
  by_cases negative : first < 0
  · -- The bit pattern is 2 ^ 64 more than the number. A shift leaves a power of two of that,
    -- which is below the modulus as soon as anything is shifted.
    have split : (2 : Int) ^ 64 = 2 ^ (64 - amount) * 2 ^ amount := by
      rw [← Int.pow_add, Nat.sub_add_cancel small.le]
    have shifted : (first + 2 ^ 64) / ((2 ^ amount : Nat) : Int) =
        first / 2 ^ amount + 2 ^ (64 - amount) := by
      rw [Int.natCast_pow, split]
      exact Int.add_mul_ediv_right _ _ (Int.pow_pos (by decide)).ne'
    rw [unsigned_of_neg low negative, shifted]
    by_cases unmoved : amount = 0
    · rw [unmoved]
      exact iff_of_true Int.add_modEq_right.symm (.inr rfl)
    · have positive : (0 : Int) < 2 ^ (64 - amount) := Int.pow_pos (by decide)
      have bounded : (2 : Int) ^ (64 - amount) < 2 ^ 64 :=
        Int.pow_lt_pow_of_lt (by decide) (by omega)
      exact iff_of_false (not_modEq_of_lt (by omega) (by omega)) (by omega)
  · rw [unsigned_eq_self (by omega) high]
    have same : first / 2 ^ amount = first / ((2 ^ amount : Nat) : Int) := by norm_cast
    rw [same]
    exact iff_of_true rfl (.inl (by omega))

theorem udiv_modEq_iff_of_neg_pos (low : -2 ^ 63 ≤ first) (negative : first < 0)
    (positive : 0 < second) (high : second < 2 ^ 63) :
    first.fdiv second ≡ Width.wide.format.unsigned first / Width.wide.format.unsigned second
      [ZMOD 2 ^ 64] ↔ second = 1 := by
  rw [unsigned_of_neg low negative, unsigned_eq_self positive.le high,
    Int.fdiv_eq_ediv_of_nonneg first positive.le]
  by_cases one : second = 1
  · rw [one, Int.ediv_one, Int.ediv_one]
    exact iff_of_true Int.add_modEq_right.symm rfl
  · have floorNegative : first / second < 0 := Int.ediv_neg_of_neg_of_pos negative positive
    have floorLow := Int.natAbs_ediv_le_natAbs first second
    have quotientLow : 0 ≤ (first + 2 ^ 64) / second := Int.ediv_nonneg (by omega) positive.le
    have quotientHigh : (first + 2 ^ 64) / second < 2 ^ 63 :=
      Int.ediv_lt_of_lt_mul positive (by omega)
    exact iff_of_false (not_modEq_of_lt (by omega) (by omega)) one

theorem udiv_modEq_iff_of_nonneg_neg (low : 0 ≤ first) (high : first < 2 ^ 63)
    (otherLow : -2 ^ 63 ≤ second) (negative : second < 0) :
    first.fdiv second ≡ Width.wide.format.unsigned first / Width.wide.format.unsigned second
      [ZMOD 2 ^ 64] ↔ first = 0 := by
  rw [unsigned_eq_self low high, unsigned_of_neg otherLow negative,
    Int.ediv_eq_zero_of_lt low (by omega)]
  by_cases zero : first = 0
  · rw [zero, Int.zero_fdiv]
    exact iff_of_true rfl rfl
  · have floorNegative : first.fdiv second < 0 := by
      rw [← Int.neg_fdiv_neg]
      exact Int.fdiv_neg_of_neg_of_pos (by omega) (by omega)
    have floorLow := Int.natAbs_fdiv_le_natAbs first second
    exact iff_of_false (not_modEq_of_lt (by omega) (by omega)) zero

theorem udiv_modEq_iff_of_neg_neg (low : -2 ^ 63 ≤ first) (negative : first < 0)
    (otherLow : -2 ^ 63 ≤ second) (otherNegative : second < 0) :
    first.fdiv second ≡ Width.wide.format.unsigned first / Width.wide.format.unsigned second
      [ZMOD 2 ^ 64] ↔ first = second := by
  rw [unsigned_of_neg low negative, unsigned_of_neg otherLow otherNegative, ← Int.neg_fdiv_neg,
    Int.fdiv_eq_ediv_of_nonneg _ (by omega)]
  rcases Int.lt_trichotomy first second with less | rfl | greater
  · have floorPositive : 1 ≤ -first / -second := Int.le_ediv_of_mul_le (by omega) (by omega)
    have floorHigh := Int.ediv_le_self (-second) (by omega : 0 ≤ -first)
    rw [Int.ediv_eq_zero_of_lt (by omega : 0 ≤ first + 2 ^ 64) (by omega)]
    exact iff_of_false (fun same => not_modEq_of_lt floorPositive (by omega) same.symm) (by omega)
  · rw [Int.ediv_self (by omega), Int.ediv_self (by omega)]
    exact iff_of_true rfl rfl
  · -- The bit patterns of negative numbers are less than a factor of two apart.
    have quotient : (first + 2 ^ 64) / (second + 2 ^ 64) = 1 :=
      Int.le_antisymm (Int.le_of_lt_add_one (Int.ediv_lt_of_lt_mul (by omega) (by omega)))
        (Int.le_ediv_of_mul_le (by omega) (by omega))
    rw [quotient, Int.ediv_eq_zero_of_lt (by omega : 0 ≤ -first) (by omega)]
    exact iff_of_false (not_modEq_of_lt (by decide) (by decide)) (by omega)

theorem udiv_modEq_iff (firstLow : -2 ^ 63 ≤ first) (firstHigh : first < 2 ^ 63)
    (secondLow : -2 ^ 63 ≤ second) (secondHigh : second < 2 ^ 63) (nonzero : second ≠ 0) :
    first.fdiv second ≡ Width.wide.format.unsigned first / Width.wide.format.unsigned second
      [ZMOD 2 ^ 64] ↔ WordOp.udiv.AgreesDeferred first second := by
  unfold AgreesDeferred
  by_cases low : 0 ≤ first <;> by_cases otherLow : 0 ≤ second
  · rw [unsigned_eq_self low firstHigh, unsigned_eq_self otherLow secondHigh,
      Int.fdiv_eq_ediv_of_nonneg first otherLow]
    exact iff_of_true rfl (.inl ⟨low, otherLow⟩)
  · rw [udiv_modEq_iff_of_nonneg_neg low firstHigh secondLow (by omega)]
    omega
  · rw [udiv_modEq_iff_of_neg_pos firstLow (by omega) (by omega) secondHigh]
    omega
  · rw [udiv_modEq_iff_of_neg_neg firstLow (by omega) secondLow (by omega)]
    omega

theorem sdiv_modEq_iff (nonzero : second ≠ 0) :
    first.fdiv second ≡ first.tdiv second [ZMOD 2 ^ 64] ↔
      second ∣ first ∨ (0 ≤ first ↔ 0 ≤ second) := by
  rw [tdiv_eq_fdiv_add nonzero]
  split
  · next agrees =>
      rw [Int.add_zero]
      exact iff_of_true rfl agrees
  · next differs => exact iff_of_false (not_modEq_of_lt (by omega) (by omega)) differs

theorem srem_modEq_iff (low : -2 ^ 63 ≤ second) (high : second < 2 ^ 63) (nonzero : second ≠ 0) :
    first.fmod second ≡ first.tmod second [ZMOD 2 ^ 64] ↔
      second ∣ first ∨ (0 ≤ first ↔ 0 ≤ second) := by
  rw [tmod_eq_fmod_sub nonzero]
  split
  · next agrees =>
      rw [Int.sub_zero]
      exact iff_of_true rfl agrees
  · next differs =>
      refine iff_of_false ?_ differs
      rcases Int.lt_or_gt_of_ne nonzero with negative | positive
      · exact not_modEq_of_lt (by omega) (by omega)
      · exact fun same => not_modEq_of_lt (by omega) (by omega) same.symm

theorem floored_modEq_iff (op : WordOp) (firstLow : -2 ^ 63 ≤ first) (firstHigh : first < 2 ^ 63)
    (secondLow : -2 ^ 63 ≤ second) (secondHigh : second < 2 ^ 63) {result : Int}
    (folded : op.fold .wide first second = .ok result) :
    op.floored first second ≡ result [ZMOD 2 ^ 64] ↔ op.AgreesDeferred first second := by
  have accepted := accepts_of_fold folded
  obtain ⟨value, computed, same⟩ := exists_exact_of_fold folded
  have onValue : op.floored first second ≡ result [ZMOD 2 ^ 64] ↔
      op.floored first second ≡ value [ZMOD 2 ^ 64] :=
    ⟨fun holds => holds.trans same, fun holds => holds.trans same.symm⟩
  rw [onValue]
  cases op with
  | shl =>
      have inside : 0 ≤ second ∧ second < Width.wide.bits := accepted
      rw [exact, if_pos inside, Int.shiftLeft_eq] at computed
      cases computed
      exact iff_of_true rfl trivial
  | lshr =>
      have inside : 0 ≤ second ∧ second < Width.wide.bits := accepted
      rw [exact, if_pos inside] at computed
      cases computed
      exact lshr_modEq_iff firstLow firstHigh inside
  | udiv =>
      have nonzero : second ≠ 0 := accepted
      have bits : Width.wide.format.unsigned second ≠ 0 := by
        change second % 2 ^ 64 ≠ 0
        omega
      rw [exact, if_neg nonzero, if_neg bits] at computed
      cases computed
      exact udiv_modEq_iff firstLow firstHigh secondLow secondHigh nonzero
  | sdiv =>
      have nonzero : second ≠ 0 := accepted
      rw [exact, if_neg nonzero] at computed
      cases computed
      exact sdiv_modEq_iff nonzero
  | srem =>
      have nonzero : second ≠ 0 := accepted
      rw [exact, if_neg nonzero] at computed
      cases computed
      exact srem_modEq_iff secondLow secondHigh nonzero
  | _ =>
      cases computed
      exact iff_of_true rfl trivial

end WordOp

namespace Value

/-- A deferred operation on variables asks for their values and for no other one. -/
theorem evaluate_deferred_var {environment : String → Option Int} {name other : String}
    {first second : Int} (onFirst : environment name = some first)
    (onSecond : environment other = some second) (op : WordOp) :
    (op.deferred (.var name) (.var other)).evaluate environment =
      (op.deferred (.var name) (.var other)).evaluate
        (fun name => some ((environment name).getD 0)) := by
  cases op <;>
    simp only [WordOp.deferred, evaluate, measure, measureRest, onFirst, onSecond, Option.getD_some]

end Value

/-- The symbolic emitter defers every operation on two variables to an expression that has a
value. The value is that of the folded operation modulo 2 ^ 64 exactly if the signs of the
operands play no part. -/
theorem respond_modEq_fold_iff (op : WordOp) {first second result : Int}
    (firstLow : -2 ^ 63 ≤ first) (firstHigh : first < 2 ^ 63) (secondLow : -2 ^ 63 ≤ second)
    (secondHigh : second < 2 ^ 63) (folded : op.fold .wide first second = .ok result)
    {environment : String → Option Int} {name other : String}
    (onFirst : environment name = some first) (onSecond : environment other = some second)
    (before : List Request) :
    ∃ value number, Emitter.symbolic.respond before (.operation op (.var name) (.var other)) =
        .ok value ∧ value.evaluate environment = .ok number ∧
          (number ≡ result [ZMOD 2 ^ 64] ↔ op.AgreesDeferred first second) := by
  have onLeft := Value.means_var (fun name => (environment name).getD 0) name
  have onRight := Value.means_var (fun name => (environment name).getD 0) other
  rw [onFirst, Option.getD_some] at onLeft
  rw [onSecond, Option.getD_some] at onRight
  have means := Value.means_floored onLeft onRight (WordOp.accepts_of_fold folded)
  refine ⟨op.deferred (.var name) (.var other), op.floored first second, rfl, ?_,
    op.floored_modEq_iff firstLow firstHigh secondLow secondHigh folded⟩
  rw [Value.evaluate_deferred_var onFirst onSecond op]
  exact means.evaluate

/-- A host program with two variables. -/
def operands (first second : Int) (name : String) : Option Int :=
  if name = "a" then some first else if name = "b" then some second else none

/-- A quotient without a remainder is the same whichever way it is rounded. -/
theorem respond_modEq_fold_exact :
    ∃ value number, Emitter.symbolic.respond [] (.operation .sdiv (.var "a") (.var "b")) =
        .ok value ∧ value.evaluate (operands (-8) 2) = .ok number ∧
          number ≡ -4 [ZMOD 2 ^ 64] := by
  obtain ⟨value, number, answered, evaluated, agrees⟩ :=
    @respond_modEq_fold_iff .sdiv (-8) 2 (-4) (by decide) (by decide) (by decide) (by decide) rfl
      (operands (-8) 2) "a" "b" rfl rfl []
  have divides : (2 : Int) ∣ -8 := by decide
  exact ⟨value, number, answered, evaluated, agrees.mpr (.inl divides)⟩

/-- A quotient that is rounded toward zero at once is rounded down when it is deferred. -/
theorem respond_ne_fold :
    WordOp.sdiv.fold .wide (-7) 2 = .ok (-3) ∧
      ∃ value, Emitter.symbolic.respond [] (.operation .sdiv (.var "a") (.var "b")) = .ok value ∧
        value.evaluate (operands (-7) 2) = .ok (-4) ∧ ¬ (-4 : Int) ≡ -3 [ZMOD 2 ^ 64] :=
  ⟨rfl, _, rfl, rfl, by decide⟩

end KernelFootprint
