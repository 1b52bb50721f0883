import KernelFootprint.Proofs.Outcome
import KernelFootprint.Proofs.Unbounded
import KernelFootprint.Value.Evaluation

/-!
# What deferred values stand for

A deferred value stands for the integer that it is measured as once its variables
are known. Subtraction becomes a sum and both divisions become floor division, so
that a deferred operation stands for an unbounded one that rounds quotients down. On
natural numbers that is the operation it was requested for. Combining symbolically
therefore agrees with folding wherever folding does not wrap.
-/

namespace KernelFootprint

/-- What a value stands for where the variables have the given values. -/
def Value.Means (environment : String → Int) (value : Value) (number : Int) : Prop :=
  value.measure (fun name => some (environment name)) = .ok (.exact number)

/-- The operation that a deferred one stands for: quotients are rounded toward minus infinity,
and remainders have the sign of the divisor. -/
def WordOp.floored (op : WordOp) (first second : Int) : Int :=
  match op with
  | .udiv | .sdiv => first.fdiv second
  | .srem => first.fmod second
  | op => op.unbounded first second

theorem WordOp.floored_eq_unbounded (op : WordOp) {first second : Int} (firstLow : 0 ≤ first)
    (secondLow : 0 ≤ second) : op.floored first second = op.unbounded first second := by
  cases op with
  | udiv => exact Int.fdiv_eq_ediv_of_nonneg first secondLow
  | sdiv =>
      change first.fdiv second = first.tdiv second
      rw [Int.fdiv_eq_ediv_of_nonneg first secondLow, Int.tdiv_eq_ediv_of_nonneg firstLow]
  | srem =>
      change first.fmod second = first.tmod second
      rw [Int.fmod_eq_emod_of_nonneg first secondLow, Int.tmod_eq_emod_of_nonneg firstLow]
  | _ => rfl

namespace Value

variable {environment : String → Int} {first second : Value} {left right : Int}

theorem means_int (environment : String → Int) (number : Int) :
    (Value.int number).Means environment number := rfl

theorem means_var (environment : String → Int) (name : String) :
    (Value.var name).Means environment (environment name) := rfl

theorem eq_of_means_int {number other : Int} (means : (Value.int number).Means environment other) :
    number = other := by
  cases means
  rfl

theorem Means.evaluate {value : Value} {number : Int} (means : value.Means environment number) :
    value.evaluate (fun name => some (environment name)) = .ok number := by
  rw [Value.evaluate, means]
  rfl

theorem means_many {op : ManyOp} {result : Int} (onLeft : first.Means environment left)
    (onRight : second.Means environment right)
    (applied : op.apply (.exact left) (.exact right) = .ok (.exact result)) :
    (Value.many op [first, second]).Means environment result := by
  rw [Means, measure, onLeft]
  change measureRest _ op (.exact left) [second] = _
  rw [measureRest, onRight]
  change (op.apply (.exact left) (.exact right) >>= _) = _
  rw [applied]
  rfl

theorem means_pair {op : PairOp} {result : Int} (onLeft : first.Means environment left)
    (onRight : second.Means environment right)
    (applied : op.apply (.exact left) (.exact right) = .ok (.exact result)) :
    (Value.pair op first second).Means environment result := by
  rw [Means, measure, onLeft, onRight]
  exact applied

theorem shiftLeft_eq {value amount : Int} (inside : 0 ≤ amount ∧ amount < 64) :
    shiftLeft value amount = .ok (value * 2 ^ amount.toNat) := by
  have small : ¬ boundlessShift ≤ amount := by
    change ¬ (30 : Int) <<< 61 ≤ amount
    have : (64 : Int) ≤ (30 : Int) <<< 61 := by decide
    omega
  have storable : ¬ storableShift ≤ amount := by
    have : (64 : Int) ≤ storableShift := by decide
    omega
  rw [shiftLeft, if_neg (Int.not_lt.mpr inside.1)]
  by_cases zero : value = 0
  · rw [if_pos zero, zero, Int.zero_mul]
  · rw [if_neg zero, if_neg small, if_neg storable, Int.shiftLeft_eq]

theorem shiftRight_eq {value amount : Int} (inside : 0 ≤ amount ∧ amount < 64) :
    shiftRight value amount = .ok (value / 2 ^ amount.toNat) := by
  rw [shiftRight, if_neg (Int.not_lt.mpr inside.1), Int.shiftRight_eq_div_pow]
  norm_cast

theorem means_deferred_sub (onLeft : first.Means environment left)
    (onRight : second.Means environment right) :
    (WordOp.sub.deferred first second).Means environment (left - right) := by
  have negated : (Value.many .product [.int (-1), second]).Means environment (-1 * right) :=
    means_many (means_int environment (-1)) onRight rfl
  have difference : left - right = left + -1 * right := by omega
  rw [difference]
  exact means_many onLeft negated rfl

/-- What a deferred operation stands for on integers of either sign. -/
theorem means_floored {op : WordOp} (onLeft : first.Means environment left)
    (onRight : second.Means environment right) (accepted : op.Accepts right) :
    (op.deferred first second).Means environment (op.floored left right) := by
  cases op with
  | add => exact means_many onLeft onRight rfl
  | sub => exact means_deferred_sub onLeft onRight
  | mul => exact means_many onLeft onRight rfl
  | and => exact means_many onLeft onRight rfl
  | shl =>
      refine means_pair onLeft onRight ?_
      change (shiftLeft left right).map Operand.exact = _
      rw [shiftLeft_eq accepted]
      rfl
  | lshr =>
      refine means_pair onLeft onRight ?_
      change (shiftRight left right).map Operand.exact = _
      rw [shiftRight_eq accepted]
      rfl
  | udiv | sdiv =>
      refine means_pair onLeft onRight ?_
      change (if right = 0 then _ else Except.ok (Operand.exact (left.fdiv right))) = _
      rw [if_neg accepted]
      rfl
  | srem =>
      refine means_pair onLeft onRight ?_
      change (if right = 0 then _ else Except.ok (Operand.exact (left.fmod right))) = _
      rw [if_neg accepted]
      rfl
  | max =>
      refine means_many onLeft onRight ?_
      change Except.ok (Operand.max (.exact left) (.exact right)) = _
      rw [Operand.max_exact]
      rfl
  | min =>
      refine means_many onLeft onRight ?_
      change Except.ok (Operand.min (.exact left) (.exact right)) = _
      rw [Operand.min_exact]
      rfl

/-- On natural numbers a deferred operation stands for the unbounded one. -/
theorem means_deferred {op : WordOp} (onLeft : first.Means environment left)
    (onRight : second.Means environment right) (accepted : op.Accepts right)
    (leftLow : 0 ≤ left) (rightLow : 0 ≤ right) :
    (op.deferred first second).Means environment (op.unbounded left right) := by
  rw [← op.floored_eq_unbounded leftLow rightLow]
  exact means_floored onLeft onRight accepted

end Value

namespace Analysis

/-- An analysis that comes to a value standing for a number, whatever the ledger holds. -/
def Yields (environment : String → Int) (analysis : Analysis Value) (number : Int) : Prop :=
  ∀ ledger, ∃ value after, analysis.outcome ledger = (.ok value, after) ∧
    value.Means environment number

variable {environment : String → Int}

theorem yields_pure {value : Value} {number : Int} (means : value.Means environment number) :
    (pure value : Analysis Value).Yields environment number := by
  intro ledger
  exact ⟨value, ledger, rfl, means⟩

theorem Yields.bind {first : Analysis Value} {next : Value → Analysis Value} {number result : Int}
    (yields : first.Yields environment number)
    (rest : ∀ value, value.Means environment number → (next value).Yields environment result) :
    (first >>= next).Yields environment result := by
  intro ledger
  obtain ⟨value, middle, returned, means⟩ := yields ledger
  obtain ⟨last, after, finished, lastMeans⟩ := rest value means middle
  exact ⟨last, after, outcome_bind_eq_ok.mpr ⟨value, middle, returned, finished⟩, lastMeans⟩

end Analysis

namespace Emitter

variable {environment : String → Int}

/-- A number of 64 bits stands for itself as a constant. -/
theorem yields_lift {value : Value} {number : Int} (means : value.Means environment number)
    (low : -2 ^ 63 ≤ number) (high : number < 2 ^ 63) :
    (symbolic.lift value).Yields environment number := by
  cases value with
  | int value =>
      cases Value.eq_of_means_int means
      intro ledger
      refine ⟨_, _, rfl, ?_⟩
      change (Value.int (wrapWide number)).Means environment number
      rw [wrapWide_eq_self low high]
      exact means
  | _ => exact Analysis.yields_pure means

/-- A requested operation stands for a number if it does on all that stands for the operands. -/
theorem yields_request {op : WordOp} {first second : Value} {left right result : Int}
    (onLeft : (symbolic.lift first).Yields environment left)
    (onRight : (symbolic.lift second).Yields environment right)
    (deferred : ∀ value other, value.Means environment left → other.Means environment right →
      (op.deferred value other).Means environment result) :
    (do
      let first ← symbolic.lift first
      let second ← symbolic.lift second
      symbolic.emit (.operation op first second) : Analysis Value).Yields environment result := by
  refine onLeft.bind ?_
  intro value means
  refine onRight.bind ?_
  intro other otherMeans ledger
  exact ⟨_, _, rfl, deferred value other means otherMeans⟩

/-- Where folding two natural numbers below 2 ^ 63 is exact, so is combining what stands
for them. -/
theorem yields_combine {op : WordOp} {first second : Value} {left right : Int}
    (onLeft : first.Means environment left) (onRight : second.Means environment right)
    (accepted : op.Accepts right) (leftLow : 0 ≤ left) (leftHigh : left < 2 ^ 63)
    (rightLow : 0 ≤ right) (rightHigh : right < 2 ^ 63) (resultLow : 0 ≤ op.unbounded left right)
    (resultHigh : op.unbounded left right < 2 ^ 63) :
    (symbolic.combine op first second).Yields environment (op.unbounded left right) := by
  have requested := yields_request (yields_lift onLeft (by omega) leftHigh)
    (yields_lift onRight (by omega) rightHigh)
    (fun value other means otherMeans =>
      Value.means_deferred means otherMeans accepted leftLow rightLow)
  cases first with
  | int number =>
      cases second with
      | int other =>
          cases Value.eq_of_means_int onLeft
          cases Value.eq_of_means_int onRight
          rw [combine_of_fold _ (WordOp.fold_eq_unbounded accepted leftLow leftHigh rightLow
            rightHigh resultLow resultHigh)]
          exact Analysis.yields_pure (Value.means_int _ _)
      | _ => exact requested
  | _ => exact requested

end Emitter

end KernelFootprint
