import KernelFootprint.Address.Range
import KernelFootprint.Proofs.Index
import KernelFootprint.Proofs.Outcome
import KernelFootprint.Proofs.Unbounded
import KernelFootprint.Tree.Postfix
import Mathlib

/-!
# The distance between two extreme values

The size of a working set is a difference of two wrapped numbers, which is wrapped once
more. All of this changes the distance of the extreme values by a multiple of the modulus
only. Hence the size is the distance exactly if that is below 2 ^ 63, and a distance of
2 ^ 63 or more that is itself the difference of two numbers of 64 bits is given as a
negative size.
-/

namespace KernelFootprint

theorem wrapWide_eq (value : Int) : wrapWide value = (value + 2 ^ 63) % 2 ^ 64 - 2 ^ 63 := rfl

theorem wrapWide_nonneg_iff (value : Int) : 0 ≤ wrapWide value ↔ value % 2 ^ 64 < 2 ^ 63 := by
  rw [wrapWide_eq]
  omega

/-- A natural number is kept exactly if it is below 2 ^ 63. -/
theorem wrapWide_eq_self_iff {value : Int} (nonneg : 0 ≤ value) :
    wrapWide value = value ↔ value < 2 ^ 63 := by
  constructor
  · intro kept
    rw [← kept]
    exact wrapWide_lt value
  · exact wrapWide_eq_self (by omega)

theorem wrapWide_max_sub_min (first second : Int) :
    wrapWide (wrapWide (max first second) - wrapWide (min first second)) =
      wrapWide |first - second| := by
  have exactly : max first second - min first second = |first - second| := max_sub_min_eq_abs' _ _
  rw [← exactly]
  exact wrapWide_congr ((wrapWide_modEq _).sub (wrapWide_modEq _))

variable {resolver : Resolver} {view : Option LoopView} {loop : Datum} {tree : AddressTree}
  {ledger middle after : Ledger} {highest lowest : Int}

/-- The size of a working set is the distance of the extreme values, wrapped. -/
theorem outcome_workingSetSize
    (greatest : (tree.extremeValue (.of resolver .greatest view loop)).outcome ledger =
      (.ok (.int highest), middle))
    (least : (tree.extremeValue (.of resolver .least view loop)).outcome middle =
      (.ok (.int lowest), after)) :
    (workingSetSize resolver view loop tree).outcome ledger =
      (.ok (.int (wrapWide |highest - lowest|)), after) := by
  have maximum := Emitter.combine_of_fold resolver.emitter (WordOp.fold_max highest lowest)
  have minimum := Emitter.combine_of_fold resolver.emitter (WordOp.fold_min highest lowest)
  have distance := Emitter.combine_of_fold resolver.emitter
    (WordOp.fold_sub (wrapWide (max highest lowest)) (wrapWide (min highest lowest)))
  rw [wrapWide_max_sub_min] at distance
  rw [workingSetSize, Analysis.outcome_bind, greatest]
  change Analysis.outcome (tree.extremeValue _ >>= _) middle = _
  rw [Analysis.outcome_bind, least]
  simp only [maximum, minimum, pure_bind, distance, Analysis.outcome_pure]

/-- The size of a working set is the distance of the extreme values exactly if that is
below 2 ^ 63. Otherwise it depends on the distance modulo 2 ^ 64 whether it is negative. -/
theorem workingSetSize_of_extremeValue
    (greatest : (tree.extremeValue (.of resolver .greatest view loop)).outcome ledger =
      (.ok (.int highest), middle))
    (least : (tree.extremeValue (.of resolver .least view loop)).outcome middle =
      (.ok (.int lowest), after)) :
    ∃ size : Int, (workingSetSize resolver view loop tree).outcome ledger =
        (.ok (.int size), after) ∧
      size ≡ |highest - lowest| [ZMOD 2 ^ 64] ∧ -2 ^ 63 ≤ size ∧ size < 2 ^ 63 ∧
      (size = |highest - lowest| ↔ |highest - lowest| < 2 ^ 63) ∧
      (0 ≤ size ↔ |highest - lowest| % 2 ^ 64 < 2 ^ 63) :=
  ⟨_, outcome_workingSetSize greatest least, wrapWide_modEq _,
    Width.wide.format.lowest_le_wrap _, wrapWide_lt _, wrapWide_eq_self_iff (abs_nonneg _),
    wrapWide_nonneg_iff _⟩

/-- The distance between the first and the last element of 128 rows. -/
theorem workingSetSize_rows :
    ∃ size : Int, (workingSetSize (Resolver.sample (.constant 128)) none (.integer 0)
      (.binary BinaryTree.rowMajor)).outcome {} = (.ok (.int size), {}) ∧ size = 508 := by
  have greatest : ((AddressTree.binary BinaryTree.rowMajor).extremeValue
      (.of (Resolver.sample (.constant 128)) .greatest none (.integer 0))).outcome {} =
        (.ok (.int 508), {}) := by cbv
  have least : ((AddressTree.binary BinaryTree.rowMajor).extremeValue
      (.of (Resolver.sample (.constant 128)) .least none (.integer 0))).outcome {} =
        (.ok (.int 0), {}) := by cbv
  obtain ⟨size, returned, _, _, _, exactly, _⟩ := workingSetSize_of_extremeValue greatest least
  exact ⟨size, returned, exactly.mpr (by decide)⟩

/-- Indices that are shifted by 63 bits lie 2 ^ 63 apart, and the size is negative. -/
theorem workingSetSize_negative :
    ∃ tree : BinaryTree,
      Postfix.build {} [.text "TIDX", .text "63", .text "SHL"] = .ok (some tree) ∧
      ((AddressTree.binary tree).extremeValue
        (.of (Resolver.sample (.constant 128)) .greatest none (.integer 0))).outcome {} =
          (.ok (.int (-2 ^ 63)), {}) ∧
      ((AddressTree.binary tree).extremeValue
        (.of (Resolver.sample (.constant 128)) .least none (.integer 0))).outcome {} =
          (.ok (.int 0), {}) ∧
      (workingSetSize (Resolver.sample (.constant 128)) none (.integer 0)
        (.binary tree)).outcome {} = (.ok (.int (-2 ^ 63)), {}) ∧
      (-2 ^ 63 : Int) ≠ |(-2 ^ 63) - 0| ∧ (-2 ^ 63 : Int) < 0 := by
  refine ⟨.branch "SHL" .shl (.leaf (.text "TIDX") (.terminal (.thread .x)))
    (.leaf (.text "63") (.terminal (.constant 63))), rfl, by cbv, by cbv, by cbv, by decide,
    by decide⟩

end KernelFootprint
