import KernelFootprint.Address.Extremum
import KernelFootprint.Proofs.Outcome
import KernelFootprint.Proofs.Unbounded
import Mathlib.Algebra.BigOperators.Group.List.Basic

/-!
# Extremes of natural numbers

The least and the greatest value of an address are gathered by sums, by products and by
extrema. Gathering over 64 bits gives the exact extremes if the greatest one lies below
2 ^ 63. A value beyond that may still be multiplied by zero, after which it does not
matter what it was wrapped to.
-/

namespace KernelFootprint

/-- The ends of a range of natural numbers. -/
structure Extremes where
  lowest : Int
  highest : Int
  nonneg : 0 ≤ lowest
  ordered : lowest ≤ highest

namespace Extremes

instance : Inhabited Extremes := ⟨⟨0, 0, Int.le_refl 0, Int.le_refl 0⟩⟩

theorem highest_nonneg (bounds : Extremes) : 0 ≤ bounds.highest :=
  Int.le_trans bounds.nonneg bounds.ordered

theorem lowest_eq_zero {bounds : Extremes} (zero : bounds.highest = 0) : bounds.lowest = 0 := by
  have nonneg := bounds.nonneg
  have ordered := bounds.ordered
  omega

/-- Whether a number lies between the ends. -/
def Contains (bounds : Extremes) (number : Int) : Prop :=
  bounds.lowest ≤ number ∧ number ≤ bounds.highest

/-- Two of the possible numbers, with all of the others between them. -/
structure Encloses (bounds : Extremes) (possible : Int → Prop) : Prop where
  lowest : possible bounds.lowest
  highest : possible bounds.highest
  within : ∀ number, possible number → bounds.Contains number

theorem Encloses.of_iff {bounds : Extremes} {possible other : Int → Prop}
    (enclosed : bounds.Encloses possible) (same : ∀ number, other number ↔ possible number) :
    bounds.Encloses other where
  lowest := (same _).mpr enclosed.lowest
  highest := (same _).mpr enclosed.highest
  within number holds := enclosed.within number ((same number).mp holds)

/-- A single number. -/
def exactly (number : Int) (nonneg : 0 ≤ number) : Extremes :=
  ⟨number, number, nonneg, Int.le_refl number⟩

theorem encloses_exactly {number : Int} (nonneg : 0 ≤ number) {possible : Int → Prop}
    (only : ∀ other, possible other ↔ other = number) :
    (exactly number nonneg).Encloses possible where
  lowest := (only number).mpr rfl
  highest := (only number).mpr rfl
  within other holds := by
    cases (only other).mp holds
    exact ⟨Int.le_refl _, Int.le_refl _⟩

end Extremes

/-- The ways in which the values of operands are gathered. -/
inductive Gathering
  | sum
  | product
  | extremum
  deriving DecidableEq

namespace Gathering

def op (gathering : Gathering) (mode : Mode) : WordOp :=
  match gathering with
  | .sum => .add
  | .product => .mul
  | .extremum => mode.extremum

theorem fold_op (gathering : Gathering) (mode : Mode) (first second : Int) :
    (gathering.op mode).fold .wide first second =
      .ok (wrapWide ((gathering.op mode).unbounded first second)) := by
  cases gathering with
  | extremum => cases mode <;> rfl
  | _ => rfl

/-- The extremes of what is gathered from two ranges. -/
def apply (gathering : Gathering) (first second : Extremes) : Extremes where
  lowest := (gathering.op .least).unbounded first.lowest second.lowest
  highest := (gathering.op .greatest).unbounded first.highest second.highest
  nonneg := by
    have low := first.nonneg
    have otherLow := second.nonneg
    cases gathering with
    | sum => exact Int.add_nonneg low otherLow
    | product => exact Int.mul_nonneg low otherLow
    | extremum => exact Int.le_min.mpr ⟨low, otherLow⟩
  ordered := by
    have ordered := first.ordered
    have otherOrdered := second.ordered
    cases gathering with
    | sum => exact Int.add_le_add ordered otherOrdered
    | product => exact Int.mul_le_mul ordered otherOrdered second.nonneg first.highest_nonneg
    | extremum =>
        change min first.lowest second.lowest ≤ max first.highest second.highest
        omega

end Gathering

namespace Extremes

/-- Values that are the extremes of a range, unless the greatest one is too great. -/
def Brackets (bounds : Extremes) (greatest least : Value) : Prop :=
  ∃ high low : Int, greatest = .int high ∧ least = .int low ∧
    (bounds.highest < 2 ^ 63 → high = bounds.highest ∧ low = bounds.lowest)

theorem brackets_exactly {number : Int} (nonneg : 0 ≤ number) :
    (exactly number nonneg).Brackets (.int number) (.int number) :=
  ⟨number, number, rfl, rfl, fun _ => ⟨rfl, rfl⟩⟩

end Extremes

namespace Gathering

variable {first second : Extremes} {high low otherHigh otherLow : Int}

/-- Two exact extremes of which the gathered one is small enough are gathered exactly. -/
theorem wrap_apply (gathering : Gathering)
    (small : (gathering.apply first second).highest < 2 ^ 63) :
    wrapWide ((gathering.op .greatest).unbounded first.highest second.highest) =
        (gathering.apply first second).highest ∧
      wrapWide ((gathering.op .least).unbounded first.lowest second.lowest) =
        (gathering.apply first second).lowest := by
  have nonneg := (gathering.apply first second).nonneg
  have ordered := (gathering.apply first second).ordered
  exact ⟨wrapWide_eq_self (Int.le_trans (by decide) (Int.le_trans nonneg ordered)) small,
    wrapWide_eq_self (Int.le_trans (by decide) nonneg) (Int.lt_of_le_of_lt ordered small)⟩

/-- What two bracketed values are gathered to is bracketed by the gathered extremes. -/
theorem brackets_unbounded (gathering : Gathering)
    (onFirst : first.highest < 2 ^ 63 → high = first.highest ∧ low = first.lowest)
    (onSecond : second.highest < 2 ^ 63 →
      otherHigh = second.highest ∧ otherLow = second.lowest)
    (small : (gathering.apply first second).highest < 2 ^ 63) :
    wrapWide ((gathering.op .greatest).unbounded high otherHigh) =
        (gathering.apply first second).highest ∧
      wrapWide ((gathering.op .least).unbounded low otherLow) =
        (gathering.apply first second).lowest := by
  have firstNonneg := first.highest_nonneg
  have secondNonneg := second.highest_nonneg
  have exact_of_small (firstSmall : first.highest < 2 ^ 63)
      (secondSmall : second.highest < 2 ^ 63) :
      wrapWide ((gathering.op .greatest).unbounded high otherHigh) =
          (gathering.apply first second).highest ∧
        wrapWide ((gathering.op .least).unbounded low otherLow) =
          (gathering.apply first second).lowest := by
    obtain ⟨rfl, rfl⟩ := onFirst firstSmall
    obtain ⟨rfl, rfl⟩ := onSecond secondSmall
    exact gathering.wrap_apply small
  cases gathering with
  | sum =>
      change first.highest + second.highest < 2 ^ 63 at small
      exact exact_of_small (by omega) (by omega)
  | extremum =>
      change max first.highest second.highest < 2 ^ 63 at small
      exact exact_of_small (by omega) (by omega)
  | product =>
      change first.highest * second.highest < 2 ^ 63 at small
      rcases Int.lt_or_eq_of_le firstNonneg with firstPositive | firstZero
      · rcases Int.lt_or_eq_of_le secondNonneg with secondPositive | secondZero
        · refine exact_of_small (Int.lt_of_le_of_lt ?_ small) (Int.lt_of_le_of_lt ?_ small)
          · exact le_mul_of_one_le_right firstNonneg secondPositive
          · exact le_mul_of_one_le_left secondNonneg firstPositive
        · -- Whatever the first factor was wrapped to, the product is zero.
          obtain ⟨rfl, rfl⟩ := onSecond (by omega)
          have lowestZero := second.lowest_eq_zero secondZero.symm
          change wrapWide (high * second.highest) = first.highest * second.highest ∧
            wrapWide (low * second.lowest) = first.lowest * second.lowest
          rw [← secondZero, lowestZero, Int.mul_zero, Int.mul_zero, Int.mul_zero, Int.mul_zero]
          exact ⟨rfl, rfl⟩
      · obtain ⟨rfl, rfl⟩ := onFirst (by omega)
        have lowestZero := first.lowest_eq_zero firstZero.symm
        change wrapWide (first.highest * otherHigh) = first.highest * second.highest ∧
          wrapWide (first.lowest * otherLow) = first.lowest * second.lowest
        rw [← firstZero, lowestZero, Int.zero_mul, Int.zero_mul, Int.zero_mul, Int.zero_mul]
        exact ⟨rfl, rfl⟩

/-- Combining bracketed values brackets the gathered extremes. -/
theorem combine_brackets (gathering : Gathering) (emitter : Emitter)
    {greatest least otherGreatest otherLeast : Value} (onFirst : first.Brackets greatest least)
    (onSecond : second.Brackets otherGreatest otherLeast) :
    ∃ nextGreatest nextLeast,
      emitter.combine (gathering.op .greatest) greatest otherGreatest = pure nextGreatest ∧
        emitter.combine (gathering.op .least) least otherLeast = pure nextLeast ∧
          (gathering.apply first second).Brackets nextGreatest nextLeast := by
  obtain ⟨high, low, rfl, rfl, exactFirst⟩ := onFirst
  obtain ⟨otherHigh, otherLow, rfl, rfl, exactSecond⟩ := onSecond
  exact ⟨_, _, Emitter.combine_of_fold _ (gathering.fold_op _ _ _),
    Emitter.combine_of_fold _ (gathering.fold_op _ _ _), _, _, rfl, rfl,
    gathering.brackets_unbounded exactFirst exactSecond⟩

/-- Lists of values that are bracketed by lists of extremes. -/
inductive BracketsAll : List Extremes → List Value → List Value → Prop
  | nil : BracketsAll [] [] []
  | cons {bounds : Extremes} {rest : List Extremes} {greatest least : Value}
      {allGreatest allLeast : List Value} : bounds.Brackets greatest least →
      BracketsAll rest allGreatest allLeast →
      BracketsAll (bounds :: rest) (greatest :: allGreatest) (least :: allLeast)

/-- The extremes of what is gathered from several ranges. -/
def gather (gathering : Gathering) (first : Extremes) (rest : List Extremes) : Extremes :=
  rest.foldl gathering.apply first

theorem foldlM_brackets (gathering : Gathering) (emitter : Emitter) {start : Extremes}
    {bounds : List Extremes} {greatest least : Value} {allGreatest allLeast : List Value}
    (onStart : start.Brackets greatest least) (all : BracketsAll bounds allGreatest allLeast) :
    ∃ lastGreatest lastLeast,
      allGreatest.foldlM (emitter.combine (gathering.op .greatest)) greatest =
          pure lastGreatest ∧
        allLeast.foldlM (emitter.combine (gathering.op .least)) least = pure lastLeast ∧
          (gathering.gather start bounds).Brackets lastGreatest lastLeast := by
  induction all generalizing start greatest least with
  | nil => exact ⟨greatest, least, rfl, rfl, onStart⟩
  | cons onFirst _ ih =>
      obtain ⟨nextGreatest, nextLeast, combined, otherCombined, brackets⟩ :=
        gathering.combine_brackets emitter onStart onFirst
      obtain ⟨lastGreatest, lastLeast, folded, otherFolded, lastBrackets⟩ := ih brackets
      refine ⟨lastGreatest, lastLeast, ?_, ?_, lastBrackets⟩
      · rw [List.foldlM_cons, combined, pure_bind, folded]
      · rw [List.foldlM_cons, otherCombined, pure_bind, otherFolded]

theorem combineAll_brackets (gathering : Gathering) (emitter : Emitter) {first : Extremes}
    {rest : List Extremes} {allGreatest allLeast : List Value}
    (all : BracketsAll (first :: rest) allGreatest allLeast) :
    ∃ greatest least,
      emitter.combineAll (gathering.op .greatest) allGreatest = pure greatest ∧
        emitter.combineAll (gathering.op .least) allLeast = pure least ∧
          (gathering.gather first rest).Brackets greatest least := by
  cases all with
  | cons onFirst onRest => exact gathering.foldlM_brackets emitter onFirst onRest

end Gathering

namespace Extremes

theorem gather_sum (start : Extremes) (bounds : List Extremes) :
    (Gathering.sum.gather start bounds).lowest =
        start.lowest + (bounds.map lowest).sum ∧
      (Gathering.sum.gather start bounds).highest =
        start.highest + (bounds.map highest).sum := by
  induction bounds generalizing start with
  | nil => exact ⟨(Int.add_zero _).symm, (Int.add_zero _).symm⟩
  | cons first rest ih =>
      obtain ⟨lowestEq, highestEq⟩ := ih (Gathering.sum.apply start first)
      rw [List.map_cons, List.sum_cons, List.map_cons, List.sum_cons, ← Int.add_assoc,
        ← Int.add_assoc]
      exact ⟨lowestEq, highestEq⟩

theorem gather_product (start : Extremes) (bounds : List Extremes) :
    (Gathering.product.gather start bounds).lowest =
        start.lowest * (bounds.map lowest).prod ∧
      (Gathering.product.gather start bounds).highest =
        start.highest * (bounds.map highest).prod := by
  induction bounds generalizing start with
  | nil => exact ⟨(Int.mul_one _).symm, (Int.mul_one _).symm⟩
  | cons first rest ih =>
      obtain ⟨lowestEq, highestEq⟩ := ih (Gathering.product.apply start first)
      rw [List.map_cons, List.prod_cons, List.map_cons, List.prod_cons, ← Int.mul_assoc,
        ← Int.mul_assoc]
      exact ⟨lowestEq, highestEq⟩

/-- The lower end of a choice is that of one of the ranges. -/
theorem lowest_extremum (first : Extremes) (rest : List Extremes) :
    ∃ bounds ∈ first :: rest,
      (Gathering.extremum.gather first rest).lowest = bounds.lowest := by
  induction rest generalizing first with
  | nil => exact ⟨first, List.mem_cons_self .., rfl⟩
  | cons second rest ih =>
      obtain ⟨bounds, member, same⟩ := ih (Gathering.extremum.apply first second)
      rcases List.mem_cons.mp member with rfl | below
      · rcases min_choice first.lowest second.lowest with isFirst | isSecond
        · exact ⟨first, List.mem_cons_self .., same.trans isFirst⟩
        · exact ⟨second, List.mem_cons_of_mem _ (List.mem_cons_self ..), same.trans isSecond⟩
      · exact ⟨bounds, List.mem_cons_of_mem _ (List.mem_cons_of_mem _ below), same⟩

theorem highest_extremum (first : Extremes) (rest : List Extremes) :
    ∃ bounds ∈ first :: rest,
      (Gathering.extremum.gather first rest).highest = bounds.highest := by
  induction rest generalizing first with
  | nil => exact ⟨first, List.mem_cons_self .., rfl⟩
  | cons second rest ih =>
      obtain ⟨bounds, member, same⟩ := ih (Gathering.extremum.apply first second)
      rcases List.mem_cons.mp member with rfl | below
      · rcases max_choice first.highest second.highest with isFirst | isSecond
        · exact ⟨first, List.mem_cons_self .., same.trans isFirst⟩
        · exact ⟨second, List.mem_cons_of_mem _ (List.mem_cons_self ..), same.trans isSecond⟩
      · exact ⟨bounds, List.mem_cons_of_mem _ (List.mem_cons_of_mem _ below), same⟩

/-- A choice reaches over all of the ranges. -/
theorem extremum_reaches (first : Extremes) (rest : List Extremes) :
    ∀ bounds ∈ first :: rest,
      (Gathering.extremum.gather first rest).lowest ≤ bounds.lowest ∧
        bounds.highest ≤ (Gathering.extremum.gather first rest).highest := by
  induction rest generalizing first with
  | nil =>
      intro bounds member
      cases List.mem_singleton.mp member
      exact ⟨Int.le_refl _, Int.le_refl _⟩
  | cons second rest ih =>
      have reached := ih (Gathering.extremum.apply first second)
      obtain ⟨low, high⟩ := reached _ (List.mem_cons_self ..)
      intro bounds member
      rcases List.mem_cons.mp member with rfl | inRest
      · exact ⟨Int.le_trans low (min_le_left _ _), Int.le_trans (le_max_left _ _) high⟩
      · rcases List.mem_cons.mp inRest with rfl | below
        · exact ⟨Int.le_trans low (min_le_right _ _), Int.le_trans (le_max_right _ _) high⟩
        · exact reached bounds (List.mem_cons_of_mem _ below)

variable {Item : Type} {bounds : Item → Extremes} {choices : List (Item × Int)}

theorem sum_within (inside : ∀ choice ∈ choices, (bounds choice.1).Contains choice.2) :
    (choices.map (fun choice => (bounds choice.1).lowest)).sum ≤ (choices.map Prod.snd).sum ∧
      (choices.map Prod.snd).sum ≤
        (choices.map (fun choice => (bounds choice.1).highest)).sum := by
  induction choices with
  | nil => exact ⟨Int.le_refl 0, Int.le_refl 0⟩
  | cons first rest ih =>
      obtain ⟨restLow, restHigh⟩ := ih (fun choice member =>
        inside choice (List.mem_cons_of_mem _ member))
      obtain ⟨low, high⟩ := inside first (List.mem_cons_self ..)
      simp only [List.map_cons, List.sum_cons]
      exact ⟨Int.add_le_add low restLow, Int.add_le_add high restHigh⟩

theorem product_within (inside : ∀ choice ∈ choices, (bounds choice.1).Contains choice.2) :
    0 ≤ (choices.map (fun choice => (bounds choice.1).lowest)).prod ∧
      (choices.map (fun choice => (bounds choice.1).lowest)).prod ≤
          (choices.map Prod.snd).prod ∧
        (choices.map Prod.snd).prod ≤
          (choices.map (fun choice => (bounds choice.1).highest)).prod := by
  induction choices with
  | nil => exact ⟨Int.one_nonneg, Int.le_refl 1, Int.le_refl 1⟩
  | cons first rest ih =>
      obtain ⟨nonneg, restLow, restHigh⟩ := ih (fun choice member =>
        inside choice (List.mem_cons_of_mem _ member))
      obtain ⟨low, high⟩ := inside first (List.mem_cons_self ..)
      have firstNonneg := (bounds first.1).nonneg
      simp only [List.map_cons, List.prod_cons]
      exact ⟨Int.mul_nonneg firstNonneg nonneg,
        Int.mul_le_mul low restLow nonneg (Int.le_trans firstNonneg low),
        Int.mul_le_mul high restHigh (Int.le_trans nonneg restLow)
          (bounds first.1).highest_nonneg⟩

end Extremes

end KernelFootprint
