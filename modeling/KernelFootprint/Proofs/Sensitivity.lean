import KernelFootprint.Address.Query
import KernelFootprint.Proofs.Index
import Mathlib

/-!
# Strides as finite differences

Where every node above an index adds to it, subtracts from it or multiplies it by
something free of the index, the address is an affine function of the index up to
multiples of 2 ^ 64. The stride gathers the factors from the node to the root,
evaluation meets them on its way up. Every occurrence of the index contributes the
product of its factors to both, so that the stride is the slope of the address.
-/

namespace KernelFootprint

/-- The resolver with a value for one index. -/
def Resolver.withIndex (resolver : Resolver) (index : Index) (value : Int) : Resolver :=
  resolver.given [(index.token, .int value)]

namespace BinaryTree

/-- Whether an operation hands on what an index does to one operand, up to a factor
that is free of the index. -/
def Passes (index : Index) (operation : Operation) (isLeft : Bool) (other : BinaryTree) : Prop :=
  match operation with
  | .add | .or => True
  | .sub => isLeft = true
  | .mul => ¬ other.Mentions index
  | .shl => isLeft = true ∧ ¬ other.Mentions index
  | _ => False

instance (index : Index) (operation : Operation) (isLeft : Bool) (other : BinaryTree) :
    Decidable (Passes index operation isLeft other) :=
  match operation with
  | .add | .or => isTrue trivial
  | .sub => inferInstanceAs (Decidable (isLeft = true))
  | .mul => inferInstanceAs (Decidable (¬ other.Mentions index))
  | .shl => inferInstanceAs (Decidable (isLeft = true ∧ ¬ other.Mentions index))
  | .and | .div | .udiv | .sdiv | .srem | .lshr | .phi | .icmp | .fcmp | .fmul | .fdiv =>
      isFalse id

/-- Every node above an index hands on what the index does. -/
def IsAffineIn (index : Index) : BinaryTree → Prop
  | .leaf _ _ => True
  | .branch _ operation left right =>
      (left.Mentions index → Passes index operation true right) ∧
        (right.Mentions index → Passes index operation false left) ∧
        left.IsAffineIn index ∧ right.IsAffineIn index

instance IsAffineIn.decidable (index : Index) :
    (tree : BinaryTree) → Decidable (tree.IsAffineIn index)
  | .leaf _ _ => inferInstanceAs (Decidable True)
  | .branch _ operation left right =>
      have := decidable index left
      have := decidable index right
      inferInstanceAs (Decidable (
        (left.Mentions index → Passes index operation true right) ∧
          (right.Mentions index → Passes index operation false left) ∧
          left.IsAffineIn index ∧ right.IsAffineIn index))

variable {resolver : Resolver} {index : Index}

/-- A deferring emitter gives a tree an integer from integers below it only. -/
theorem evaluate_branch_eq_int (deferring : resolver.emitter.IsDeferring) {text : String}
    {operation : Operation} {left right : BinaryTree} {ledger after : Ledger} {value : Int}
    (returned : (resolver.evaluate (branch text operation left right)).outcome ledger =
      (.ok (.int value), after)) :
    ∃ op first middle second last, operation.wordOp? = some op ∧
      op.fold .wide first second = .ok value ∧
        (resolver.evaluate left).outcome ledger = (.ok (.int first), middle) ∧
          (resolver.evaluate right).outcome middle = (.ok (.int second), last) := by
  obtain ⟨first, middle, second, last, leftReturned, rightReturned, applied⟩ :=
    evaluateWith_branch_eq_ok.mp returned
  cases read : operation.wordOp? with
  | some op =>
      rw [apply_of_wordOp? read] at applied
      obtain ⟨first, second, rfl, rfl, folded⟩ := Emitter.combine_eq_int deferring applied
      exact ⟨op, first, middle, second, last, rfl, folded, leftReturned, rightReturned⟩
  | none =>
      by_cases isMerge : operation = .phi
      · subst isMerge
        cases applied
      · rw [apply_of_wordOp?_none isMerge read] at applied
        cases applied

/-- An evaluation that comes to an integer does so whatever the ledger holds. -/
theorem evaluate_eq_pure (deferring : resolver.emitter.IsDeferring) {tree : BinaryTree}
    {ledger after : Ledger} {value : Int}
    (returned : (resolver.evaluate tree).outcome ledger = (.ok (.int value), after)) :
    resolver.evaluate tree = pure (.int value) := by
  induction tree generalizing ledger after value with
  | leaf text symbol =>
      cases symbol with
      | terminal node =>
          rw [evaluate_terminal, Analysis.outcome_ofExcept] at returned
          exact evaluate_of_resolve (Prod.mk.inj returned).1
      | structural node => cases returned
  | branch text operation left right leftIH rightIH =>
      obtain ⟨op, first, middle, second, last, read, folded, leftReturned, rightReturned⟩ :=
        evaluate_branch_eq_int deferring returned
      rw [Resolver.evaluate,
        evaluateWith_branch (leftIH leftReturned) (rightIH rightReturned), apply_of_wordOp? read]
      exact Emitter.combine_of_fold _ folded

theorem evaluate_branch_eq_pure (deferring : resolver.emitter.IsDeferring) {text : String}
    {operation : Operation} {left right : BinaryTree} {value : Int}
    (evaluated : resolver.evaluate (branch text operation left right) = pure (.int value)) :
    ∃ op first second, operation.wordOp? = some op ∧ op.fold .wide first second = .ok value ∧
      resolver.evaluate left = pure (.int first) ∧
        resolver.evaluate right = pure (.int second) := by
  obtain ⟨op, first, middle, second, last, read, folded, leftReturned, rightReturned⟩ :=
    evaluate_branch_eq_int deferring (congrFun evaluated {})
  exact ⟨op, first, second, read, folded, evaluate_eq_pure deferring leftReturned,
    evaluate_eq_pure deferring rightReturned⟩

theorem evaluate_branch_of_fold {text : String} {operation : Operation} {op : WordOp}
    (read : operation.wordOp? = some op) {left right : BinaryTree} {first second value : Int}
    (onLeft : resolver.evaluate left = pure (.int first))
    (onRight : resolver.evaluate right = pure (.int second))
    (folded : op.fold .wide first second = .ok value) :
    resolver.evaluate (branch text operation left right) = pure (.int value) := by
  rw [Resolver.evaluate, evaluateWith_branch onLeft onRight, apply_of_wordOp? read]
  exact Emitter.combine_of_fold _ folded

/-- Without the index in it a tree has the value that it has anyway. -/
theorem evaluate_withIndex {tree : BinaryTree} (spelled : tree.Spells index)
    (free : ¬ tree.Mentions index) (value : Int) :
    (resolver.withIndex index value).evaluate tree = resolver.evaluate tree := by
  refine evaluateWith_congr rfl ?_ (fun _ => rfl)
  intro text node member
  have unread : text ≠ index.token := by
    intro token
    rw [(spelled text node member).mp token] at member
    exact free ⟨text, member⟩
  change Analysis.ofExcept (Resolver.resolve _ text (.terminal node)) =
    Analysis.ofExcept (resolver.resolve text (.terminal node))
  rw [Resolver.withIndex,
    Resolver.resolve_congr (Resolver.unknown?_given_of_ne unread _) rfl (.terminal node)]

theorem evaluate_index {text : Datum} (spelled : (leaf text (.terminal index.terminal)).Spells index)
    (value : Int) :
    (resolver.withIndex index value).evaluate (leaf text (.terminal index.terminal)) =
      pure (.int value) := by
  have token : text = index.token := (spelled text _ (List.mem_singleton.mpr rfl)).mpr rfl
  subst token
  exact evaluate_of_resolve
    (Resolver.resolve_of_unknown (Resolver.unknown?_given_self index (.int value)) _)

/-- The value of a tree as an affine function of an index, up to multiples of 2 ^ 64. -/
def HasSlope (resolver : Resolver) (index : Index) (tree : BinaryTree) (offset slope : Int) :
    Prop :=
  ∀ x : Int, ∃ value : Int,
    (resolver.withIndex index x).evaluate tree = pure (.int value) ∧
      value ≡ offset + slope * x [ZMOD 2 ^ 64]

theorem hasSlope_of_not_mentions {tree : BinaryTree} (spelled : tree.Spells index)
    (free : ¬ tree.Mentions index) {value : Int}
    (evaluated : resolver.evaluate tree = pure (.int value)) :
    HasSlope resolver index tree value 0 := by
  intro x
  refine ⟨value, (evaluate_withIndex spelled free x).trans evaluated, ?_⟩
  rw [Int.zero_mul, Int.add_zero]

theorem hasSlope_index {text : Datum}
    (spelled : (leaf text (.terminal index.terminal)).Spells index) :
    HasSlope resolver index (leaf text (.terminal index.terminal)) 0 1 := by
  intro x
  refine ⟨x, evaluate_index spelled x, ?_⟩
  rw [Int.one_mul, Int.zero_add]

variable {left right : BinaryTree} {offset slope otherOffset otherSlope : Int}

theorem HasSlope.add (onLeft : HasSlope resolver index left offset slope)
    (onRight : HasSlope resolver index right otherOffset otherSlope) (text : String)
    {operation : Operation} (read : operation.wordOp? = some .add) :
    HasSlope resolver index (branch text operation left right) (offset + otherOffset)
      (slope + otherSlope) := by
  intro x
  obtain ⟨first, leftEvaluated, leftModEq⟩ := onLeft x
  obtain ⟨second, rightEvaluated, rightModEq⟩ := onRight x
  refine ⟨_, evaluate_branch_of_fold read leftEvaluated rightEvaluated
    (WordOp.fold_add first second), ?_⟩
  calc wrapWide (first + second)
      ≡ first + second [ZMOD 2 ^ 64] := wrapWide_modEq _
    _ ≡ offset + slope * x + (otherOffset + otherSlope * x) [ZMOD 2 ^ 64] :=
        leftModEq.add rightModEq
    _ = offset + otherOffset + (slope + otherSlope) * x := by ring

theorem HasSlope.sub (onLeft : HasSlope resolver index left offset slope)
    (onRight : HasSlope resolver index right otherOffset otherSlope) (text : String) :
    HasSlope resolver index (branch text .sub left right) (offset - otherOffset)
      (slope - otherSlope) := by
  intro x
  obtain ⟨first, leftEvaluated, leftModEq⟩ := onLeft x
  obtain ⟨second, rightEvaluated, rightModEq⟩ := onRight x
  refine ⟨_, evaluate_branch_of_fold rfl leftEvaluated rightEvaluated
    (WordOp.fold_sub first second), ?_⟩
  calc wrapWide (first - second)
      ≡ first - second [ZMOD 2 ^ 64] := wrapWide_modEq _
    _ ≡ offset + slope * x - (otherOffset + otherSlope * x) [ZMOD 2 ^ 64] :=
        leftModEq.sub rightModEq
    _ = offset - otherOffset + (slope - otherSlope) * x := by ring

/-- A product with a factor free of the index scales the slope. -/
theorem HasSlope.mul_right (onLeft : HasSlope resolver index left offset slope)
    (onRight : HasSlope resolver index right otherOffset 0) (text : String) :
    HasSlope resolver index (branch text .mul left right) (offset * otherOffset)
      (otherOffset * slope) := by
  intro x
  obtain ⟨first, leftEvaluated, leftModEq⟩ := onLeft x
  obtain ⟨second, rightEvaluated, rightModEq⟩ := onRight x
  refine ⟨_, evaluate_branch_of_fold rfl leftEvaluated rightEvaluated
    (WordOp.fold_mul first second), ?_⟩
  calc wrapWide (first * second)
      ≡ first * second [ZMOD 2 ^ 64] := wrapWide_modEq _
    _ ≡ (offset + slope * x) * (otherOffset + 0 * x) [ZMOD 2 ^ 64] := leftModEq.mul rightModEq
    _ = offset * otherOffset + otherOffset * slope * x := by ring

theorem HasSlope.mul_left (onLeft : HasSlope resolver index left offset 0)
    (onRight : HasSlope resolver index right otherOffset otherSlope) (text : String) :
    HasSlope resolver index (branch text .mul left right) (offset * otherOffset)
      (offset * otherSlope) := by
  intro x
  obtain ⟨first, leftEvaluated, leftModEq⟩ := onLeft x
  obtain ⟨second, rightEvaluated, rightModEq⟩ := onRight x
  refine ⟨_, evaluate_branch_of_fold rfl leftEvaluated rightEvaluated
    (WordOp.fold_mul first second), ?_⟩
  calc wrapWide (first * second)
      ≡ first * second [ZMOD 2 ^ 64] := wrapWide_modEq _
    _ ≡ (offset + 0 * x) * (otherOffset + otherSlope * x) [ZMOD 2 ^ 64] :=
        leftModEq.mul rightModEq
    _ = offset * otherOffset + offset * otherSlope * x := by ring

theorem HasSlope.shl (onLeft : HasSlope resolver index left offset slope) {amount : Int}
    (inside : 0 ≤ amount ∧ amount < 64)
    (onRight : ∀ x, (resolver.withIndex index x).evaluate right = pure (.int amount))
    (text : String) :
    HasSlope resolver index (branch text .shl left right) (offset * 2 ^ amount.toNat)
      (2 ^ amount.toNat * slope) := by
  intro x
  obtain ⟨first, leftEvaluated, leftModEq⟩ := onLeft x
  refine ⟨_, evaluate_branch_of_fold rfl leftEvaluated (onRight x)
    (WordOp.fold_shl inside first), ?_⟩
  calc wrapWide (first * 2 ^ amount.toNat)
      ≡ first * 2 ^ amount.toNat [ZMOD 2 ^ 64] := wrapWide_modEq _
    _ ≡ (offset + slope * x) * 2 ^ amount.toNat [ZMOD 2 ^ 64] := leftModEq.mul_right _
    _ = offset * 2 ^ amount.toNat + 2 ^ amount.toNat * slope * x := by ring

end BinaryTree

namespace Stride

/-- A path on which every factor is a known integer, with their product up to
multiples of 2 ^ 64. It meets no divisor. -/
def Scales (resolver : Resolver) (path : List (Step BinaryTree)) (scale : Int) : Prop :=
  ∀ text, ∃ factors, gather (factorsOfStep text) path = .ok factors ∧
    gather (divisorsOfStep text) path = .ok [] ∧
      ∀ total : Int, ∃ product : Int,
        factors.foldlM (multiply (AddressTree.binaryStrides resolver)) (.int total) =
            pure (.int product) ∧
          product ≡ total * scale [ZMOD 2 ^ 64]

variable {resolver : Resolver} {path : List (Step BinaryTree)} {scale : Int}

theorem scales_nil (resolver : Resolver) : Scales resolver [] 1 := by
  intro text
  refine ⟨[], rfl, rfl, ?_⟩
  intro total
  refine ⟨total, rfl, ?_⟩
  rw [Int.mul_one]

/-- A step that contributes one known factor. -/
theorem Scales.cons (scaled : Scales resolver path scale) {step : Step BinaryTree}
    {factor : Factor BinaryTree} {value : Int}
    (found : ∀ text, factorsOfStep text step = .ok [factor])
    (undivided : isDivision step.symbol = false)
    (multiplied : ∀ total : Int, ∃ product : Int,
      multiply (AddressTree.binaryStrides resolver) (.int total) factor =
          pure (.int product) ∧
        product ≡ total * value [ZMOD 2 ^ 64]) :
    Scales resolver (step :: path) (value * scale) := by
  intro text
  obtain ⟨factors, gathered, divisors, product⟩ := scaled text
  refine ⟨factor :: factors, ?_, ?_, ?_⟩
  · rw [gather, found, gathered]
    rfl
  · rw [gather, divisors, divisorsOfStep, undivided]
    rfl
  · intro total
    obtain ⟨first, once, firstModEq⟩ := multiplied total
    obtain ⟨result, folded, modEq⟩ := product first
    refine ⟨result, ?_, ?_⟩
    · rw [List.foldlM_cons, once, pure_bind, folded]
    · calc result
          ≡ first * scale [ZMOD 2 ^ 64] := modEq
        _ ≡ total * value * scale [ZMOD 2 ^ 64] := firstModEq.mul_right _
        _ = total * (value * scale) := by ring

/-- A step that contributes nothing. -/
theorem Scales.skip (scaled : Scales resolver path scale) {step : Step BinaryTree}
    (found : ∀ text, factorsOfStep text step = .ok [])
    (undivided : isDivision step.symbol = false) : Scales resolver (step :: path) scale := by
  intro text
  obtain ⟨factors, gathered, divisors, product⟩ := scaled text
  refine ⟨factors, ?_, ?_, product⟩
  · rw [gather, found, gathered]
    rfl
  · rw [gather, divisors, divisorsOfStep, undivided]
    rfl

theorem multiply_factor {site : Site BinaryTree} {value : Int}
    (evaluated : resolver.evaluate site.tree = pure (.int value)) (total : Int) :
    ∃ product : Int,
      multiply (AddressTree.binaryStrides resolver) (.int total) ⟨site, false⟩ =
          pure (.int product) ∧
        product ≡ total * value [ZMOD 2 ^ 64] := by
  refine ⟨wrapWide (total * value), ?_, wrapWide_modEq _⟩
  have times := Emitter.combine_of_fold resolver.emitter (WordOp.fold_mul total value)
  change (resolver.evaluate site.tree >>= fun value => pure value >>= fun value =>
    resolver.emitter.combine .mul (.int total) value) = _
  rw [evaluated, pure_bind, pure_bind, times]

theorem multiply_shift {site : Site BinaryTree} {amount : Int}
    (evaluated : resolver.evaluate site.tree = pure (.int amount))
    (inside : 0 ≤ amount ∧ amount < 64) (total : Int) :
    ∃ product : Int,
      multiply (AddressTree.binaryStrides resolver) (.int total) ⟨site, true⟩ =
          pure (.int product) ∧
        product ≡ total * 2 ^ amount.toNat [ZMOD 2 ^ 64] := by
  have power := Emitter.combine_of_fold resolver.emitter (WordOp.fold_shl inside 1)
  have times := Emitter.combine_of_fold resolver.emitter
    (WordOp.fold_mul total (wrapWide (1 * 2 ^ amount.toNat)))
  refine ⟨wrapWide (total * wrapWide (1 * 2 ^ amount.toNat)), ?_, ?_⟩
  · change (resolver.evaluate site.tree >>= fun value =>
      resolver.emitter.combine .shl (.int 1) value >>= fun value =>
        resolver.emitter.combine .mul (.int total) value) = _
    rw [evaluated, pure_bind, power, pure_bind, times]
  · calc wrapWide (total * wrapWide (1 * 2 ^ amount.toNat))
        ≡ total * wrapWide (1 * 2 ^ amount.toNat) [ZMOD 2 ^ 64] := wrapWide_modEq _
      _ ≡ total * (1 * 2 ^ amount.toNat) [ZMOD 2 ^ 64] := (wrapWide_modEq _).mul_left _
      _ = total * 2 ^ amount.toNat := by rw [Int.one_mul]

end Stride

namespace BinaryTree

/-- The step from an operand of a branch to the branch itself. -/
def stepFrom (first : Nat) (text : String) (operation : Operation) (left right : BinaryTree)
    (child : Int) : Step BinaryTree where
  index := first + left.size + right.size
  text := .text text
  symbol := .operation operation none
  operands := [⟨first + left.size - 1, left⟩, ⟨first + left.size + right.size - 1, right⟩]
  child := child

section Steps

variable {first : Nat} {text : String} {operation : Operation} {left right : BinaryTree}

theorem placesFrom_branch (path : List (Step BinaryTree)) :
    (branch text operation left right).placesFrom first path =
      { site := ⟨first + left.size + right.size, branch text operation left right⟩
        text := .text text
        symbol := .operation operation none
        path := path } ::
        (left.placesFrom first
            (stepFrom first text operation left right (((first + left.size : Nat) : Int) - 1) ::
              path) ++
          right.placesFrom (first + left.size)
            (stepFrom first text operation left right
              (((first + left.size + right.size : Nat) : Int) - 1) :: path)) := rfl

theorem stepFrom_left :
    (stepFrom first text operation left right (((first + left.size : Nat) : Int) - 1)).siblings =
        [⟨first + left.size + right.size - 1, right⟩] ∧
      (stepFrom first text operation left right
        (((first + left.size : Nat) : Int) - 1)).comesFrom ⟨first + left.size - 1, left⟩ = true := by
  have leftPos := left.size_pos
  have rightPos := right.size_pos
  have here : (((first + left.size - 1 : Nat) : Int) == ((first + left.size : Nat) : Int) - 1) =
      true := by
    rw [beq_iff_eq]
    omega
  have there : (((first + left.size + right.size - 1 : Nat) : Int) ==
      ((first + left.size : Nat) : Int) - 1) = false := by
    rw [beq_eq_false_iff_ne]
    omega
  constructor
  · simp only [Step.siblings, stepFrom, List.filter, bne, here, there, Bool.not_true,
      Bool.not_false]
  · exact here

theorem stepFrom_right :
    (stepFrom first text operation left right
      (((first + left.size + right.size : Nat) : Int) - 1)).siblings =
        [⟨first + left.size - 1, left⟩] := by
  have leftPos := left.size_pos
  have rightPos := right.size_pos
  have here : (((first + left.size + right.size - 1 : Nat) : Int) ==
      ((first + left.size + right.size : Nat) : Int) - 1) = true := by
    rw [beq_iff_eq]
    omega
  have there : (((first + left.size - 1 : Nat) : Int) ==
      ((first + left.size + right.size : Nat) : Int) - 1) = false := by
    rw [beq_eq_false_iff_ne]
    omega
  simp only [Step.siblings, stepFrom, List.filter, bne, here, there, Bool.not_true,
    Bool.not_false]

end Steps

end BinaryTree

namespace Stride

section Steps

variable {resolver : Resolver} {path : List (Step BinaryTree)} {scale : Int} {first : Nat}
  {text : String} {left right : BinaryTree}

theorem Scales.additive (scaled : Scales resolver path scale) {operation : Operation}
    (additive : operation = .add ∨ operation = .or) (child : Int) :
    Scales resolver (BinaryTree.stepFrom first text operation left right child :: path) scale := by
  rcases additive with rfl | rfl
  · exact scaled.skip (fun _ => rfl) rfl
  · exact scaled.skip (fun _ => rfl) rfl

theorem Scales.difference (scaled : Scales resolver path scale) (child : Int) :
    Scales resolver (BinaryTree.stepFrom first text .sub left right child :: path) scale :=
  scaled.skip (fun _ => rfl) rfl

theorem Scales.times_right (scaled : Scales resolver path scale) {value : Int}
    (evaluated : resolver.evaluate right = pure (.int value)) :
    Scales resolver
      (BinaryTree.stepFrom first text .mul left right (((first + left.size : Nat) : Int) - 1) ::
        path) (value * scale) := by
  have factor (name : String) : factorsOfStep name
      (BinaryTree.stepFrom first text .mul left right (((first + left.size : Nat) : Int) - 1)) =
        .ok [⟨⟨first + left.size + right.size - 1, right⟩, false⟩] := by
    change Except.ok ((BinaryTree.stepFrom ..).siblings.map _) = _
    rw [BinaryTree.stepFrom_left.1]
    rfl
  exact scaled.cons factor rfl (multiply_factor evaluated)

theorem Scales.times_left (scaled : Scales resolver path scale) {value : Int}
    (evaluated : resolver.evaluate left = pure (.int value)) :
    Scales resolver
      (BinaryTree.stepFrom first text .mul left right
        (((first + left.size + right.size : Nat) : Int) - 1) :: path) (value * scale) := by
  have factor (name : String) : factorsOfStep name
      (BinaryTree.stepFrom first text .mul left right
        (((first + left.size + right.size : Nat) : Int) - 1)) =
        .ok [⟨⟨first + left.size - 1, left⟩, false⟩] := by
    change Except.ok ((BinaryTree.stepFrom ..).siblings.map _) = _
    rw [BinaryTree.stepFrom_right]
    rfl
  exact scaled.cons factor rfl (multiply_factor evaluated)

theorem Scales.times_power (scaled : Scales resolver path scale) {amount : Int}
    (evaluated : resolver.evaluate right = pure (.int amount))
    (inside : 0 ≤ amount ∧ amount < 64) :
    Scales resolver
      (BinaryTree.stepFrom first text .shl left right (((first + left.size : Nat) : Int) - 1) ::
        path) (2 ^ amount.toNat * scale) := by
  have factor (name : String) : factorsOfStep name
      (BinaryTree.stepFrom first text .shl left right (((first + left.size : Nat) : Int) - 1)) =
        .ok [⟨⟨first + left.size + right.size - 1, right⟩, true⟩] := by
    change (if (BinaryTree.stepFrom ..).comesFrom ⟨first + left.size - 1, left⟩ = true
      then _ else _) = _
    rw [if_pos BinaryTree.stepFrom_left.2]
    rfl
  exact scaled.cons factor rfl (multiply_shift evaluated inside)

end Steps

variable {resolver : Resolver} {index : Index}

/-- Adds the stride of one place. -/
def addStride (resolver : Resolver) (total : Value) (place : Place BinaryTree) :
    Analysis Value := do
  let value ← coefficient (AddressTree.binaryStrides resolver) place
  resolver.emitter.combine .add total value

/-- Places whose strides along an index are known integers, with their sum up to
multiples of 2 ^ 64. -/
def Accumulates (resolver : Resolver) (index : Index) (places : List (Place BinaryTree))
    (amount : Int) : Prop :=
  ∀ total : Int, ∃ result : Int,
    (placesOf places index.kind .null).foldlM (addStride resolver) (.int total) =
        pure (.int result) ∧
      result ≡ total + amount [ZMOD 2 ^ 64]

theorem accumulates_of_none {places : List (Place BinaryTree)}
    (none : placesOf places index.kind .null = []) : Accumulates resolver index places 0 := by
  intro total
  refine ⟨total, ?_, ?_⟩
  · rw [none]
    rfl
  · rw [Int.add_zero]

theorem Accumulates.append {first second : List (Place BinaryTree)} {amount other : Int}
    (onFirst : Accumulates resolver index first amount)
    (onSecond : Accumulates resolver index second other) :
    Accumulates resolver index (first ++ second) (amount + other) := by
  intro total
  obtain ⟨middle, firstFolded, firstModEq⟩ := onFirst total
  obtain ⟨result, secondFolded, secondModEq⟩ := onSecond middle
  refine ⟨result, ?_, ?_⟩
  · rw [placesOf, List.filter_append, List.foldlM_append]
    change (placesOf first index.kind .null).foldlM (addStride resolver) (.int total) >>= _ = _
    rw [firstFolded, pure_bind]
    exact secondFolded
  · calc result
        ≡ middle + other [ZMOD 2 ^ 64] := secondModEq
      _ ≡ total + amount + other [ZMOD 2 ^ 64] := firstModEq.add_right _
      _ = total + (amount + other) := by ring

theorem Accumulates.cons_operation {places : List (Place BinaryTree)} {amount : Int}
    (accumulated : Accumulates resolver index places amount) {place : Place BinaryTree}
    {operation : Operation} (symbol : place.symbol = .operation operation none) :
    Accumulates resolver index (place :: places) amount := by
  have other : (place.kind == index.kind) = false := by
    rw [Place.kind, symbol]
    cases index <;> rfl
  intro total
  obtain ⟨result, folded, modEq⟩ := accumulated total
  refine ⟨result, ?_, modEq⟩
  rw [placesOf, List.filter_cons_of_neg]
  · exact folded
  · rw [other]
    simp

theorem accumulates_index {place : Place BinaryTree} {scale : Int}
    (symbol : place.symbol = .terminal index.terminal)
    (scaled : Scales resolver place.path scale) :
    Accumulates resolver index [place] scale := by
  have own : (place.kind == index.kind) = true := by
    rw [Place.kind, symbol, beq_iff_eq]
    rfl
  intro total
  obtain ⟨factors, gathered, undivided, product⟩ := scaled place.text.shown
  obtain ⟨stride, multiplied, modEq⟩ := product 1
  refine ⟨wrapWide (total + stride), ?_, ?_⟩
  · have counted : placesOf [place] index.kind .null = [place] := by
      rw [placesOf, List.filter_cons_of_pos]
      · rfl
      · rw [own]
        rfl
    have coefficient_eq : coefficient (AddressTree.binaryStrides resolver) place =
        pure (.int stride) := by
      rw [coefficient, Stride.factors, Stride.divisors, gathered, undivided]
      change (factors.foldlM (multiply (AddressTree.binaryStrides resolver)) (.int 1) >>=
        fun product => pure product) = _
      rw [multiplied]
      rfl
    rw [counted, List.foldlM_cons, addStride, coefficient_eq, pure_bind,
      Emitter.combine_of_fold _ (WordOp.fold_add total stride), pure_bind]
    rfl
  · calc wrapWide (total + stride)
        ≡ total + stride [ZMOD 2 ^ 64] := wrapWide_modEq _
      _ ≡ total + 1 * scale [ZMOD 2 ^ 64] := modEq.add_left _
      _ = total + scale := by rw [Int.one_mul]

theorem accumulates_of_not_mentions {tree : BinaryTree} (free : ¬ tree.Mentions index)
    (first : Nat) (path : List (Step BinaryTree)) :
    Accumulates resolver index (tree.placesFrom first path) 0 := by
  induction tree generalizing first path with
  | leaf text symbol =>
      apply accumulates_of_none
      refine List.filter_eq_nil_iff.mpr ?_
      intro place member counted
      rw [List.mem_singleton.mp member, Bool.and_eq_true, beq_iff_eq] at counted
      cases symbol with
      | terminal node =>
          have same : node = index.terminal := Terminal.eq_of_kind_eq counted.1
          exact free ⟨text, List.mem_singleton.mpr (by rw [same])⟩
      | structural node => cases index <;> cases counted.1
  | branch text operation left right leftIH rightIH =>
      rw [BinaryTree.mentions_branch, not_or] at free
      rw [BinaryTree.placesFrom_branch]
      exact ((leftIH free.1 _ _).append (rightIH free.2 _ _)).cons_operation rfl

end Stride

namespace BinaryTree

variable {resolver : Resolver} {index : Index}

/-- The strides along an index sum up to the slope of the address, times the factors
above the tree. -/
def StrideIsSlope (resolver : Resolver) (index : Index) (tree : BinaryTree) : Prop :=
  ∃ offset slope, HasSlope resolver index tree offset slope ∧
    ∀ first path scale, Stride.Scales resolver path scale →
      Stride.Accumulates resolver index (tree.placesFrom first path) (scale * slope)

theorem strideIsSlope_of_not_mentions {tree : BinaryTree} (spelled : tree.Spells index)
    (free : ¬ tree.Mentions index) {value : Int}
    (evaluated : resolver.evaluate tree = pure (.int value)) :
    StrideIsSlope resolver index tree := by
  refine ⟨value, 0, hasSlope_of_not_mentions spelled free evaluated, ?_⟩
  intro first path scale scaled
  rw [Int.mul_zero]
  exact Stride.accumulates_of_not_mentions free first path

theorem strideIsSlope_index {text : Datum}
    (spelled : (leaf text (.terminal index.terminal)).Spells index) :
    StrideIsSlope resolver index (leaf text (.terminal index.terminal)) := by
  refine ⟨0, 1, hasSlope_index spelled, ?_⟩
  intro first path scale scaled
  rw [Int.mul_one]
  exact Stride.accumulates_index rfl scaled

variable {left right : BinaryTree}

theorem StrideIsSlope.add (onLeft : StrideIsSlope resolver index left)
    (onRight : StrideIsSlope resolver index right) (text : String) {operation : Operation}
    (additive : operation = .add ∨ operation = .or) :
    StrideIsSlope resolver index (branch text operation left right) := by
  obtain ⟨offset, slope, leftSlope, leftStrides⟩ := onLeft
  obtain ⟨otherOffset, otherSlope, rightSlope, rightStrides⟩ := onRight
  have read : operation.wordOp? = some .add := by
    rcases additive with rfl | rfl <;> rfl
  refine ⟨_, _, leftSlope.add rightSlope text read, ?_⟩
  intro first path scale scaled
  rw [placesFrom_branch, Int.mul_add]
  exact ((leftStrides _ _ _ (scaled.additive additive _)).append
    (rightStrides _ _ _ (scaled.additive additive _))).cons_operation rfl

theorem StrideIsSlope.sub (onLeft : StrideIsSlope resolver index left)
    (spelled : right.Spells index) (free : ¬ right.Mentions index) {value : Int}
    (evaluated : resolver.evaluate right = pure (.int value)) (text : String) :
    StrideIsSlope resolver index (branch text .sub left right) := by
  obtain ⟨offset, slope, leftSlope, leftStrides⟩ := onLeft
  have rightSlope := hasSlope_of_not_mentions spelled free evaluated
  refine ⟨_, _, leftSlope.sub rightSlope text, ?_⟩
  intro first path scale scaled
  rw [placesFrom_branch, Int.sub_zero, ← Int.add_zero (scale * slope)]
  exact ((leftStrides _ _ _ (scaled.difference _)).append
    (Stride.accumulates_of_not_mentions free _ _)).cons_operation rfl

theorem StrideIsSlope.mul_right (onLeft : StrideIsSlope resolver index left)
    (spelled : right.Spells index) (free : ¬ right.Mentions index) {value : Int}
    (evaluated : resolver.evaluate right = pure (.int value)) (text : String) :
    StrideIsSlope resolver index (branch text .mul left right) := by
  obtain ⟨offset, slope, leftSlope, leftStrides⟩ := onLeft
  have rightSlope := hasSlope_of_not_mentions spelled free evaluated
  refine ⟨_, _, leftSlope.mul_right rightSlope text, ?_⟩
  intro first path scale scaled
  rw [placesFrom_branch, ← Int.add_zero (scale * (value * slope)), ← Int.mul_assoc,
    Int.mul_comm scale value]
  exact ((leftStrides _ _ _ (scaled.times_right evaluated)).append
    (Stride.accumulates_of_not_mentions free _ _)).cons_operation rfl

theorem StrideIsSlope.mul_left (onRight : StrideIsSlope resolver index right)
    (spelled : left.Spells index) (free : ¬ left.Mentions index) {value : Int}
    (evaluated : resolver.evaluate left = pure (.int value)) (text : String) :
    StrideIsSlope resolver index (branch text .mul left right) := by
  obtain ⟨offset, slope, rightSlope, rightStrides⟩ := onRight
  have leftSlope := hasSlope_of_not_mentions spelled free evaluated
  refine ⟨_, _, leftSlope.mul_left rightSlope text, ?_⟩
  intro first path scale scaled
  rw [placesFrom_branch, ← Int.zero_add (scale * (value * slope)), ← Int.mul_assoc,
    Int.mul_comm scale value]
  exact ((Stride.accumulates_of_not_mentions free _ _).append
    (rightStrides _ _ _ (scaled.times_left evaluated))).cons_operation rfl

theorem StrideIsSlope.shl (onLeft : StrideIsSlope resolver index left)
    (spelled : right.Spells index) (free : ¬ right.Mentions index) {amount : Int}
    (evaluated : resolver.evaluate right = pure (.int amount))
    (inside : 0 ≤ amount ∧ amount < 64) (text : String) :
    StrideIsSlope resolver index (branch text .shl left right) := by
  obtain ⟨offset, slope, leftSlope, leftStrides⟩ := onLeft
  have rightEvaluated (x : Int) :
      (resolver.withIndex index x).evaluate right = pure (.int amount) :=
    (evaluate_withIndex spelled free x).trans evaluated
  refine ⟨_, _, leftSlope.shl inside rightEvaluated text, ?_⟩
  intro first path scale scaled
  rw [placesFrom_branch, ← Int.add_zero (scale * (2 ^ amount.toNat * slope)), ← Int.mul_assoc,
    Int.mul_comm scale (2 ^ amount.toNat)]
  exact ((leftStrides _ _ _ (scaled.times_power evaluated inside)).append
    (Stride.accumulates_of_not_mentions free _ _)).cons_operation rfl

/-- Where all nodes above an index hand on what it does, the stride is the slope. -/
theorem strideIsSlope_of_isAffineIn (deferring : resolver.emitter.IsDeferring)
    {tree : BinaryTree} (spelled : tree.Spells index) (affine : tree.IsAffineIn index)
    {x value : Int} (evaluated : (resolver.withIndex index x).evaluate tree = pure (.int value)) :
    StrideIsSlope resolver index tree := by
  induction tree generalizing value with
  | leaf text symbol =>
      by_cases mentioned : (leaf text symbol).Mentions index
      · obtain ⟨other, member⟩ := mentioned
        cases symbol with
        | terminal node =>
            cases List.mem_singleton.mp member
            exact strideIsSlope_index spelled
        | structural node => cases member
      · rw [evaluate_withIndex spelled mentioned] at evaluated
        exact strideIsSlope_of_not_mentions spelled mentioned evaluated
  | branch text operation left right leftIH rightIH =>
      by_cases mentioned : (branch text operation left right).Mentions index
      · obtain ⟨passesLeft, passesRight, leftAffine, rightAffine⟩ := affine
        obtain ⟨leftSpelled, rightSpelled⟩ := spells_branch.mp spelled
        have stillDeferring : (resolver.withIndex index x).emitter.IsDeferring := deferring
        obtain ⟨op, first, second, read, folded, leftEvaluated, rightEvaluated⟩ :=
          evaluate_branch_eq_pure stillDeferring evaluated
        have onLeft := leftIH leftSpelled leftAffine leftEvaluated
        have onRight := rightIH rightSpelled rightAffine rightEvaluated
        rw [mentions_branch] at mentioned
        cases operation with
        | add => exact onLeft.add onRight text (.inl rfl)
        | or => exact onLeft.add onRight text (.inr rfl)
        | sub =>
            have free : ¬ right.Mentions index := fun inRight => by cases passesRight inRight
            rw [evaluate_withIndex rightSpelled free] at rightEvaluated
            exact onLeft.sub rightSpelled free rightEvaluated text
        | mul =>
            rcases mentioned with inLeft | inRight
            · have free : ¬ right.Mentions index := passesLeft inLeft
              rw [evaluate_withIndex rightSpelled free] at rightEvaluated
              exact onLeft.mul_right rightSpelled free rightEvaluated text
            · have free : ¬ left.Mentions index := passesRight inRight
              rw [evaluate_withIndex leftSpelled free] at leftEvaluated
              exact onRight.mul_left leftSpelled free leftEvaluated text
        | shl =>
            have free : ¬ right.Mentions index := by
              intro inRight
              cases (passesRight inRight).1
            cases read
            rw [evaluate_withIndex rightSpelled free] at rightEvaluated
            exact onLeft.shl rightSpelled free rightEvaluated (WordOp.accepts_of_fold folded) text
        | _ =>
            rcases mentioned with inLeft | inRight
            · cases passesLeft inLeft
            · cases passesRight inRight
      · rw [evaluate_withIndex spelled mentioned] at evaluated
        exact strideIsSlope_of_not_mentions spelled mentioned evaluated

end BinaryTree

variable {resolver : Resolver} {index : Index} {tree : BinaryTree}

/-- If an address that is affine in an index has an integer value for one value of the
index, it has one for every value, and its stride along the index is its slope. -/
theorem strideAlong_of_isAffineIn (deferring : resolver.emitter.IsDeferring)
    (spelled : tree.Spells index) (affine : tree.IsAffineIn index) {x value : Int}
    (evaluated : (resolver.withIndex index x).evaluate tree = pure (.int value)) :
    ∃ stride : Int,
      AddressTree.strideAlong resolver index.kind .null (.binary tree) = pure (.int stride) ∧
        ∀ y, ∃ other : Int, (resolver.withIndex index y).evaluate tree = pure (.int other) ∧
          other - value ≡ stride * (y - x) [ZMOD 2 ^ 64] := by
  obtain ⟨offset, slope, hasSlope, strides⟩ :=
    BinaryTree.strideIsSlope_of_isAffineIn deferring spelled affine evaluated
  obtain ⟨stride, accumulated, strideModEq⟩ := strides 0 [] 1 (Stride.scales_nil resolver) 0
  refine ⟨stride, accumulated, ?_⟩
  intro y
  obtain ⟨other, otherEvaluated, otherModEq⟩ := hasSlope y
  obtain ⟨same, sameEvaluated, valueModEq⟩ := hasSlope x
  cases Analysis.pure_int_injective (evaluated.symm.trans sameEvaluated)
  refine ⟨other, otherEvaluated, ?_⟩
  calc other - value
      ≡ offset + slope * y - (offset + slope * x) [ZMOD 2 ^ 64] := otherModEq.sub valueModEq
    _ = (0 + 1 * slope) * (y - x) := by ring
    _ ≡ stride * (y - x) [ZMOD 2 ^ 64] := strideModEq.symm.mul_right _

/-- The stride along an index is the finite difference of the address: what two values of
the index make of the address differs by the stride times their distance. -/
theorem sub_modEq_stride_mul (deferring : resolver.emitter.IsDeferring)
    (spelled : tree.Spells index) (affine : tree.IsAffineIn index)
    {stride x y atX atY : Int} {before after beforeX afterX beforeY afterY : Ledger}
    (strided : (AddressTree.strideAlong resolver index.kind .null (.binary tree)).outcome before =
      (.ok (.int stride), after))
    (evaluatedX : ((resolver.given [(index.token, .int x)]).evaluate tree).outcome beforeX =
      (.ok (.int atX), afterX))
    (evaluatedY : ((resolver.given [(index.token, .int y)]).evaluate tree).outcome beforeY =
      (.ok (.int atY), afterY)) :
    atX - atY ≡ stride * (x - y) [ZMOD 2 ^ 64] := by
  have deferringAt (value : Int) : (resolver.withIndex index value).emitter.IsDeferring :=
    deferring
  have pureX := BinaryTree.evaluate_eq_pure (deferringAt x) evaluatedX
  have pureY := BinaryTree.evaluate_eq_pure (deferringAt y) evaluatedY
  obtain ⟨slope, accumulated, differences⟩ :=
    strideAlong_of_isAffineIn deferring spelled affine pureY
  obtain ⟨other, evaluated, modEq⟩ := differences x
  cases Analysis.pure_int_injective (evaluated.symm.trans pureX)
  rw [accumulated] at strided
  cases strided
  exact modEq

/-- The address of block 2 ^ 62 wraps to that of block zero. -/
theorem sub_modEq_stride_mul_rowMajor :
    (AddressTree.strideAlong ((Resolver.sample (.constant 128)).withIndex (.thread .x) 3)
        (Index.block .x).kind .null (.binary BinaryTree.rowMajor)).outcome {} =
          (.ok (.int 128), {}) ∧
      (12 : Int) - 12 ≡ 128 * (2 ^ 62 - 0) [ZMOD 2 ^ 64] := by
  let resolver := (Resolver.sample (.constant 128)).withIndex (.thread .x) 3
  have strided : (AddressTree.strideAlong resolver (Index.block .x).kind .null
      (.binary BinaryTree.rowMajor)).outcome {} = (.ok (.int 128), {}) := by cbv
  have far : ((resolver.given [((Index.block .x).token, .int (2 ^ 62))]).evaluate
      BinaryTree.rowMajor).outcome {} = (.ok (.int 12), {}) := by cbv
  have near : ((resolver.given [((Index.block .x).token, .int 0)]).evaluate
      BinaryTree.rowMajor).outcome {} = (.ok (.int 12), {}) := by cbv
  exact ⟨strided, sub_modEq_stride_mul Emitter.isDeferring_symbolic
    (BinaryTree.spells_rowMajor _) (by decide) strided far near⟩

end KernelFootprint
