import KernelFootprint.Proofs.BitVectors
import KernelFootprint.Proofs.Sensitivity

/-!
# Evaluation modulo the width

The low bits of sums, differences, products and conjunctions depend on the low bits of the
operands only, and so do those of a number shifted by a fixed amount. Where a tree has no
other operations, wrapping the results on the way up changes them by multiples of 2 ^ 64
only, and the value of the tree is the exact one wrapped once. A tree without an operation
is not wrapped at all.
-/

namespace KernelFootprint

theorem ofInt_eq_iff_modEq (bits : Nat) {first second : Int} :
    BitVec.ofInt bits first = BitVec.ofInt bits second ↔ first ≡ second [ZMOD 2 ^ bits] := by
  have positive : (0 : Int) < 2 ^ bits := Int.pow_pos (by decide)
  have low := Int.emod_nonneg first positive.ne'
  have otherLow := Int.emod_nonneg second positive.ne'
  constructor
  · intro same
    have residues := congrArg BitVec.toNat same
    rw [BitVec.toNat_ofInt, BitVec.toNat_ofInt, Int.natCast_pow] at residues
    change first % 2 ^ bits = second % 2 ^ bits
    change (first % 2 ^ bits).toNat = (second % 2 ^ bits).toNat at residues
    omega
  · intro congruent
    apply BitVec.eq_of_toNat_eq
    rw [BitVec.toNat_ofInt, BitVec.toNat_ofInt, Int.natCast_pow]
    exact congrArg Int.toNat congruent

/-- The low bits of a conjunction are the conjunctions of the low bits. -/
theorem bitAnd_modEq {bits : Nat} {first second other another : Int}
    (onFirst : first ≡ other [ZMOD 2 ^ bits]) (onSecond : second ≡ another [ZMOD 2 ^ bits]) :
    bitAnd first second ≡ bitAnd other another [ZMOD 2 ^ bits] := by
  rw [← ofInt_eq_iff_modEq] at onFirst onSecond ⊢
  rw [ofInt_bitAnd, ofInt_bitAnd, onFirst, onSecond]

namespace WordOp

/-- The operations whose low bits depend on the low bits of both operands only. -/
def isModular : WordOp → Bool
  | .add | .sub | .mul | .and => true
  | _ => false

variable {op : WordOp} {first second other another : Int}

theorem fold_of_isModular (modular : op.isModular = true) (first second : Int) :
    op.fold .wide first second = .ok (wrapWide (op.unbounded first second)) := by
  cases op with
  | add | sub | mul | and => rfl
  | _ => cases modular

theorem unbounded_modEq (modular : op.isModular = true)
    (onFirst : first ≡ other [ZMOD 2 ^ 64]) (onSecond : second ≡ another [ZMOD 2 ^ 64]) :
    op.unbounded first second ≡ op.unbounded other another [ZMOD 2 ^ 64] := by
  cases op with
  | add => exact onFirst.add onSecond
  | sub => exact onFirst.sub onSecond
  | mul => exact onFirst.mul onSecond
  | and => exact bitAnd_modEq onFirst onSecond
  | _ => cases modular

end WordOp

namespace BinaryTree

/-- Trees of modular operations and of shifts by the value of a leaf. -/
inductive IsModular (worth : Datum → Terminal → Int) : BinaryTree → Prop
  | leaf (text : Datum) (node : Terminal) : IsModular worth (.leaf text (.terminal node))
  | branch {operation : Operation} {op : WordOp} {left right : BinaryTree}
      (read : operation.wordOp? = some op) (modular : op.isModular = true) :
      IsModular worth left → IsModular worth right → (text : String) →
      IsModular worth (.branch text operation left right)
  | shift {left : BinaryTree} {amount : Datum} {node : Terminal} :
      IsModular worth left → 0 ≤ worth amount node → worth amount node < 64 → (text : String) →
      IsModular worth (.branch text .shl left (.leaf amount (.terminal node)))

/-- The terminals of a tree resolve to the given integers. -/
def IsWorth (resolver : Resolver) (worth : Datum → Terminal → Int) (tree : BinaryTree) : Prop :=
  ∀ text node, (text, node) ∈ tree.terminals →
    resolver.resolve text (.terminal node) = .ok (.int (worth text node))

variable {resolver : Resolver} {worth : Datum → Terminal → Int}

theorem IsWorth.left {text : String} {operation : Operation} {left right : BinaryTree}
    (resolved : (branch text operation left right).IsWorth resolver worth) :
    left.IsWorth resolver worth :=
  fun text node member => resolved text node (List.mem_append_left _ member)

theorem IsWorth.right {text : String} {operation : Operation} {left right : BinaryTree}
    (resolved : (branch text operation left right).IsWorth resolver worth) :
    right.IsWorth resolver worth :=
  fun text node member => resolved text node (List.mem_append_right _ member)

theorem IsWorth.evaluate_leaf {text : Datum} {node : Terminal}
    (resolved : (leaf text (.terminal node)).IsWorth resolver worth) :
    resolver.evaluate (leaf text (.terminal node)) = pure (.int (worth text node)) :=
  evaluate_of_resolve (resolved text node (List.mem_singleton_self _))

/-- Wrapping is harmless on the way up: a branch of operands with the residues of their exact
values is worth its own exact value, wrapped. -/
theorem IsModular.exists_value {tree : BinaryTree} (modular : tree.IsModular worth)
    (resolved : tree.IsWorth resolver worth) :
    ∃ value : Int, resolver.evaluate tree = pure (.int value) ∧
      value ≡ tree.exact Operation.wordOp? worth [ZMOD 2 ^ 64] ∧
        (tree.operations ≠ [] → value = wrapWide (tree.exact Operation.wordOp? worth)) := by
  -- Only the last operation wraps what the theorem is about; the operands are known up to
  -- their residues, as a leaf may be of any size.
  induction modular with
  | leaf text node =>
      exact ⟨worth text node, resolved.evaluate_leaf, rfl, fun branched => absurd rfl branched⟩
  | branch read modular _ _ text leftIH rightIH =>
      obtain ⟨first, onLeft, leftResidue, _⟩ := leftIH resolved.left
      obtain ⟨second, onRight, rightResidue, _⟩ := rightIH resolved.right
      have residues := WordOp.unbounded_modEq modular leftResidue rightResidue
      have evaluated := @evaluate_branch_of_fold resolver text _ _ read _ _ _ _ _ onLeft onRight
        (WordOp.fold_of_isModular modular first second)
      rw [← exact_branch read worth text] at residues
      rw [wrapWide_congr residues] at evaluated
      exact ⟨_, evaluated, wrapWide_modEq _, fun _ => rfl⟩
  | @shift left amount node _ low high text leftIH =>
      obtain ⟨first, onLeft, residue, _⟩ := leftIH resolved.left
      have evaluated := @evaluate_branch_of_fold resolver text .shl _ rfl _ _ _ _ _ onLeft
        resolved.right.evaluate_leaf (WordOp.fold_shl ⟨low, high⟩ first)
      rw [wrapWide_congr (residue.mul_right (2 ^ (worth amount node).toNat))] at evaluated
      exact ⟨_, evaluated, wrapWide_modEq _, fun _ => rfl⟩

/-- A tree of modular operations and shifts by leaves is worth its exact value, wrapped
once, whatever the size of its leaves. -/
theorem evaluate_of_isModular {text : String} {operation : Operation} {left right : BinaryTree}
    (modular : (branch text operation left right).IsModular worth)
    (resolved : (branch text operation left right).IsWorth resolver worth) :
    resolver.evaluate (branch text operation left right) = pure (.int
      (wrapWide ((branch text operation left right).exact Operation.wordOp? worth))) := by
  obtain ⟨value, evaluated, _, wrapped⟩ := modular.exists_value resolved
  rw [wrapped (List.cons_ne_nil _ _)] at evaluated
  exact evaluated

def literal : Datum → Terminal → Int
  | _, .constant value => value
  | _, _ => 0

/-- A product beyond 64 bits, masked by a negative number, shifted and added to. -/
def overflowing : BinaryTree :=
  .branch "OR" .or
    (.branch "SHL" .shl
      (.branch "AND" .and
        (.branch "MUL" .mul (constant (2 ^ 64 + 5)) (constant 3))
        (constant (-7)))
      (constant 62))
    (constant 5)

/-- All that remains of the product is 9, of which a shift by 62 leaves the lowest bit. -/
theorem evaluate_overflowing :
    (Resolver.sample (.constant 0)).evaluate overflowing = pure (.int (2 ^ 62 + 5)) := by
  have modular : overflowing.IsModular literal :=
    .branch rfl rfl
      (.shift (.branch rfl rfl (.branch rfl rfl (.leaf _ _) (.leaf _ _) _) (.leaf _ _) _)
        (by decide) (by decide) _)
      (.leaf _ _) _
  have resolved : overflowing.IsWorth (Resolver.sample (.constant 0)) literal := by
    intro text node member
    simp only [overflowing, constant, terminals, List.cons_append, List.nil_append,
      List.mem_cons, List.not_mem_nil, or_false, Prod.mk.injEq] at member
    obtain ⟨rfl, rfl⟩ | ⟨rfl, rfl⟩ | ⟨rfl, rfl⟩ | ⟨rfl, rfl⟩ | ⟨rfl, rfl⟩ := member <;> rfl
  have exactly : wrapWide (overflowing.exact Operation.wordOp? literal) = 2 ^ 62 + 5 := by decide
  rw [← exactly]
  exact evaluate_of_isModular modular resolved

end BinaryTree

end KernelFootprint
