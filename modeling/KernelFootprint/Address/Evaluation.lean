import KernelFootprint.Launch.Resolution
import KernelFootprint.Tree.Binary

/-!
# Evaluation of binary trees

A binary tree is evaluated bottom up, left operands first. What terminals and
phi merges are worth is up to a valuation; all other operations are combined
through the emitter. Structural leaves are irreducible: they have no value and
fail where one is needed. A disjunction packs an offset into an aligned
address and counts as addition.
-/

namespace KernelFootprint

/-- The word operation that an operation computes, if it computes integers. -/
def Operation.wordOp? : Operation → Option WordOp
  | .add => some .add
  | .or => some .add
  | .sub => some .sub
  | .mul => some .mul
  | .and => some .and
  | .shl => some .shl
  | .lshr => some .lshr
  | .div => some .udiv
  | .udiv => some .udiv
  | .sdiv => some .sdiv
  | .srem => some .srem
  | _ => none

namespace BinaryTree

structure Valuation where
  emitter : Emitter
  terminal : Datum → Terminal → Analysis Value
  merge : String → Value → Value → Analysis Value

/-- What a subtree is worth to the node above it. -/
inductive Operand
  | known (value : Value)
  | irreducible (text : String)

def Operand.asOperandOf (operation : String) : Operand → Analysis Value
  | .known value => pure value
  | .irreducible text => Analysis.fail (Misshape.irreducibleOperand text operation)

def Operand.asResult : Operand → Analysis Value
  | .known value => pure value
  | .irreducible text => Analysis.fail (Misshape.irreducible text)

def Valuation.apply (valuation : Valuation) (text : String) (operation : Operation)
    (left right : Value) : Analysis Value :=
  match operation with
  | .phi => valuation.merge text left right
  | operation =>
      match operation.wordOp? with
      | some op => valuation.emitter.combine op left right
      | none => Analysis.fail (Misshape.noIntegerValue text)

def operand (valuation : Valuation) : BinaryTree → Analysis Operand
  | .leaf text (.terminal node) => do return .known (← valuation.terminal text node)
  | .leaf text (.structural _) => return .irreducible text.shown
  | .branch text operation left right => do
      let first ← operand valuation left
      let second ← operand valuation right
      let first ← first.asOperandOf text
      let second ← second.asOperandOf text
      return .known (← valuation.apply text operation first second)

def evaluateWith (valuation : Valuation) (tree : BinaryTree) : Analysis Value := do
  (← tree.operand valuation).asResult

end BinaryTree

namespace Resolver

/-- Every terminal has the value it resolves to, and a phi merge has none. -/
def concrete (resolver : Resolver) : BinaryTree.Valuation where
  emitter := resolver.emitter
  terminal text node := Analysis.ofExcept (resolver.resolve text (.terminal node))
  merge text _ _ := Analysis.fail (Indeterminate.mergeWithoutValue text)

def evaluate (resolver : Resolver) (tree : BinaryTree) : Analysis Value :=
  tree.evaluateWith resolver.concrete

end Resolver

end KernelFootprint
