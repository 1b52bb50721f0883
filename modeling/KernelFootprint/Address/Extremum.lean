import KernelFootprint.Address.Evaluation
import KernelFootprint.Tree.Nary

/-!
# Extreme values of terminals

The range of an address runs between the values it takes with every thread and
block index at its least and at its greatest value, and every recurrence at
the first and at the last bound of its loop. Phi terms outside all loops are
worth one.
-/

namespace KernelFootprint

inductive Mode
  | least
  | greatest
  deriving DecidableEq

def Mode.extremum : Mode → WordOp
  | .least => .min
  | .greatest => .max

/-- What is known about the loops around an address: which loop a phi belongs
to, given the loop to fall back on, and the bound of a loop at the extreme. Loops
are named by loose data. -/
structure PhiScope where
  loopOf : Option Nat → Datum → Datum
  bound : Datum → Analysis Value

/-- Whether what names a loop stands for no loop at all. -/
def isOutsideLoops (loop : Datum) : Bool := loop == .integer 0

@[simp] theorem isOutsideLoops_integer (loop : Int) :
    isOutsideLoops (.integer loop) = (loop == 0) := Datum.beq_integer loop 0

/-- The setting of a range evaluation. -/
structure RangeContext where
  resolver : Resolver
  mode : Mode
  phis : Option PhiScope
  loop : Datum

namespace RangeContext

def emitter (context : RangeContext) : Emitter := context.resolver.emitter

/-- One less than a dimension in the greatest mode, zero in the least. -/
def lastIndex (context : RangeContext) (dimension : Unit → Except Fault Value) :
    Analysis Value :=
  match context.mode with
  | .least => return 0
  | .greatest => do
      let count ← Analysis.ofExcept (dimension ())
      context.emitter.combine .sub count 1

def loopOf (context : RangeContext) (id : Option Nat) : Datum :=
  match context.phis with
  | some scope => scope.loopOf id context.loop
  | none => context.loop

def phiTerm (context : RangeContext) (text : Datum) (id : Option Nat) : Analysis Value :=
  let loop := context.loopOf id
  if isOutsideLoops loop then return 1
  else
    match context.phis with
    | some scope => scope.bound loop
    | none =>
        Analysis.fail (.quoting (do
          return .indeterminate (.noLoopInformation text.shown (← loop.describe))))

def intrinsic (context : RangeContext) (text : Datum) : Terminal → Analysis Value
  | .thread axis =>
      context.lastIndex (fun _ => .ok (context.resolver.invocation.blockDim.along axis))
  | .block axis => context.lastIndex (fun _ => context.resolver.gridDimAtIterationZero axis)
  | .phiTerm id => context.phiTerm text id
  | .incomplete => Analysis.fail Indeterminate.incompleteExpression
  | node => Analysis.ofExcept (context.resolver.resolve text (.terminal node))

def terminal (context : RangeContext) (text : Datum) (node : Terminal) : Analysis Value := do
  match ← Analysis.ofExcept (context.resolver.unknown? text) with
  | some value => return value
  | none => context.intrinsic text node

/-- A phi merge is worth the extremum of its two operands. -/
def valuation (context : RangeContext) : BinaryTree.Valuation where
  emitter := context.emitter
  terminal := context.terminal
  merge _ left right := context.emitter.combine context.mode.extremum left right

/-- The extreme value of a binary tree. -/
def ofBinary (context : RangeContext) (tree : BinaryTree) : Analysis Value :=
  tree.evaluateWith context.valuation

end RangeContext

end KernelFootprint
