import KernelFootprint.Loop.Nest
import KernelFootprint.Proofs.Evaluation

/-!
# Evaluations side by side

An evaluation is made of values, faults, requests to the emitter, and sequences of
these. Two evaluations of the same tree can differ only in the bounds that its phi
terms have. Hence whatever relation sequences preserve holds between the evaluations
as soon as it holds between the bounds.
-/

namespace KernelFootprint

open Analysis

/-- A relation between analyses that extends to everything built from them by sequences. -/
structure IsExtensible (emitter : Emitter)
    (related : (Result : Type) → Analysis Result → Analysis Result → Prop) : Prop where
  value : ∀ {Result : Type} (value : Result), related Result (pure value) (pure value)
  fault : ∀ {Result : Type} (fault : Fault), related Result (fail fault) (fail fault)
  request : ∀ request, related Value (emitter.emit request) (emitter.emit request)
  sequence : ∀ {First Second : Type} {first other : Analysis First}
    {next otherNext : First → Analysis Second}, related First first other →
    (∀ value, related Second (next value) (otherNext value)) →
    related Second (first >>= next) (other >>= otherNext)

namespace IsExtensible

variable {emitter : Emitter}
  {related : (Result : Type) → Analysis Result → Analysis Result → Prop}

theorem ofExcept (extensible : IsExtensible emitter related) {Result : Type}
    (outcome : Except Fault Result) :
    related Result (Analysis.ofExcept outcome) (Analysis.ofExcept outcome) := by
  cases outcome with
  | ok value => exact extensible.value value
  | error fault => exact extensible.fault fault

theorem lift (extensible : IsExtensible emitter related) (value : Value) :
    related Value (emitter.lift value) (emitter.lift value) := by
  cases value with
  | int value => exact extensible.request _
  | _ => exact extensible.value _

theorem combine (extensible : IsExtensible emitter related) (op : WordOp) (first second : Value) :
    related Value (emitter.combine op first second) (emitter.combine op first second) := by
  have requested (first second : Value) :
      let combined : Analysis Value := do
        let first ← emitter.lift first
        let second ← emitter.lift second
        emitter.emit (.operation op first second)
      related Value combined combined := by
    refine extensible.sequence (extensible.lift first) ?_
    intro lifted
    refine extensible.sequence (extensible.lift second) ?_
    intro other
    exact extensible.request _
  cases first with
  | int number =>
      cases second with
      | int other => exact extensible.ofExcept _
      | _ => exact requested _ _
  | _ => exact requested _ _

end IsExtensible

namespace BinaryTree

variable {related : (Result : Type) → Analysis Result → Analysis Result → Prop}
  {valuation other : Valuation}

theorem related_apply (extensible : IsExtensible valuation.emitter related)
    (same : other.emitter = valuation.emitter)
    (merges : ∀ text first second,
      related Value (valuation.merge text first second) (other.merge text first second))
    (text : String) (operation : Operation) (first second : Value) :
    related Value (valuation.apply text operation first second)
      (other.apply text operation first second) := by
  unfold Valuation.apply
  rw [same]
  split
  · exact merges text first second
  · split
    · exact extensible.combine _ _ _
    · exact extensible.fault _

/-- What holds between the terminals and the merges holds between the trees. -/
theorem related_evaluateWith (extensible : IsExtensible valuation.emitter related)
    (same : other.emitter = valuation.emitter) {tree : BinaryTree}
    (leaves : ∀ text node, (text, node) ∈ tree.terminals →
      related Value (valuation.terminal text node) (other.terminal text node))
    (merges : ∀ text first second,
      related Value (valuation.merge text first second) (other.merge text first second)) :
    related Value (tree.evaluateWith valuation) (tree.evaluateWith other) := by
  have asOperand (operand : Operand) (text : String) :
      related Value (operand.asOperandOf text) (operand.asOperandOf text) := by
    cases operand with
    | known value => exact extensible.value value
    | irreducible leaf => exact extensible.fault _
  have reduced : related Operand (tree.operand valuation) (tree.operand other) := by
    induction tree with
    | leaf text symbol =>
        cases symbol with
        | terminal node =>
            refine extensible.sequence (leaves text node (List.mem_singleton_self _)) ?_
            intro value
            exact extensible.value _
        | structural node => exact extensible.value _
    | branch text operation left right leftIH rightIH =>
        rw [operand, operand]
        refine extensible.sequence (leftIH (fun text node member =>
          leaves text node (List.mem_append_left _ member))) ?_
        intro first
        refine extensible.sequence (rightIH (fun text node member =>
          leaves text node (List.mem_append_right _ member))) ?_
        intro second
        refine extensible.sequence (asOperand first text) ?_
        intro first
        refine extensible.sequence (asOperand second text) ?_
        intro second
        refine extensible.sequence
          (related_apply extensible same merges text operation first second) ?_
        intro value
        exact extensible.value _
  refine extensible.sequence reduced ?_
  intro operand
  cases operand with
  | known value => exact extensible.value value
  | irreducible leaf => exact extensible.fault _

end BinaryTree

namespace RangeContext

variable {context : RangeContext}
  {related : (Result : Type) → Analysis Result → Analysis Result → Prop}

/-- The setting with other bounds of the loops, if there is knowledge about loops at all. -/
def withBounds (context : RangeContext) (bound : Datum → Analysis Value) : RangeContext :=
  { context with phis := context.phis.map (fun scope => { scope with bound }) }

theorem related_lastIndex (extensible : IsExtensible context.emitter related)
    (bound other : Datum → Analysis Value) (dimension : Unit → Except Fault Value) :
    related Value ((context.withBounds bound).lastIndex dimension)
      ((context.withBounds other).lastIndex dimension) := by
  change related Value (context.lastIndex dimension) (context.lastIndex dimension)
  unfold lastIndex
  split
  · exact extensible.value _
  · refine extensible.sequence (extensible.ofExcept _) ?_
    intro count
    exact extensible.combine _ _ _

theorem related_phiTerm (extensible : IsExtensible context.emitter related)
    {bound other : Datum → Analysis Value} {id : Option Nat}
    (bounds : related Value (bound (context.loopOf id)) (other (context.loopOf id)))
    (text : Datum) :
    related Value ((context.withBounds bound).phiTerm text id)
      ((context.withBounds other).phiTerm text id) := by
  obtain ⟨resolver, mode, phis, loop⟩ := context
  cases phis with
  | none =>
      change related Value (if isOutsideLoops loop then pure 1 else fail _)
        (if isOutsideLoops loop then pure 1 else fail _)
      split
      · exact extensible.value _
      · exact extensible.fault _
  | some scope =>
      change related Value
        (if isOutsideLoops (scope.loopOf id loop) then pure 1 else bound (scope.loopOf id loop))
        (if isOutsideLoops (scope.loopOf id loop) then pure 1 else other (scope.loopOf id loop))
      split
      · exact extensible.value _
      · exact bounds

theorem related_terminal (extensible : IsExtensible context.emitter related)
    {bound other : Datum → Analysis Value} {node : Terminal}
    (bounds : ∀ id, node = .phiTerm id →
      related Value (bound (context.loopOf id)) (other (context.loopOf id))) (text : Datum) :
    related Value ((context.withBounds bound).terminal text node)
      ((context.withBounds other).terminal text node) := by
  refine extensible.sequence (extensible.ofExcept _) ?_
  intro value
  cases value with
  | some value => exact extensible.value _
  | none =>
      cases node with
      | thread axis =>
          exact related_lastIndex extensible bound other
            (fun _ => .ok (context.resolver.invocation.blockDim.along axis))
      | block axis =>
          exact related_lastIndex extensible bound other
            (fun _ => context.resolver.gridDimAtIterationZero axis)
      | phiTerm id => exact related_phiTerm extensible (bounds id rfl) text
      | incomplete => exact extensible.fault _
      | _ => exact extensible.ofExcept _

/-- What holds between the bounds of the loops that a tree refers to holds between its values. -/
theorem related_ofBinary (extensible : IsExtensible context.emitter related)
    {bound other : Datum → Analysis Value} {tree : BinaryTree}
    (bounds : ∀ text id, (text, .phiTerm id) ∈ tree.terminals →
      related Value (bound (context.loopOf id)) (other (context.loopOf id))) :
    related Value ((context.withBounds bound).ofBinary tree)
      ((context.withBounds other).ofBinary tree) :=
  @BinaryTree.related_evaluateWith related (context.withBounds bound).valuation
    (context.withBounds other).valuation extensible rfl tree
    (fun text _ member => related_terminal extensible
      (fun id same => bounds text id (same ▸ member)) text)
    (fun _ _ _ => extensible.combine _ _ _)

end RangeContext

namespace LoopNest

variable {nest : LoopNest}
  {related : (Result : Type) → Analysis Result → Analysis Result → Prop}

/-- What holds between the lower bounds that a tree refers to holds between its values. -/
theorem related_boundContext_of_phis (extensible : IsExtensible nest.resolver.emitter related)
    {lowerBound other : Datum → Analysis Value} {record : LoopRecord} {tree : BinaryTree}
    (bounds : ∀ text id, (text, .phiTerm id) ∈ tree.terminals →
      related Value (lowerBound (nest.loopOf id (.integer record.parent)))
        (other (nest.loopOf id (.integer record.parent)))) :
    related Value ((nest.boundContext lowerBound record).ofBinary tree)
      ((nest.boundContext other record).ofBinary tree) :=
  @RangeContext.related_ofBinary (nest.boundContext lowerBound record) related extensible
    lowerBound other tree bounds

theorem related_boundContext (extensible : IsExtensible nest.resolver.emitter related)
    {lowerBound other : Datum → Analysis Value}
    (bounds : ∀ loop, related Value (lowerBound loop) (other loop)) (record : LoopRecord)
    (tree : BinaryTree) :
    related Value ((nest.boundContext lowerBound record).ofBinary tree)
      ((nest.boundContext other record).ofBinary tree) :=
  related_boundContext_of_phis extensible (fun _ _ _ => bounds _)

end LoopNest

end KernelFootprint
