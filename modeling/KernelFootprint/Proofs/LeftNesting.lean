import KernelFootprint.Proofs.Index
import KernelFootprint.Proofs.Interchange
import KernelFootprint.Proofs.Recurrence
import Mathlib

/-!
# Left-nested trees

A tree of any arity has a binary form, in which an operation on several operands is
applied to the first two of them and then to what it comes to and the next one. The
binary form is evaluated operand by operand with a combination after each of them, the
tree itself by valuing all operands first. As combining values changes nothing but
requests, it can be put off until all operands have values, so that the two
evaluations return the same. Where one of them fails the other one fails too, though
it can be for another reason.
-/

namespace KernelFootprint

open Analysis

/-- Applies an operation to the first two trees, then to the result and the third one,
and so on. Without operands nothing is built. -/
def BinaryTree.chain (text : String) (operation : Operation) : List BinaryTree → BinaryTree
  | [] => .incomplete
  | first :: rest => rest.foldl (.branch text operation) first

namespace NaryTree

mutual

/-- The binary form of a tree. -/
def leftNested : NaryTree → BinaryTree
  | .node text (.terminal leaf) _ => .leaf text (.terminal leaf)
  | .node text (.structural kind) _ => .leaf text (.structural kind)
  | .node text (.operation operation _) operands =>
      .chain text.shown operation (leftNestedAll operands)

def leftNestedAll : List NaryTree → List BinaryTree
  | [] => []
  | first :: rest => leftNested first :: leftNestedAll rest

end

theorem leftNestedAll_eq_map (trees : List NaryTree) :
    leftNestedAll trees = trees.map leftNested := by
  induction trees with
  | nil => rfl
  | cons first rest ih => rw [leftNestedAll, ih, List.map_cons]

/-- Trees that have a binary form: nothing but operations has operands, an operation has
two or more, and none is a merge. -/
inductive IsNestable : NaryTree → Prop
  | terminal (text : Datum) (node : Terminal) : IsNestable (.node text (.terminal node) [])
  | structural (text : Datum) (kind : Structural) : IsNestable (.node text (.structural kind) [])
  | operation (text : Datum) {operation : Operation} (isOther : operation ≠ .phi)
      (id : Option Nat) {first second : NaryTree} {rest : List NaryTree}
      (operands : ∀ operand ∈ first :: second :: rest, IsNestable operand) :
      IsNestable (.node text (.operation operation id) (first :: second :: rest))

end NaryTree

namespace RangeContext

variable {context : RangeContext}

/-- A setting in which nothing depends on the requests made before. -/
structure IsForgetful (context : RangeContext) : Prop where
  emitter : context.emitter.IsForgetful
  bounds : ∀ scope, context.phis = some scope → ∀ loop,
    Interchangeable Value (scope.bound loop) (scope.bound loop)

theorem IsForgetful.interchangeable_terminal (forgetful : context.IsForgetful) (text : Datum)
    (node : Terminal) :
    Interchangeable Value (context.terminal text node) (context.terminal text node) := by
  obtain ⟨emitter, bounds⟩ := forgetful
  have extensible := isExtensible_interchangeable emitter
  obtain ⟨resolver, mode, phis, loop⟩ := context
  cases phis with
  | none =>
      exact @related_terminal ⟨resolver, mode, none, loop⟩ _ extensible
        (fun _ => fail Misuse.unfinished) (fun _ => fail Misuse.unfinished) node
        (fun _ _ => extensible.fault _) text
  | some scope =>
      exact @related_terminal ⟨resolver, mode, some scope, loop⟩ _ extensible scope.bound
        scope.bound node (fun _ _ => bounds scope rfl _) text

theorem IsForgetful.isPassive_apply (forgetful : context.IsForgetful) (text : String)
    (operation : Operation) (first second : Value) :
    (context.valuation.apply text operation first second).IsPassive := by
  have extensible := isExtensible_passive forgetful.emitter
  exact @BinaryTree.related_apply _ context.valuation context.valuation extensible rfl
    (fun _ _ _ => extensible.combine _ _ _) text operation first second

theorem IsForgetful.interchangeable_foldlM (forgetful : context.IsForgetful) (text : String)
    (operation : Operation) (first : Value) (values : List Value) :
    Interchangeable Value (values.foldlM (context.valuation.apply text operation) first)
      (values.foldlM (context.valuation.apply text operation) first) := by
  induction values generalizing first with
  | nil => exact interchangeable_pure first
  | cons second rest ih =>
      rw [List.foldlM_cons]
      exact (forgetful.isPassive_apply text operation first second).interchangeable.bind ih

/-- A branch is worth what its operation comes to on the values of its operands. -/
theorem IsForgetful.interchangeable_branch (forgetful : context.IsForgetful)
    {left right : BinaryTree} {first second : Analysis Value}
    (onLeft : Interchangeable Value (context.ofBinary left) first)
    (onRight : Interchangeable Value (context.ofBinary right) second) (text : String)
    (operation : Operation) :
    Interchangeable Value (context.ofBinary (.branch text operation left right))
      (do
        let first ← first
        let second ← second
        context.valuation.apply text operation first second) := by
  have applied (first second : Value) :=
    (forgetful.isPassive_apply text operation first second).interchangeable
  have inOrder : Interchangeable Value (context.ofBinary (.branch text operation left right))
      (do
        let first ← context.ofBinary left
        let second ← context.ofBinary right
        context.valuation.apply text operation first second) := by
    refine Interchangeable.of_succeeds
      (onLeft.left.bind (fun first => onRight.left.bind (fun second => applied first second))) ?_
    intro ledger value after
    rw [ofBinary, BinaryTree.evaluateWith_branch_eq_ok]
    simp only [outcome_bind_eq_ok]
    constructor
    · rintro ⟨first, middle, second, last, leftReturned, rightReturned, result⟩
      exact ⟨first, middle, leftReturned, second, last, rightReturned, result⟩
    · rintro ⟨first, middle, leftReturned, second, last, rightReturned, result⟩
      exact ⟨first, middle, second, last, leftReturned, rightReturned, result⟩
  exact inOrder.trans
    (onLeft.bind (fun first => onRight.bind (fun second => applied first second)))

end RangeContext

namespace NaryTree

variable {context : RangeContext}

theorem interchangeable_mapM {trees : List NaryTree} {worth : NaryTree → Analysis Value}
    (each : ∀ tree ∈ trees, Interchangeable Value (worth tree) (worth tree)) :
    Interchangeable (List Value) ((trees.map worth).mapM id) ((trees.map worth).mapM id) := by
  induction trees with
  | nil => exact interchangeable_pure _
  | cons tree rest ih =>
      obtain ⟨onTree, onRest⟩ := List.forall_mem_cons.mp each
      rw [List.map_cons, List.mapM_cons]
      exact onTree.bind (fun _ => (ih onRest).bind (fun _ => interchangeable_pure _))

/-- A chain is worth what its operation comes to on the values of all operands in turn. -/
theorem interchangeable_chain (forgetful : context.IsForgetful) (text : String)
    (operation : Operation) {worth : NaryTree → Analysis Value} {rest : List NaryTree}
    (each : ∀ tree ∈ rest, Interchangeable Value (context.ofBinary tree.leftNested) (worth tree))
    {left : BinaryTree} {total : Analysis Value}
    (onLeft : Interchangeable Value (context.ofBinary left) total) :
    Interchangeable Value
      (context.ofBinary ((rest.map leftNested).foldl (.branch text operation) left))
      (do
        let first ← total
        let values ← (rest.map worth).mapM id
        values.foldlM (context.valuation.apply text operation) first) := by
  induction rest generalizing left total with
  | nil =>
      simp only [List.map_nil, List.foldl_nil, List.mapM_nil, pure_bind, List.foldlM_nil,
        bind_pure]
      exact onLeft
  | cons tree rest ih =>
      obtain ⟨onTree, onRest⟩ := List.forall_mem_cons.mp each
      have values := interchangeable_mapM (fun tree member => (onRest tree member).right)
      have branched := ih onRest (forgetful.interchangeable_branch onLeft onTree text operation)
      refine branched.trans ?_
      simp only [List.map_cons, List.mapM_cons, id_eq, bind_assoc, pure_bind, List.foldlM_cons]
      refine onLeft.right.bind (fun first => onTree.right.bind (fun second => ?_))
      exact (forgetful.isPassive_apply text operation first second).swap values
        (fun _ values => forgetful.interchangeable_foldlM text operation _ values)

theorem combineAll_cons (setting : RangeSetting) (op : WordOp) (first : Analysis Value)
    (rest : List (Analysis Value)) :
    combineAll setting op (first :: rest) = (do
      let first ← first
      let values ← rest.mapM id
      values.foldlM (setting.context.emitter.combine op) first) := by
  simp only [combineAll, List.mapM_cons, id_eq, bind_assoc, pure_bind]
  rfl

/-- The binary form of a tree returns what the tree itself returns. -/
theorem interchangeable_leftNested {setting : RangeSetting}
    (forgetful : setting.context.IsForgetful) {tree : NaryTree} (nestable : tree.IsNestable) :
    Interchangeable Value (setting.context.ofBinary tree.leftNested)
      (tree.rangeValue setting) := by
  induction nestable with
  | terminal text node =>
      rw [rangeValue_terminal]
      change Interchangeable Value
        (BinaryTree.evaluateWith setting.context.valuation (.leaf text (.terminal node))) _
      rw [BinaryTree.evaluateWith_terminal]
      exact forgetful.interchangeable_terminal text node
  | structural text kind =>
      rw [rangeValue_structural]
      cases kind <;> exact fun _ _ _ => .fault
  | @operation text operation isOther id first second rest operands ih =>
      have nested : leftNested (.node text (.operation operation id) (first :: second :: rest)) =
          ((second :: rest).map leftNested).foldl (.branch text.shown operation)
            first.leftNested := by
        rw [leftNested, leftNestedAll_eq_map]
        rfl
      obtain ⟨onFirst, onRest⟩ := List.forall_mem_cons.mp ih
      have chained := interchangeable_chain forgetful text.shown operation onRest onFirst
      rw [nested, rangeValue_operation isOther, operationValue]
      cases read : operation.wordOp? with
      | some op =>
          have applies : setting.context.valuation.apply text.shown operation =
              setting.context.emitter.combine op := by
            funext first second
            exact BinaryTree.apply_of_wordOp? read text.shown first second
          rw [applies, ← combineAll_cons] at chained
          exact chained
      | none =>
          have fails (first second : Value) :
              setting.context.valuation.apply text.shown operation first second =
                fail (Misshape.noIntegerValue text.shown) :=
            BinaryTree.apply_of_wordOp?_none isOther read text.shown first second
          -- The tree fails before its operands are valued, the binary form after that.
          refine chained.trans (interchangeable_fail_of_bind (fun first => ?_))
          rw [List.map_cons, List.mapM_cons, bind_assoc]
          refine interchangeable_fail_of_bind (fun second => ?_)
          rw [bind_assoc]
          refine interchangeable_fail_of_bind (fun values => ?_)
          rw [pure_bind, List.foldlM_cons, fails, fail_bind]
          exact interchangeable_fail _ _

end NaryTree

/-- With forgetful emitters, nothing in a range evaluation depends on requests. -/
theorem RangeSetting.isForgetful_of {resolver : Resolver}
    (forgetful : resolver.emitter.IsForgetful) {loops : Option LoopNest}
    (onLoops : ∀ nest ∈ loops, nest.resolver.emitter.IsForgetful) (mode : Mode) (loop : Datum) :
    (RangeSetting.of resolver mode (loops.map LoopNest.view) loop).context.IsForgetful where
  emitter := forgetful
  bounds scope found := by
    cases loops with
    | none => cases found
    | some nest =>
        cases found
        exact LoopNest.interchangeable_bound (onLoops nest rfl) mode

/-- Trees whose extreme values can be interchanged have the same working set. -/
theorem interchangeable_workingSetSize {resolver : Resolver}
    (forgetful : resolver.emitter.IsForgetful) {view : Option LoopView} {loop : Datum}
    {first second : AddressTree}
    (same : ∀ mode, Interchangeable Value (first.extremeValue (.of resolver mode view loop))
      (second.extremeValue (.of resolver mode view loop))) :
    Interchangeable Value (workingSetSize resolver view loop first)
      (workingSetSize resolver view loop second) := by
  have combined := (isExtensible_interchangeable forgetful).combine
  refine (same .greatest).bind (fun high => (same .least).bind (fun low => ?_))
  refine (combined .max high low).bind (fun greatest => ?_)
  exact (combined .min high low).bind (fun least => combined .sub greatest least)

/-- A tree of any arity and its binary form are worth the same. With the default emitter,
for either extreme and with or without knowledge about loops, the one has a value exactly
if the other one has, and both values are the same known integer or deferred expression.
The same holds of their working sets. Loops may have another forgetful emitter. -/
theorem returns_iff_leftNested {tree : NaryTree} (nestable : tree.IsNestable)
    {resolver : Resolver} (symbolic : resolver.emitter = .symbolic) {loops : Option LoopNest}
    (onLoops : ∀ nest ∈ loops, nest.resolver.emitter.IsForgetful) (loop : Datum)
    (ledger : Ledger) (value : Value) :
    (∀ mode,
      let setting := RangeSetting.of resolver mode (loops.map LoopNest.view) loop
      ((tree.rangeValue setting).outcome ledger).1 = .ok value ↔
        ((setting.context.ofBinary tree.leftNested).outcome ledger).1 = .ok value) ∧
      (((workingSetSize resolver (loops.map LoopNest.view) loop (.nary tree)).outcome
          ledger).1 = .ok value ↔
        ((workingSetSize resolver (loops.map LoopNest.view) loop
          (.binary tree.leftNested)).outcome ledger).1 = .ok value) := by
  have forgetful : resolver.emitter.IsForgetful := by
    rw [symbolic]
    exact Emitter.isForgetful_symbolic
  have same (mode : Mode) := (NaryTree.interchangeable_leftNested
    (RangeSetting.isForgetful_of forgetful onLoops mode loop) nestable).symm
  have sizes := @interchangeable_workingSetSize resolver forgetful (loops.map LoopNest.view) loop
    (.nary tree) (.binary tree.leftNested) same
  exact ⟨fun mode => (same mode ledger ledger rfl).eq_ok value,
    (sizes ledger ledger rfl).eq_ok value⟩

/-- A kernel with one loop, which starts at four and ends before its argument. -/
def LoopNest.upToArgument : LoopNest where
  kernel :=
    { name := .text "kernel"
      loops :=
        [(1, { kernel := .text "kernel", id := 1, parent := 0, initial := some (.constant 4)
               final := some (.leaf (.text "ARG0") (.terminal (.argument 0)))
               step := none, knownCount := .null, buildErrors := [] })]
      phiLoops := [(0, 1)] }
  resolver := .sample (.constant (.var "n"))
  settings := {}

namespace NaryTree

/-- The sum of a thread index, an argument and a phi term. -/
def sumOfThree : NaryTree :=
  .node (.text "ADD") (.operation .add none)
    [.node (.text "TIDX") (.terminal (.thread .x)) [],
      .node (.text "ARG0") (.terminal (.argument 0)) [],
      .node (.text "PHI0") (.terminal (.phiTerm (some 0))) []]

theorem isNestable_sumOfThree : sumOfThree.IsNestable := by
  refine .operation _ (by decide) none (fun operand member => ?_)
  rcases List.mem_cons.mp member with rfl | member
  · exact .terminal _ _
  rcases List.mem_cons.mp member with rfl | member
  · exact .terminal _ _
  rcases List.mem_singleton.mp member with rfl
  exact .terminal _ _

end NaryTree

/-- The argument is a variable, so that the bounds of the loop and the sums are deferred. -/
theorem returns_leftNested_sumOfThree :
    let resolver := Resolver.sample (.constant (.var "n"))
    let loops := some LoopNest.upToArgument.view
    let tree := NaryTree.sumOfThree.leftNested
    let greatest := Value.many .sum [.many .sum [.int 31, .var "n"], .var "n"]
    let least := Value.many .sum [.many .sum [.int 0, .var "n"], .int 4]
    (((RangeSetting.of resolver .greatest loops (.integer 1)).context.ofBinary tree).outcome
        {}).1 = .ok greatest ∧
      ((workingSetSize resolver loops (.integer 1) (.binary tree)).outcome {}).1 =
        .ok (WordOp.sub.deferred (WordOp.max.deferred greatest least)
          (WordOp.min.deferred greatest least)) := by
  have returns (value : Value) := @returns_iff_leftNested NaryTree.sumOfThree
    NaryTree.isNestable_sumOfThree (.sample (.constant (.var "n"))) rfl
    (some LoopNest.upToArgument)
    (fun _ found => Option.some.inj found ▸ Emitter.isForgetful_symbolic) (.integer 1) {} value
  exact ⟨((returns _).1 .greatest).mp (by cbv), (returns _).2.mp (by cbv)⟩

end KernelFootprint
