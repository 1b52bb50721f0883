import KernelFootprint.Address.Range
import KernelFootprint.Proofs.Deferred
import KernelFootprint.Proofs.Groups
import KernelFootprint.Proofs.Index
import Mathlib

/-!
# Late binding

A launch may leave arguments and dimensions to variables of the host. Evaluating an
address then builds an expression, and settling the variables afterwards gives the
value that the address has if they are settled first, provided that nothing in it
is negative or wraps.
-/

namespace KernelFootprint

namespace BinaryTree

variable {late settled : Valuation} {reading : Operation → Option WordOp}
  {number : Datum → Terminal → Int} {environment : String → Int}

/-- What a tree comes to, if it does, is a natural number below 2 ^ 63 and its exact value. -/
def IsExact (valuation : Valuation) (reading : Operation → Option WordOp)
    (number : Datum → Terminal → Int) (tree : BinaryTree) : Prop :=
  ∀ before after value, (tree.evaluateWith valuation).outcome before = (.ok (.int value), after) →
    0 ≤ value ∧ value < 2 ^ 63 ∧ value = tree.exact reading number

theorem isExact_of_outcome {tree : BinaryTree} {value : Int}
    (returned : ∀ ledger, (tree.evaluateWith settled).outcome ledger = (.ok (.int value), ledger))
    (low : 0 ≤ value) (high : value < 2 ^ 63) (same : value = tree.exact reading number) :
    IsExact settled reading number tree := by
  intro before after other found
  rw [returned] at found
  cases found
  exact ⟨low, high, same⟩

theorem yields_branch {text : String} {operation : Operation} {left right : BinaryTree}
    {first second result : Int} (onLeft : (left.evaluateWith late).Yields environment first)
    (onRight : (right.evaluateWith late).Yields environment second)
    (applied : ∀ value other, value.Means environment first → other.Means environment second →
      (late.apply text operation value other).Yields environment result) :
    ((branch text operation left right).evaluateWith late).Yields environment result := by
  intro ledger
  obtain ⟨value, middle, leftReturned, means⟩ := onLeft ledger
  obtain ⟨other, last, rightReturned, otherMeans⟩ := onRight middle
  obtain ⟨final, after, returned, finalMeans⟩ := applied value other means otherMeans last
  exact ⟨final, after, evaluateWith_branch_eq_ok.mpr
    ⟨value, middle, other, last, leftReturned, rightReturned, returned⟩, finalMeans⟩

/-- A settled tree that is exact has its exact value, whatever the ledger holds. -/
theorem evaluateWith_settled {tree : BinaryTree} (settledReads : settled.Reads reading)
    (immediate : ∀ text node, (text, node) ∈ tree.terminals →
      (settled.terminal text node).IsImmediate)
    (exactly : IsExact settled reading number tree) {before after : Ledger} {value : Value}
    (returned : (tree.evaluateWith settled).outcome before = (.ok value, after)) :
    value = .int (tree.exact reading number) ∧
      tree.evaluateWith settled = pure (.int (tree.exact reading number)) ∧
        0 ≤ tree.exact reading number ∧ tree.exact reading number < 2 ^ 63 := by
  have immediately := isImmediate_evaluateWith immediate settledReads.merge
  obtain ⟨result, rfl, _, evaluated⟩ := immediately.eq_pure returned
  obtain ⟨nonneg, small, exact_eq⟩ := exactly _ _ _ returned
  subst exact_eq
  exact ⟨rfl, evaluated, nonneg, small⟩

/-- If terminals stand for what they are settled to, so does a tree whose settled parts
are all exact. -/
theorem evaluateWith_yields {tree : BinaryTree} (symbolic : late.emitter = .symbolic)
    (lateReads : late.Reads reading) (settledReads : settled.Reads reading)
    (immediate : ∀ text node, (text, node) ∈ tree.terminals →
      (settled.terminal text node).IsImmediate)
    (terminals : ∀ text node, (text, node) ∈ tree.terminals → 0 ≤ number text node →
      settled.terminal text node = pure (.int (number text node)) →
        (late.terminal text node).Yields environment (number text node))
    (exactly : tree.Everywhere (IsExact settled reading number))
    {before after : Ledger} {value : Value}
    (returned : (tree.evaluateWith settled).outcome before = (.ok value, after)) :
    (tree.evaluateWith late).Yields environment (tree.exact reading number) := by
  obtain ⟨rfl, evaluated, nonneg, small⟩ :=
    evaluateWith_settled settledReads immediate exactly.self returned
  induction tree generalizing before after with
  | leaf text symbol =>
      cases symbol with
      | terminal node =>
          rw [evaluateWith_terminal] at evaluated ⊢
          exact terminals text node (List.mem_singleton.mpr rfl) nonneg evaluated
      | structural node => cases returned
  | branch text operation left right leftIH rightIH =>
      obtain ⟨_, leftExactly, rightExactly⟩ := exactly
      have leftImmediate text node (member : (text, node) ∈ left.terminals) :=
        immediate text node (List.mem_append_left _ member)
      have rightImmediate text node (member : (text, node) ∈ right.terminals) :=
        immediate text node (List.mem_append_right _ member)
      obtain ⟨first, middle, second, last, leftReturned, rightReturned, applied⟩ :=
        evaluateWith_branch_eq_ok.mp returned
      obtain ⟨rfl, leftEvaluated, leftLow, leftHigh⟩ :=
        evaluateWith_settled settledReads leftImmediate leftExactly.self leftReturned
      obtain ⟨rfl, rightEvaluated, rightLow, rightHigh⟩ :=
        evaluateWith_settled settledReads rightImmediate rightExactly.self rightReturned
      have onLeft := leftIH leftImmediate
        (fun text node member => terminals text node (List.mem_append_left _ member))
        leftExactly leftReturned leftEvaluated leftLow leftHigh
      have onRight := rightIH rightImmediate
        (fun text node member => terminals text node (List.mem_append_right _ member))
        rightExactly rightReturned rightEvaluated rightLow rightHigh
      refine yields_branch onLeft onRight ?_
      intro value other means otherMeans
      have lateApplied := lateReads text operation value other
      have settledApplied := settledReads text operation (.int (left.exact reading number))
        (.int (right.exact reading number))
      cases read : reading operation with
      | none =>
          rw [read] at settledApplied
          obtain ⟨fault, failed⟩ := settledApplied
          rw [failed] at applied
          cases applied
      | some op =>
          rw [read] at lateApplied settledApplied
          rw [settledApplied] at applied
          obtain ⟨result, folded, _, _⟩ := Emitter.fold_of_combine applied
          rw [exact_branch read] at nonneg small ⊢
          rw [lateApplied, symbolic]
          exact Emitter.yields_combine means otherMeans (WordOp.accepts_of_fold folded) leftLow
            leftHigh rightLow rightHigh nonneg small

end BinaryTree

/-- Known integers and variables of the host. -/
def Value.IsLate : Value → Prop
  | .int _ | .var _ => True
  | _ => False

/-- A variable replaced by its value. -/
def Value.settle (environment : String → Int) : Value → Value
  | .var name => .int (environment name)
  | value => value

/-- Constants and runtime values, forwarded or not, that are known or host variables. -/
def Binding.IsLate : Binding → Prop
  | .constant value | .runtime value => value.IsLate
  | .forwarded _ origin => origin.IsLate
  | _ => False

def Binding.settle (environment : String → Int) : Binding → Binding
  | .constant value => .constant (value.settle environment)
  | .runtime handle => .runtime (handle.settle environment)
  | .forwarded handle origin =>
      .forwarded (handle.settle environment) (origin.settle environment)
  | binding => binding

def Dimensions.settle (environment : String → Int) (dimensions : Dimensions) : Dimensions :=
  ⟨dimensions.x.settle environment, dimensions.y.settle environment⟩

/-- The resolver in which every variable is replaced by its value. -/
def Resolver.settle (environment : String → Int) (resolver : Resolver) : Resolver :=
  { resolver with
    invocation := { resolver.invocation with
      blockDim := resolver.invocation.blockDim.settle environment
      gridDim := resolver.invocation.gridDim.settle environment
      bindings := resolver.invocation.bindings.map
        (fun entry => (entry.1, entry.2.settle environment)) } }

/-- A launch that builds expressions over host variables, without values for tokens. -/
structure Resolver.IsLate (resolver : Resolver) : Prop where
  emitter : resolver.emitter = .symbolic
  unknowns : resolver.unknowns = []
  dimensions : ∀ index, (resolver.dimension index).IsLate
  bindings : ∀ entry ∈ resolver.invocation.bindings, entry.2.IsLate

namespace Value.IsLate

/-- A late value is settled to the number that it stands for. -/
theorem settle {value : Value} (late : value.IsLate) (environment : String → Int) :
    ∃ number, value.settle environment = .int number ∧ value.Means environment number := by
  cases value with
  | int number => exact ⟨number, rfl, means_int environment number⟩
  | var name => exact ⟨environment name, rfl, means_var environment name⟩
  | _ => cases late

theorem means {value : Value} (late : value.IsLate) {environment : String → Int} {number : Int}
    (settled : value.settle environment = .int number) : value.Means environment number := by
  obtain ⟨other, same, means⟩ := late.settle environment
  cases same.symm.trans settled
  exact means

end Value.IsLate

namespace Resolver

variable {resolver : Resolver} {environment : String → Int}

theorem find_map_settle (formal : Int) (bindings : List (Int × Binding)) :
    Register.find formal (bindings.map (fun entry => (entry.1, entry.2.settle environment))) =
      (Register.find formal bindings).map (Binding.settle environment) := by
  induction bindings with
  | nil => rfl
  | cons entry rest ih =>
      rw [List.map_cons, Register.find, Register.find]
      cases entry.1 == formal with
      | true => rfl
      | false => exact ih

theorem originOf_settle (formal : String) (steps : Nat) (binding : Binding) :
    originOf formal steps (binding.settle environment) =
      (originOf formal steps binding).map (Binding.settle environment) := by
  induction steps generalizing binding with
  | zero => cases binding <;> rfl
  | succ steps ih =>
      cases binding with
      | forwarded handle origin => exact ih origin
      | _ => rfl

theorem isLate_of_originOf {formal : String} {steps : Nat} {binding final : Binding}
    (late : binding.IsLate) (found : originOf formal steps binding = .ok final) :
    ∃ value : Value, value.IsLate ∧ (final = .constant value ∨ final = .runtime value) := by
  induction binding generalizing steps with
  | constant value =>
      refine ⟨value, late, .inl ?_⟩
      cases steps <;> exact (Except.ok.inj found).symm
  | runtime value =>
      refine ⟨value, late, .inr ?_⟩
      cases steps <;> exact (Except.ok.inj found).symm
  | forwarded handle origin ih =>
      cases steps with
      | zero => cases found
      | succ steps => exact ih late found
  | _ => cases late

/-- An argument has a late value, and settled bindings give it the settled one. -/
theorem resolveArgument_settle (late : resolver.IsLate) (formal : Nat) :
    (resolver.settle environment).resolveArgument (.integer formal) =
        (resolver.resolveArgument (.integer formal)).map (Value.settle environment) ∧
      ∀ value, resolver.resolveArgument (.integer formal) = .ok value → value.IsLate := by
  have settled : (resolver.settle environment).invocation.bindings =
      resolver.invocation.bindings.map (fun entry => (entry.1, entry.2.settle environment)) := rfl
  rw [resolveArgument, resolveArgument, Datum.findNumbered_integer, Datum.findNumbered_integer,
    settled, find_map_settle]
  cases bound : Register.find (formal : Int) resolver.invocation.bindings with
  | none =>
      refine ⟨rfl, ?_⟩
      intro value resolved
      cases resolved
  | some binding =>
      have lateBinding := late.bindings _ (Register.mem_of_find_eq_some bound)
      have origins : originOf (Datum.integer formal).shown maximalOrigins
          (binding.settle environment) =
            (originOf (Datum.integer formal).shown maximalOrigins binding).map
              (Binding.settle environment) := originOf_settle _ _ _
      change (originOf (Datum.integer formal).shown maximalOrigins
          (binding.settle environment) >>= valueOf) =
            (originOf (Datum.integer formal).shown maximalOrigins binding >>= valueOf).map
              (Value.settle environment) ∧
        ∀ value, (originOf (Datum.integer formal).shown maximalOrigins binding >>= valueOf) =
          .ok value → value.IsLate
      rcases found : originOf (Datum.integer formal).shown maximalOrigins binding with fault | final
      · rw [origins, found]
        refine ⟨rfl, ?_⟩
        intro value resolved
        cases resolved
      · obtain ⟨value, lateValue, rfl | rfl⟩ := isLate_of_originOf lateBinding found
        all_goals
          rw [origins, found]
          refine ⟨rfl, ?_⟩
          intro other resolved
          cases resolved
          exact lateValue

/-- A terminal has a late value, and settled launches give it the settled one. -/
theorem resolve_settle (environment : String → Int) (late : resolver.IsLate) (text : Datum)
    (node : Terminal) :
    (resolver.settle environment).resolve text (.terminal node) =
        (resolver.resolve text (.terminal node)).map (Value.settle environment) ∧
      ∀ value, resolver.resolve text (.terminal node) = .ok value → value.IsLate := by
  have unknown := resolver.unknown?_of_free late.unknowns text
  have settledUnknown := (resolver.settle environment).unknown?_of_free late.unknowns text
  rw [resolve, resolve, unknown, settledUnknown]
  by_cases serves : text.isKey = true
  · rw [if_pos serves]
    change (resolver.settle environment).intrinsic text (.terminal node) =
        (resolver.intrinsic text (.terminal node)).map (Value.settle environment) ∧
      ∀ value, resolver.intrinsic text (.terminal node) = .ok value → value.IsLate
    cases node with
    | constant number =>
        refine ⟨rfl, ?_⟩
        intro value resolved
        cases resolved
        trivial
    | argument formal => exact resolveArgument_settle late formal
    | blockSize axis =>
        refine ⟨?_, ?_⟩
        · cases axis <;> rfl
        · intro value resolved
          cases resolved
          exact late.dimensions (.thread axis)
    | _ =>
        refine ⟨rfl, ?_⟩
        intro value resolved
        cases resolved
  · rw [if_neg serves]
    refine ⟨rfl, ?_⟩
    intro value resolved
    cases resolved

theorem dimension_settle (index : Index) :
    (resolver.settle environment).dimension index =
      (resolver.dimension index).settle environment := by
  cases index with
  | thread axis => cases axis <;> rfl
  | block axis => cases axis <;> rfl

theorem isImmediate_resolve_settle (late : resolver.IsLate) (text : Datum) (node : Terminal) :
    (Analysis.ofExcept
      ((resolver.settle environment).resolve text (.terminal node))).IsImmediate := by
  obtain ⟨settled, isLate⟩ := resolve_settle environment late text node
  rw [settled]
  rcases resolved : resolver.resolve text (.terminal node) with fault | value
  · exact Analysis.isImmediate_fail fault
  · obtain ⟨number, same, _⟩ := (isLate value resolved).settle environment
    change (Analysis.ofExcept (.ok (value.settle environment))).IsImmediate
    rw [same]
    exact Analysis.isImmediate_pure number

/-- Where a settled terminal has a value, the late one stands for it. -/
theorem yields_resolve (late : resolver.IsLate) {text : Datum} {node : Terminal} {number : Int}
    (evaluated : Analysis.ofExcept
      ((resolver.settle environment).resolve text (.terminal node)) = pure (.int number)) :
    (Analysis.ofExcept (resolver.resolve text (.terminal node))).Yields environment number := by
  obtain ⟨settled, isLate⟩ := resolve_settle environment late text node
  rw [settled] at evaluated
  rcases resolved : resolver.resolve text (.terminal node) with fault | value
  · rw [resolved] at evaluated
    cases congrFun evaluated {}
  · rw [resolved] at evaluated
    obtain ⟨other, same, means⟩ := (isLate value resolved).settle environment
    change Analysis.ofExcept (.ok (value.settle environment)) = _ at evaluated
    rw [same] at evaluated
    cases Analysis.pure_int_injective evaluated
    exact Analysis.yields_pure means

/-- Without host loops a late dimension is what it is at iteration zero. -/
theorem gridDimAtIterationZero_of_isLate (late : resolver.IsLate) (axis : Axis) :
    resolver.gridDimAtIterationZero axis = .ok (resolver.dimension (.block axis)) := by
  have noLoops : resolver.invocation.loopBindings = [] := by
    refine List.filter_eq_nil_iff.mpr ?_
    intro entry member isLoop
    have lateBinding := late.bindings entry member
    obtain ⟨formal, binding⟩ := entry
    cases binding with
    | loopVariable name initial final step => exact lateBinding
    | _ => cases isLoop
  have noValue (name : String) : resolver.initialValue? name = none := by
    rw [initialValue?, Invocation.initialValues, noLoops]
    rfl
  have lateDimension := late.dimensions (.block axis)
  change resolver.atIterationZero (resolver.dimension (.block axis)) = _
  cases dimension : resolver.dimension (.block axis) with
  | int number => rfl
  | var name =>
      have kept : (Value.var name).substitute resolver.initialValue? = .ok (.var name) := by
        rw [Value.substitute, noValue]
        rfl
      change (resolver.deferredAtIterationZero (.var name)).mapError Fault.misuse = _
      rw [deferredAtIterationZero, kept]
      rfl
  | _ =>
      rw [dimension] at lateDimension
      cases lateDimension

end Resolver

/-- The evaluators of binary trees. -/
inductive Evaluator
  | concrete
  | extreme (mode : Mode)

namespace Evaluator

def valuation (evaluator : Evaluator) (resolver : Resolver) (view : Option LoopView)
    (loop : Datum) : BinaryTree.Valuation :=
  match evaluator with
  | .concrete => resolver.concrete
  | .extreme mode => (RangeSetting.of resolver mode view loop).context.valuation

/-- The word operation of an operation, which is an extremum for a merge between extremes. -/
def reading (evaluator : Evaluator) (operation : Operation) : Option WordOp :=
  match evaluator, operation with
  | .extreme mode, .phi => some mode.extremum
  | _, operation => operation.wordOp?

/-- The extent of an index, zero if it is no integer. -/
def extent (resolver : Resolver) (index : Index) : Int :=
  match resolver.dimension index with
  | .int value => value
  | _ => 0

/-- The exact number of a terminal. -/
def number (evaluator : Evaluator) (resolver : Resolver) (text : Datum) (node : Terminal) : Int :=
  match evaluator, node with
  | .extreme mode, .thread axis => mode.indices (extent resolver) (.thread axis)
  | .extreme mode, .block axis => mode.indices (extent resolver) (.block axis)
  | _, node => resolver.number text node

theorem reads (evaluator : Evaluator) (resolver : Resolver) (view : Option LoopView)
    (loop : Datum) : (evaluator.valuation resolver view loop).Reads evaluator.reading := by
  intro text operation first second
  cases evaluator with
  | concrete =>
      cases operation with
      | phi | icmp | fcmp | fmul | fdiv => exact ⟨_, rfl⟩
      | _ => rfl
  | extreme mode =>
      cases operation with
      | icmp | fcmp | fmul | fdiv => exact ⟨_, rfl⟩
      | _ => rfl

variable {resolver : Resolver} {environment : String → Int}

theorem dimension_settle_eq_int (environment : String → Int) (late : resolver.IsLate)
    (index : Index) :
    (resolver.settle environment).dimension index =
      .int (extent (resolver.settle environment) index) := by
  obtain ⟨number, settled, _⟩ := (late.dimensions index).settle environment
  rw [extent, Resolver.dimension_settle, settled]

/-- The greatest index is one less than the dimension, known or not. -/
theorem yields_lastIndex (late : resolver.IsLate) (index : Index)
    (nonneg : 0 ≤ extent (resolver.settle environment) index - 1)
    (small : extent (resolver.settle environment) index - 1 < 2 ^ 63) :
    (Emitter.symbolic.combine .sub (resolver.dimension index) (.int 1)).Yields environment
      (extent (resolver.settle environment) index - 1) := by
  have settled := dimension_settle_eq_int environment late index
  rw [Resolver.dimension_settle] at settled
  have lateDimension := late.dimensions index
  have means := lateDimension.means settled
  cases dimension : resolver.dimension index with
  | int number =>
      rw [dimension] at means
      cases Value.eq_of_means_int means
      rw [Emitter.combine_of_fold _ (WordOp.fold_sub _ 1), wrapWide_eq_self (by omega) small]
      exact Analysis.yields_pure (Value.means_int _ _)
  | var name =>
      rw [dimension] at means
      exact Emitter.yields_request (Analysis.yields_pure means)
        (Emitter.yields_lift (Value.means_int environment 1) (by decide) (by decide))
        (fun value other => Value.means_deferred_sub)
  | _ =>
      rw [dimension] at lateDimension
      cases lateDimension

variable {view settledView : Option LoopView} {loop : Datum} {text : Datum} {node : Terminal}

theorem extreme_terminal (free : resolver.unknowns = []) (mode : Mode) (serves : text.isKey = true)
    (node : Terminal) :
    ((extreme mode).valuation resolver view loop).terminal text node =
      (RangeSetting.of resolver mode view loop).context.intrinsic text node :=
  RangeContext.terminal_of_free free serves node

theorem extreme_terminal_of_not_isKey (free : resolver.unknowns = []) (mode : Mode)
    (unserved : ¬ text.isKey = true) (node : Terminal) :
    ((extreme mode).valuation resolver view loop).terminal text node =
      Analysis.fail Misuse.wrongType :=
  RangeContext.terminal_of_not_isKey free unserved node

/-- The index of a settled launch. -/
theorem settled_index (late : resolver.IsLate) (mode : Mode) (index : Index) :
    (RangeSetting.of (resolver.settle environment) mode settledView loop).context.intrinsic text
        index.terminal =
      pure (.int (wrapWide (mode.indices (extent (resolver.settle environment)) index))) :=
  RangeContext.intrinsic_index_of_int (dimension_settle_eq_int environment late) text index

/-- Phi terms are worth the bounds of their loops, which are computed elsewhere. -/
def Avoids (evaluator : Evaluator) (node : Terminal) : Prop :=
  evaluator ≠ .concrete → ∀ id, node ≠ .phiTerm id

/-- A terminal of a settled launch is a known integer or a fault. -/
theorem isImmediate_settled (evaluator : Evaluator) (late : resolver.IsLate)
    (avoids : evaluator.Avoids node) :
    ((evaluator.valuation (resolver.settle environment) settledView loop).terminal text
      node).IsImmediate := by
  cases evaluator with
  | concrete => exact Resolver.isImmediate_resolve_settle late text node
  | extreme mode =>
      have free : (resolver.settle environment).unknowns = [] := late.unknowns
      by_cases serves : text.isKey = true
      · rw [extreme_terminal free mode serves]
        have isIndex (index : Index) : ((RangeSetting.of (resolver.settle environment) mode
            settledView loop).context.intrinsic text index.terminal).IsImmediate := by
          rw [settled_index late]
          exact Analysis.isImmediate_pure _
        cases node with
        | thread axis => exact isIndex (.thread axis)
        | block axis => exact isIndex (.block axis)
        | phiTerm id => exact absurd rfl (avoids nofun id)
        | incomplete => exact Analysis.isImmediate_fail _
        | _ => exact Resolver.isImmediate_resolve_settle late text _
      · rw [extreme_terminal_of_not_isKey free mode serves]
        exact Analysis.isImmediate_fail _

/-- A late index stands for the settled one. -/
theorem yields_index (late : resolver.IsLate) (mode : Mode) {index : Index}
    (nonneg : 0 ≤ mode.indices (extent (resolver.settle environment)) index)
    (evaluated : (RangeSetting.of (resolver.settle environment) mode settledView
      loop).context.intrinsic text index.terminal =
        pure (.int (mode.indices (extent (resolver.settle environment)) index))) :
    ((RangeSetting.of resolver mode view loop).context.intrinsic text index.terminal).Yields
      environment (mode.indices (extent (resolver.settle environment)) index) := by
  rw [settled_index late] at evaluated
  rw [RangeContext.intrinsic_index (Resolver.gridDimAtIterationZero_of_isLate late)]
  cases mode with
  | least => exact Analysis.yields_pure (Value.means_int environment 0)
  | greatest =>
      have small := wrapWide_lt (Mode.greatest.indices (extent (resolver.settle environment)) index)
      rw [Analysis.pure_int_injective evaluated] at small
      change (resolver.emitter.combine .sub (resolver.dimension index) (.int 1)).Yields _ _
      rw [late.emitter]
      exact yields_lastIndex late index nonneg small

/-- A late terminal stands for the settled one. -/
theorem yields_terminal (evaluator : Evaluator) (late : resolver.IsLate)
    (nonneg : 0 ≤ evaluator.number (resolver.settle environment) text node)
    (evaluated : (evaluator.valuation (resolver.settle environment) settledView loop).terminal
      text node = pure (.int (evaluator.number (resolver.settle environment) text node)))
    (avoids : evaluator.Avoids node) :
    ((evaluator.valuation resolver view loop).terminal text node).Yields environment
      (evaluator.number (resolver.settle environment) text node) := by
  cases evaluator with
  | concrete => exact Resolver.yields_resolve late evaluated
  | extreme mode =>
      have free : (resolver.settle environment).unknowns = [] := late.unknowns
      by_cases serves : text.isKey = true
      · rw [extreme_terminal free mode serves] at evaluated
        rw [extreme_terminal late.unknowns mode serves]
        cases node with
        | thread axis => exact yields_index late mode nonneg evaluated
        | block axis => exact yields_index late mode nonneg evaluated
        | phiTerm id => exact absurd rfl (avoids nofun id)
        | incomplete => cases congrFun evaluated {}
        | _ => exact Resolver.yields_resolve late evaluated
      · rw [extreme_terminal_of_not_isKey free mode serves] at evaluated
        cases congrFun evaluated {}

end Evaluator

/-- Late binding agrees with early binding: where the settled launch gives an address a
value, with all its parts natural numbers below 2 ^ 63 and exact, the late launch gives it
an expression that is evaluated to this value. -/
theorem evaluate_late (evaluator : Evaluator) {resolver : Resolver} (late : resolver.IsLate)
    (environment : String → Int) (view settledView : Option LoopView) (loop : Datum)
    {tree : BinaryTree}
    (avoids : ∀ text node, (text, node) ∈ tree.terminals → evaluator.Avoids node)
    (exactly : tree.Everywhere (BinaryTree.IsExact
      (evaluator.valuation (resolver.settle environment) settledView loop) evaluator.reading
      (evaluator.number (resolver.settle environment))))
    {before after : Ledger} {value : Value}
    (returned : (tree.evaluateWith
      (evaluator.valuation (resolver.settle environment) settledView loop)).outcome before =
        (.ok value, after)) :
    ∃ number : Int, value = .int number ∧
      ∀ ledger, ∃ expression last,
        (tree.evaluateWith (evaluator.valuation resolver view loop)).outcome ledger =
          (.ok expression, last) ∧
        expression.evaluate (fun name => some (environment name)) = .ok number := by
  have emitter : (evaluator.valuation resolver view loop).emitter = .symbolic := by
    cases evaluator with
    | concrete => exact late.emitter
    | extreme mode => exact late.emitter
  have immediate text node (member : (text, node) ∈ tree.terminals) :
      ((evaluator.valuation (resolver.settle environment) settledView loop).terminal text
        node).IsImmediate :=
    evaluator.isImmediate_settled late (avoids text node member)
  obtain ⟨rfl, _⟩ := BinaryTree.evaluateWith_settled (evaluator.reads _ _ _) immediate
    exactly.self returned
  have yields := BinaryTree.evaluateWith_yields emitter (evaluator.reads _ _ _)
    (evaluator.reads _ _ _) immediate
    (fun text node member nonneg evaluated =>
      evaluator.yields_terminal late nonneg evaluated (avoids text node member))
    exactly returned
  refine ⟨_, rfl, ?_⟩
  intro ledger
  obtain ⟨expression, last, finished, means⟩ := yields ledger
  exact ⟨expression, last, finished, means.evaluate⟩

/-- With a runtime argument the greatest address is an expression, which comes to 508
where the argument is 128. -/
theorem evaluate_late_rowMajor :
    ∃ expression last,
      (BinaryTree.rowMajor.evaluateWith ((Evaluator.extreme .greatest).valuation
        (Resolver.sample (.runtime (.var "n"))) none (.integer 0))).outcome {} =
          (.ok expression, last) ∧
      expression.evaluate (fun _ => some 128) = .ok 508 := by
  have late : (Resolver.sample (.runtime (.var "n"))).IsLate := by
    refine ⟨rfl, rfl, ?_, ?_⟩
    · intro index
      cases index with
      | thread axis => cases axis <;> trivial
      | block axis => cases axis <;> trivial
    · intro entry member
      cases List.mem_singleton.mp member
      trivial
  have avoids text node (member : (text, node) ∈ BinaryTree.rowMajor.terminals) :
      (Evaluator.extreme .greatest).Avoids node := by
    intro other id same
    subst same
    simp [BinaryTree.rowMajor, BinaryTree.terminals] at member
  have exact {tree : BinaryTree} (value : Int)
      (computed : ∀ ledger, (tree.evaluateWith ((Evaluator.extreme .greatest).valuation
        ((Resolver.sample (.runtime (.var "n"))).settle (fun _ => 128)) none
          (.integer 0))).outcome ledger = (.ok (.int value), ledger))
      (bounded : 0 ≤ value ∧ value < 2 ^ 63 ∧
        value = tree.exact (Evaluator.extreme .greatest).reading
          ((Evaluator.extreme .greatest).number
            ((Resolver.sample (.runtime (.var "n"))).settle (fun _ => 128)))) :=
    BinaryTree.isExact_of_outcome computed bounded.1 bounded.2.1 bounded.2.2
  have root (ledger : Ledger) : (BinaryTree.rowMajor.evaluateWith
      ((Evaluator.extreme .greatest).valuation
        ((Resolver.sample (.runtime (.var "n"))).settle (fun _ => 128)) none
          (.integer 0))).outcome ledger = (.ok (.int 508), ledger) := by cbv
  obtain ⟨number, same, yields⟩ := evaluate_late (.extreme .greatest) late (fun _ => 128) none none
    (.integer 0) avoids
    ⟨exact 508 root (by decide),
      ⟨exact 384 (by intro ledger; cbv) (by decide), exact 3 (by intro ledger; cbv) (by decide),
        exact 128 (by intro ledger; cbv) (by decide)⟩,
      exact 124 (by intro ledger; cbv) (by decide), exact 31 (by intro ledger; cbv) (by decide),
      exact 2 (by intro ledger; cbv) (by decide)⟩ (root {})
  cases same
  exact yields {}

end KernelFootprint
