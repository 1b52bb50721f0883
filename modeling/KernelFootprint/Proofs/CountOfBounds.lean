import KernelFootprint.Proofs.Joining
import KernelFootprint.Proofs.Provenance
import Mathlib

/-!
# Counts and bounds

The iteration count of a loop is evaluated from a tree that its bounds and its step are put
together in, the bounds are evaluated by themselves and kept. Where all of these are known
integers the count is the one that they lead to: an integer stands for integers at all the
terminals of its tree, and these are the same whenever the tree is evaluated again, as the
lower bounds behind them are kept.
-/

namespace KernelFootprint

open Analysis

namespace BinaryTree

variable {valuation : Valuation} {text : String} {operation : Operation}
  {left right tree : BinaryTree} {ledger middle last after : Ledger} {first second : Value}
  {value : Int}

/-- An operation reduces the two values that its operands evaluate to one after the other. -/
theorem outcome_evaluateWith_branch
    (onLeft : (left.evaluateWith valuation).outcome ledger = (.ok first, middle))
    (onRight : (right.evaluateWith valuation).outcome middle = (.ok second, last)) :
    ((branch text operation left right).evaluateWith valuation).outcome ledger =
      (valuation.apply text operation first second).outcome last := by
  have reduced := evaluateWith_eq_ok.mp onLeft
  have otherReduced := evaluateWith_eq_ok.mp onRight
  rw [evaluateWith, operand, bind_assoc, outcome_bind, reduced]
  dsimp only
  rw [bind_assoc, outcome_bind, otherReduced]
  simp [Operand.asOperandOf, Operand.asResult]

/-- A tree with known integers at its terminals, of which its operations make another one. -/
inductive Settles (valuation : Valuation) : BinaryTree → Int → Prop
  | terminal {text : Datum} {node : Terminal} {value : Int}
      (known : valuation.terminal text node = pure (.int value)) :
      Settles valuation (.leaf text (.terminal node)) value
  | branch {text : String} {operation : Operation} {left right : BinaryTree}
      {first second value : Int} (onLeft : Settles valuation left first)
      (onRight : Settles valuation right second)
      (applied : valuation.apply text operation (.int first) (.int second) =
        pure (.int value)) :
      Settles valuation (.branch text operation left right) value

end BinaryTree

namespace RangeContext

variable {text : String} {operation : Operation} {first second : Value} {ledger after : Ledger}
  {value : Int}

/-- Under a deferring emitter integers come from integers only, and without requests. -/
theorem apply_eq_int (context : RangeContext) (deferring : context.emitter.IsDeferring)
    (applied : (context.valuation.apply text operation first second).outcome ledger =
      (.ok (.int value), after)) :
    ∃ a b, first = .int a ∧ second = .int b ∧ after = ledger ∧
      context.valuation.apply text operation (.int a) (.int b) = pure (.int value) := by
  have combined {op : WordOp}
      (same : context.valuation.apply text operation = context.emitter.combine op) :
      ∃ a b, first = .int a ∧ second = .int b ∧ after = ledger ∧
        context.valuation.apply text operation (.int a) (.int b) = pure (.int value) := by
    rw [same] at applied ⊢
    obtain ⟨a, b, rfl, rfl, folded⟩ := Emitter.combine_eq_int deferring applied
    rw [Emitter.combine_of_fold _ folded] at applied
    cases applied
    exact ⟨a, b, rfl, rfl, rfl, Emitter.combine_of_fold _ folded⟩
  by_cases isMerge : operation = .phi
  · subst isMerge
    exact combined rfl
  cases read : operation.wordOp? with
  | some op => exact combined (funext₂ (BinaryTree.apply_of_wordOp? read text))
  | none =>
      rw [BinaryTree.apply_of_wordOp?_none isMerge read] at applied
      cases applied

end RangeContext

namespace LoopNest

variable {nest : LoopNest} {record : LoopRecord} {known ledger before after : Ledger}
  {tree : BinaryTree} {value : Int} {budget : Nat}

/-- What the terminals of a bound are worth if the lower bounds behind them are looked up. -/
def settled (nest : LoopNest) (known : Ledger) (record : LoopRecord) : BinaryTree.Valuation :=
  (nest.boundContext (nest.lookUp known (.bound .initial)) record).valuation

theorem lookUp_eq_pure {loop : Datum} {number : Int} {quantity : LoopQuantity} {value : Value}
    (named : nest.entry loop = .ok (number, record))
    (found : Register.find number (known.kept quantity) = some value) :
    nest.lookUp known quantity loop = pure value := by
  unfold lookUp
  rw [named]
  simp [found]

/-- A terminal of a bound is worth the same in all ledgers, or it is the lower bound of a
loop. -/
theorem terminal_cases (nest : LoopNest) (record : LoopRecord) (text : Datum) (node : Terminal) :
    (∃ outcome, ∀ lowerBound,
        (nest.boundContext lowerBound record).terminal text node = Analysis.ofExcept outcome) ∨
      ∃ loop, ∀ lowerBound,
        (nest.boundContext lowerBound record).terminal text node = lowerBound loop := by
  rcases given : nest.resolver.unknown? text with fault | _ | value
  · exact .inl ⟨.error fault, fun _ => RangeContext.terminal_of_error given node⟩
  · have read (lowerBound : Datum → Analysis Value) :
        (nest.boundContext lowerBound record).terminal text node =
          (nest.boundContext lowerBound record).intrinsic text node :=
      RangeContext.terminal_of_not_given given node
    cases node with
    | phiTerm id =>
        by_cases outside : isOutsideLoops (nest.loopOf id (.integer record.parent)) = true
        · refine .inl ⟨.ok 1, fun lowerBound => ?_⟩
          rw [read]
          exact if_pos outside
        · refine .inr ⟨nest.loopOf id (.integer record.parent), fun lowerBound => ?_⟩
          rw [read]
          exact if_neg outside
    | thread axis => exact .inl ⟨.ok 0, read⟩
    | block axis => exact .inl ⟨.ok 0, read⟩
    | incomplete => exact .inl ⟨.error Indeterminate.incompleteExpression, read⟩
    | constant number =>
        exact .inl ⟨nest.resolver.resolve text (.terminal (.constant number)), read⟩
    | argument formal =>
        exact .inl ⟨nest.resolver.resolve text (.terminal (.argument formal)), read⟩
    | blockSize axis =>
        exact .inl ⟨nest.resolver.resolve text (.terminal (.blockSize axis)), read⟩
  · exact .inl ⟨.ok value, fun _ => RangeContext.terminal_of_given given node⟩

/-- A terminal has its value again once the lower bound behind it is kept. -/
theorem terminal_settled {text : Datum} {node : Terminal} {value : Value}
    (evaluated : ((nest.boundContext (nest.lowerBoundWithin budget) record).terminal text
      node).outcome before = (.ok value, after))
    (within : Register.IsWithin after.lowerBounds known.lowerBounds) :
    (nest.settled known record).terminal text node = pure value := by
  change (nest.boundContext (nest.lookUp known (.bound .initial)) record).terminal text node = _
  rcases nest.terminal_cases record text node with ⟨outcome, same⟩ | ⟨loop, same⟩
  · rw [same, outcome_ofExcept] at evaluated
    rw [same, (Prod.mk.inj evaluated).1]
    rfl
  · rw [same] at evaluated
    rw [same]
    cases budget with
    | zero => cases evaluated
    | succ budget =>
        rw [lowerBoundWithin_succ] at evaluated
        rcases named : nest.entry loop with fault | ⟨number, found⟩
        · rw [ask_of_error named] at evaluated
          cases evaluated
        · exact lookUp_eq_pure named (within number value (find_of_ask named evaluated))

/-- A settled terminal has its value wherever as many lower bounds are kept. -/
theorem outcome_terminal_of_settled {text : Datum} {node : Terminal} {value : Value}
    (settled : (nest.settled known record).terminal text node = pure value)
    (within : Register.IsWithin known.lowerBounds ledger.lowerBounds) :
    ((nest.boundContext (nest.lowerBoundWithin (budget + 1)) record).terminal text
      node).outcome ledger = (.ok value, ledger) := by
  change (nest.boundContext (nest.lookUp known (.bound .initial)) record).terminal text node = _
    at settled
  rcases nest.terminal_cases record text node with ⟨outcome, same⟩ | ⟨loop, same⟩
  · rw [same] at settled ⊢
    rw [settled]
    rfl
  · rw [same] at settled ⊢
    have given : (nest.lookUp known (.bound .initial) loop).Gives value := by
      rw [settled]
      exact fun _ => rfl
    obtain ⟨number, found, named, kept⟩ := gives_lookUp.mp given
    rw [lowerBoundWithin_succ]
    exact outcome_ask_kept named (within number value kept)

/-- Evaluating trees of bounds keeps what is kept. -/
theorem isWithin_of_outcome {outcome : Except Fault Value}
    (evaluated : ((nest.boundContext (nest.lowerBoundWithin budget) record).ofBinary tree).outcome
      before = (outcome, after)) :
    Register.IsWithin before.lowerBounds after.lowerBounds := by
  have onward : nest.Advances before
      (((nest.boundContext (nest.lowerBoundWithin budget) record).ofBinary tree).outcome
        before).2 :=
    keeps_boundContext nest.isPassage_advances (keeps_advances_lowerBoundWithin budget) record
      tree before
  rw [evaluated] at onward
  exact onward.within (.bound .initial)

theorem isWithin_of_apply {text : String} {operation : Operation} {first second : Value}
    {outcome : Except Fault Value}
    (applied : ((nest.boundContext (nest.lowerBoundWithin budget) record).valuation.apply text
      operation first second).outcome before = (outcome, after)) :
    Register.IsWithin before.lowerBounds after.lowerBounds := by
  let valuation := (nest.boundContext (nest.lowerBoundWithin budget) record).valuation
  have onward := @BinaryTree.related_apply _ valuation valuation
    (Emitter.isExtensible_keeps nest.isPassage_advances _) rfl
    (fun _ _ _ => Emitter.keeps_combine nest.isPassage_advances _ _ _ _) text operation first
    second before
  rw [applied] at onward
  exact onward.within (.bound .initial)

/-- A tree that has come to an integer is settled once the lower bounds are kept. -/
theorem settles_of_outcome (deferring : nest.resolver.emitter.IsDeferring)
    (evaluated : ((nest.boundContext (nest.lowerBoundWithin budget) record).ofBinary tree).outcome
      before = (.ok (.int value), after))
    (within : Register.IsWithin after.lowerBounds known.lowerBounds) :
    tree.Settles (nest.settled known record) value := by
  induction tree generalizing before after value with
  | leaf text symbol =>
      cases symbol with
      | structural node => cases evaluated
      | terminal node =>
          rw [RangeContext.ofBinary, BinaryTree.evaluateWith_terminal] at evaluated
          exact .terminal (terminal_settled evaluated within)
  | branch text operation left right leftIH rightIH =>
      obtain ⟨first, middle, second, last, leftEvaluated, rightEvaluated, applied⟩ :=
        BinaryTree.evaluateWith_branch_eq_ok.mp evaluated
      obtain ⟨a, b, rfl, rfl, rfl, folded⟩ := RangeContext.apply_eq_int
        (nest.boundContext (nest.lowerBoundWithin budget) record) deferring applied
      -- What the left operand has asked for is still kept after the right one.
      have onward := isWithin_of_outcome rightEvaluated
      exact .branch (leftIH leftEvaluated (onward.trans within)) (rightIH rightEvaluated within)
        folded

/-- A settled tree has its integer wherever as many lower bounds are kept. -/
theorem outcome_of_settles (settles : tree.Settles (nest.settled known record) value)
    (within : Register.IsWithin known.lowerBounds ledger.lowerBounds) :
    ((nest.boundContext (nest.lowerBoundWithin (budget + 1)) record).ofBinary tree).outcome
      ledger = (.ok (.int value), ledger) := by
  induction settles with
  | terminal settled =>
      rw [RangeContext.ofBinary, BinaryTree.evaluateWith_terminal]
      exact outcome_terminal_of_settled settled within
  | branch _ _ applied leftIH rightIH =>
      refine (BinaryTree.outcome_evaluateWith_branch leftIH rightIH).trans ?_
      exact congrFun applied ledger

/-- A settled tree has never come to anything but its integer. -/
theorem eq_of_settles (settles : tree.Settles (nest.settled known record) value) {result : Value}
    (evaluated : ((nest.boundContext (nest.lowerBoundWithin budget) record).ofBinary tree).outcome
      before = (.ok result, after))
    (within : Register.IsWithin after.lowerBounds known.lowerBounds) : result = .int value := by
  induction settles generalizing before after result with
  | terminal settled =>
      rw [RangeContext.ofBinary, BinaryTree.evaluateWith_terminal] at evaluated
      have again := congrFun ((terminal_settled evaluated within).symm.trans settled) ({} : Ledger)
      cases again
      rfl
  | branch _ _ applied leftIH rightIH =>
      obtain ⟨first, middle, second, last, leftEvaluated, rightEvaluated, rest⟩ :=
        BinaryTree.evaluateWith_branch_eq_ok.mp evaluated
      have onward := isWithin_of_outcome rightEvaluated
      have further := isWithin_of_apply rest
      cases leftIH leftEvaluated (onward.trans (further.trans within))
      cases rightIH rightEvaluated (further.trans within)
      have again := (congrFun applied last).symm.trans rest
      cases again
      rfl

/-- A bound that is evaluated is that of its tree, evaluated with the loop marked. -/
theorem ofBinary_of_evaluateBound {lowerBound : Datum → Analysis Value} {quantity : LoopQuantity}
    {value : Value}
    (evaluated : (nest.evaluateBound lowerBound record quantity tree).outcome ledger =
      (.ok value, after)) :
    ∃ middle, ((nest.boundContext lowerBound record).ofBinary tree).outcome
        { ledger with active := record.id :: ledger.active } = (.ok value, middle) ∧
      after.lowerBounds = middle.lowerBounds := by
  rw [outcome_evaluateBound] at evaluated
  split at evaluated
  · cases evaluated
  · obtain ⟨mapped, rfl⟩ := Prod.mk.inj evaluated
    refine ⟨(nest.evaluateMarked lowerBound record tree ledger).2, ?_, rfl⟩
    rcases found : nest.evaluateMarked lowerBound record tree ledger with ⟨fault | result, middle⟩
    · rw [found] at mapped
      cases mapped
    · rw [found] at mapped
      cases mapped
      exact found

variable {loop : Datum} {number : Int} {which : Bound}

/-- The tree of a bound that is kept as an integer is settled. -/
theorem settles_of_kept (deferring : nest.resolver.emitter.IsDeferring)
    (traceable : nest.IsTraceable ledger) (named : nest.entry loop = .ok (number, record))
    (kept : Register.find number (ledger.kept (.bound which)) = some (.int value)) :
    ∃ tree, boundTree record which = .ok tree ∧
      ∀ known : Ledger, Register.IsWithin ledger.lowerBounds known.lowerBounds →
        tree.Settles (nest.settled known record) value := by
  obtain ⟨first, found, budget, start, last, firstNamed, computed, within⟩ :=
    traceable _ number _ kept
  cases entry_unique firstNamed named
  obtain ⟨tree, middle, built, evaluated⟩ := outcome_bind_eq_ok.mp computed
  rw [outcome_ofExcept] at built
  obtain ⟨inner, onTree, same⟩ := ofBinary_of_evaluateBound evaluated
  refine ⟨tree, (Prod.mk.inj built).1, fun known larger => ?_⟩
  exact settles_of_outcome deferring onTree (same ▸ within.trans larger)

/-- The tree of a step, one if it is missing. -/
def stepTree (record : LoopRecord) : BinaryTree := record.step.getD (.constant 1)

/-- The tree of a count is put together from those of the bounds and of the step. -/
theorem iterationTree_eq {initial final : BinaryTree} (named : nest.record loop = .ok record)
    (started : boundTree record .initial = .ok initial)
    (ended : boundTree record .final = .ok final)
    (analyzable : ∀ step, record.step = some step → step.isSentinel = false) :
    nest.iterationTree loop =
      .ok (.combine .sdiv (.combine .sub final initial) (stepTree record)) := by
  rw [iterationTree, named, stepTree]
  simp only [bind, Except.bind, started, ended]
  cases found : record.step with
  | none => rfl
  | some step => simp [analyzable step found, pure, Except.pure]

theorem compute_count {evaluate : BoundEvaluation} (counted : record.knownCount = .null)
    (made : nest.iterationTree loop = .ok tree) :
    nest.compute evaluate .iterationCount loop record = (do
      return nest.clamp (← evaluate record .iterationCount tree)) := by
  simp only [compute, counted, made, Analysis.ofExcept_ok, pure_bind]

/-- The count that the distance between the bounds and a step lead to. -/
def countBetween (nest : LoopNest) (record : LoopRecord) (distance step : Int) :
    Except Fault Value :=
  if step = 0 then
    .error (obstructed record
      (.cannotEvaluate .iterationCount (.divisionByZero (toString distance))))
  else .ok (nest.clamp (.int (wrapWide (distance.tdiv step))))

variable {initial final distance step : BinaryTree} {lo hi d s : Int}

theorem settles_distance (onFinal : final.Settles (nest.settled known record) hi)
    (onInitial : initial.Settles (nest.settled known record) lo) :
    (BinaryTree.combine .sub final initial).Settles (nest.settled known record)
      (wrapWide (hi - lo)) :=
  .branch onFinal onInitial (nest.resolver.emitter.combine_of_fold (WordOp.fold_sub hi lo))

/-- A count that is kept already is the one that the settled trees lead to. -/
theorem countBetween_of_kept (traceable : nest.IsTraceable ledger)
    (named : nest.entry loop = .ok (number, record)) (counted : record.knownCount = .null)
    (made : ∀ other, nest.record other = .ok record →
      nest.iterationTree other = .ok (.combine .sdiv distance step)) {count : Value}
    (kept : Register.find number ledger.iterationCounts = some count)
    (within : Register.IsWithin ledger.lowerBounds known.lowerBounds)
    (onDistance : distance.Settles (nest.settled known record) d)
    (onStep : step.Settles (nest.settled known record) s) :
    nest.countBetween record d s = .ok count := by
  obtain ⟨first, found, budget, start, last, firstNamed, computed, before⟩ :=
    traceable .iterationCount number count kept
  cases entry_unique firstNamed named
  rw [compute_count counted (made first (record_eq_ok.mpr ⟨number, firstNamed⟩))] at computed
  obtain ⟨raw, middle, evaluated, returned⟩ := outcome_bind_eq_ok.mp computed
  cases returned
  obtain ⟨inner, onTree, same⟩ := ofBinary_of_evaluateBound evaluated
  -- The count was kept by an earlier evaluation, whose operands cannot have come to other values.
  obtain ⟨left, between, right, after, leftRan, rightRan, applied⟩ :=
    BinaryTree.evaluateWith_branch_eq_ok.mp onTree
  have afterKnown : Register.IsWithin after.lowerBounds known.lowerBounds :=
    (isWithin_of_apply applied).trans (same ▸ before.trans within)
  cases eq_of_settles onDistance leftRan ((isWithin_of_outcome rightRan).trans afterKnown)
  cases eq_of_settles onStep rightRan afterKnown
  obtain ⟨quotient, folded, rfl, -⟩ :=
    @Emitter.fold_of_combine nest.resolver.emitter .sdiv d s raw after inner applied
  rw [WordOp.fold, WordOp.exact] at folded
  split at folded
  · cases folded
  · next nonzero =>
      cases folded
      rw [countBetween, if_neg nonzero]
      rfl

/-- A count that is not kept yet is evaluated as the settled trees say. -/
theorem outcome_of_missing (short : Text.hasNumeral d = true)
    (named : nest.entry loop = .ok (number, record))
    (counted : record.knownCount = .null)
    (made : nest.iterationTree loop = .ok (.combine .sdiv distance step))
    (missing : Register.find number ledger.iterationCounts = none)
    (inactive : record.id ∉ ledger.active)
    (onDistance : distance.Settles (nest.settled ledger record) d)
    (stepped : ((nest.boundContext nest.lowerBound record).ofBinary step).outcome
      { ledger with active := record.id :: ledger.active } = (.ok (.int s), after)) :
    ((nest.iterationCount loop).outcome ledger).1 = nest.countBetween record d s := by
  have ran : nest.evaluateMarked nest.lowerBound record (.combine .sdiv distance step) ledger =
      ((WordOp.sdiv.fold .wide d s).map .int, after) := by
    have onFirst := @outcome_of_settles nest record ledger
      { ledger with active := record.id :: ledger.active } distance d nest.kernel.loops.length
      onDistance (Register.isWithin_refl _)
    exact (BinaryTree.outcome_evaluateWith_branch onFirst stepped).trans
      (outcome_ofExcept _ after)
  have evaluated := @outcome_evaluateBound nest nest.lowerBound record .iterationCount
    (.combine .sdiv distance step) ledger
  rw [if_neg (by simpa using inactive), ran] at evaluated
  have unkept : Register.find number (ledger.kept .iterationCount) = none := missing
  rw [iterationCount_eq, outcome_ask_missing named unkept, compute_count counted made,
    outcome_bind, evaluated, countBetween, WordOp.fold, WordOp.exact]
  by_cases isZero : s = 0
  · rw [if_pos isZero, if_pos isZero, WordOp.divisionFault_of_hasNumeral short]
    rfl
  · rw [if_neg isZero, if_neg isZero]
    rfl

/-- A missing step evaluates to one, unless there is a value for the token of that one. -/
theorem outcome_missingStep (inactive : record.id ∉ ledger.active) (missing : record.step = none)
    (ungiven : nest.resolver.unknown? (.text "1") = .ok none) :
    (nest.evaluateBound nest.lowerBound record .iterationCount (stepTree record)).outcome ledger =
      (.ok 1, ledger) := by
  have literal : ((nest.boundContext nest.lowerBound record).ofBinary (.constant 1)).outcome
      { ledger with active := record.id :: ledger.active } =
        (.ok 1, { ledger with active := record.id :: ledger.active }) := by
    have text : toString (1 : Int) = "1" := rfl
    rw [RangeContext.ofBinary, BinaryTree.constant, BinaryTree.evaluateWith_terminal, text]
    change ((nest.boundContext nest.lowerBound record).terminal _ _).outcome _ = _
    rw [RangeContext.terminal_of_not_given ungiven]
    change (Analysis.ofExcept (nest.resolver.resolve _ _)).outcome _ = _
    rw [Resolver.resolve, ungiven]
    rfl
  rw [outcome_evaluateBound, if_neg (by simpa using inactive), stepTree, missing,
    Option.getD_none, evaluateMarked, literal]
  simp [Except.mapError]

/-- Once both bounds of a loop have been returned, its count is the one that they and its step
lead to, where a missing step is one unless there is a value for the token of that one. This
is so because an operation on two trees reduces what the trees evaluate to. -/
theorem iterationCount_of_bounds (deferring : nest.resolver.emitter.IsDeferring)
    (named : nest.record loop = .ok record) (counted : record.knownCount = .null)
    (analyzable : ∀ step, record.step = some step → step.isSentinel = false)
    (lower : nest.HasReturned (.lowerBound loop) (.int lo) ledger)
    (upper : nest.HasReturned (.upperBound loop) (.int hi) ledger) :
    (∀ s after, (nest.evaluateBound nest.lowerBound record .iterationCount
        (stepTree record)).outcome ledger = (.ok (.int s), after) →
      ((nest.iterationCount loop).outcome ledger).1 =
        nest.countBetween record (wrapWide (hi - lo)) s) ∧
    (record.step = none → nest.resolver.unknown? (.text "1") = .ok none →
      (nest.evaluateBound nest.lowerBound record .iterationCount (stepTree record)).outcome
        ledger = (.ok 1, ledger)) ∧
    ∀ operation (left right : BinaryTree),
      Arena.combine (.operation operation) left.table right.table =
        .ok (BinaryTree.combine operation left right).table ∧
      ∀ valuation (before middle last : Ledger) first second,
        (left.evaluateWith valuation).outcome before = (.ok first, middle) →
        (right.evaluateWith valuation).outcome middle = (.ok second, last) →
        ((BinaryTree.combine operation left right).evaluateWith valuation).outcome before =
          (valuation.apply operation.name operation first second).outcome last := by
  obtain ⟨number, entered⟩ := record_eq_ok.mp named
  have traceable := lower.reachable.isTraceable
  have inactive : record.id ∉ ledger.active := by
    rw [lower.reachable.active_eq_nil]
    exact List.not_mem_nil
  refine ⟨?_, outcome_missingStep inactive, fun operation left right =>
    ⟨BinaryTree.combine_table operation left right, ?_⟩⟩
  · intro s after stepped
    obtain ⟨initial, started, onInitial⟩ :=
      settles_of_kept deferring traceable entered (lower.find entered (nest.lowerBound_eq loop))
    obtain ⟨final, ended, onFinal⟩ :=
      settles_of_kept deferring traceable entered (upper.find entered (nest.upperBound_eq loop))
    have made {other : Datum} (otherNamed : nest.record other = .ok record) :
        nest.iterationTree other =
          .ok (.combine .sdiv (.combine .sub final initial) (stepTree record)) :=
      iterationTree_eq otherNamed started ended analyzable
    have onDistance {known : Ledger}
        (within : Register.IsWithin ledger.lowerBounds known.lowerBounds) :=
      settles_distance (onFinal known within) (onInitial known within)
    obtain ⟨middle, onStep, -⟩ := ofBinary_of_evaluateBound stepped
    cases kept : Register.find number ledger.iterationCounts with
    | some count =>
        have within := isWithin_of_outcome onStep
        have derived := countBetween_of_kept traceable entered counted (fun other => made) kept
          within (onDistance within)
          (settles_of_outcome deferring onStep (Register.isWithin_refl _))
        have found : Register.find number (ledger.kept .iterationCount) = some count := kept
        rw [derived, iterationCount_eq, outcome_ask_kept entered found]
    | none =>
        exact outcome_of_missing (hasNumeral_wrapWide _) entered counted (made named) kept inactive
          (onDistance (Register.isWithin_refl _)) onStep
  · intro valuation before middle last first second onLeft onRight
    exact BinaryTree.outcome_evaluateWith_branch onLeft onRight

/-- A loop from zero to twelve with a step, and values for tokens. -/
def upToTwelve (step : Option BinaryTree) (unknowns : List (Datum × Value)) : LoopNest where
  kernel :=
    { name := .text "kernel"
      loops :=
        [(1, { kernel := .text "kernel", id := 1, parent := 0, initial := some (.constant 0)
               final := some (.constant 12), step := step, knownCount := .null
               buildErrors := [] })] }
  resolver := (Resolver.sample (.constant 128)).given unknowns
  settings := {}

/-- The ledger after both bounds of the loop. -/
def afterBounds (nest : LoopNest) : Ledger :=
  ((LoopCall.upperBound (.integer 1)).run nest |>.outcome
    ((LoopCall.lowerBound (.integer 1)).run nest |>.outcome {}).2).2

/-- A step of five leads to two iterations. -/
theorem iterationCount_upToTwelve :
    ((upToTwelve (some (.constant 5)) []).iterationCount (.integer 1) |>.outcome
      (upToTwelve (some (.constant 5)) []).afterBounds).1 = .ok 2 := by
  have first : (upToTwelve (some (.constant 5)) []).HasReturned (.lowerBound (.integer 1))
      (.int 0) _ := .now (.fresh []) rfl
  have lower : (upToTwelve (some (.constant 5)) []).HasReturned (.lowerBound (.integer 1))
      (.int 0) (upToTwelve (some (.constant 5)) []).afterBounds :=
    .call (.upperBound (.integer 1)) first
  have upper : (upToTwelve (some (.constant 5)) []).HasReturned (.upperBound (.integer 1))
      (.int 12) (upToTwelve (some (.constant 5)) []).afterBounds :=
    .now first.reachable rfl
  have analyzable : ∀ step, some (BinaryTree.constant 5) = some step →
      step.isSentinel = false := by
    intro step same
    cases same
    rfl
  obtain ⟨counts, -⟩ := iterationCount_of_bounds Emitter.isDeferring_symbolic rfl rfl analyzable
    lower upper
  exact (counts 5 _ (by cbv)).trans (by cbv)

/-- The step is missing and the token of a one has the value three: the bounds and a step of
one lead to twelve iterations, but the count is four. -/
theorem iterationCount_ne_of_unknown :
    ∃ record, (upToTwelve none [(.text "1", 3)]).record (.integer 1) = .ok record ∧
      record.knownCount = .null ∧ record.step = none ∧
      (upToTwelve none [(.text "1", 3)]).HasReturned (.lowerBound (.integer 1)) (.int 0)
        (upToTwelve none [(.text "1", 3)]).afterBounds ∧
      (upToTwelve none [(.text "1", 3)]).HasReturned (.upperBound (.integer 1)) (.int 12)
        (upToTwelve none [(.text "1", 3)]).afterBounds ∧
      ((upToTwelve none [(.text "1", 3)]).iterationCount (.integer 1) |>.outcome
        (upToTwelve none [(.text "1", 3)]).afterBounds).1 = .ok 4 ∧
      (upToTwelve none [(.text "1", 3)]).countBetween record (wrapWide (12 - 0)) 1 =
        .ok 12 := by
  have first : (upToTwelve none [(.text "1", 3)]).HasReturned (.lowerBound (.integer 1))
      (.int 0) _ := .now (.fresh []) rfl
  exact ⟨_, rfl, rfl, rfl, .call (.upperBound (.integer 1)) first, .now first.reachable rfl,
    by cbv, by cbv⟩

end LoopNest

end KernelFootprint
