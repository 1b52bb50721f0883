import KernelFootprint.Proofs.Quantity
import KernelFootprint.Proofs.Recurrence
import KernelFootprint.Proofs.Turns

/-!
# The ledger through an estimation

All that an estimation does to the ledger is to make requests and to ask for quantities of
loops. Hence a relation between ledgers that requests and such questions keep holds from the
beginning of an estimation to any later point of it. Whatever fails in between does not
matter, as failures leave a ledger behind, too.
-/

namespace KernelFootprint

open Analysis Estimation

variable {related : Ledger → Ledger → Prop}

namespace Analysis

variable {First Second : Type}

theorem keeps_foldlM (passage : IsPassage related) {step : First → Second → Analysis First}
    (items : List Second) (each : ∀ item ∈ items, ∀ total, Keeps related (step total item))
    (total : First) : Keeps related (items.foldlM step total) := by
  induction items generalizing total with
  | nil => exact keeps_pure passage total
  | cons first rest ih =>
      obtain ⟨onFirst, onRest⟩ := List.forall_mem_cons.mp each
      rw [List.foldlM_cons]
      exact (onFirst total).bind passage (ih onRest)

end Analysis

theorem Resolver.keeps_evaluate (passage : IsPassage related) (resolver : Resolver)
    (tree : BinaryTree) : Keeps related (resolver.evaluate tree) :=
  @BinaryTree.related_evaluateWith _ resolver.concrete resolver.concrete
    (Emitter.isExtensible_keeps passage resolver.emitter) rfl tree
    (fun _ _ _ => keeps_ofExcept passage _) (fun _ _ _ => keeps_fail passage _)

namespace Stride

variable {Tree : Type} {valuation : Valuation Tree}

theorem keeps_multiply (passage : IsPassage related)
    (values : ∀ site, Keeps related (valuation.value site)) (total : Value)
    (factor : Factor Tree) : Keeps related (multiply valuation total factor) := by
  have multiplied (value : Value) :
      Keeps related (valuation.emitter.combine .mul total value) :=
    Emitter.keeps_combine passage _ _ _ _
  refine (values factor.site).bind passage (fun value => ?_)
  dsimp only
  split
  · exact (Emitter.keeps_combine passage _ _ _ _).bind passage multiplied
  · exact (keeps_pure passage value).bind passage multiplied

theorem keeps_coefficient (passage : IsPassage related)
    (values : ∀ site, Keeps related (valuation.value site)) (place : Place Tree) :
    Keeps related (coefficient valuation place) := by
  refine (keeps_ofExcept passage _).bind passage (fun factors => ?_)
  refine (keeps_foldlM passage factors
    (fun factor _ total => keeps_multiply passage values total factor) 1).bind passage ?_
  intro product
  refine (keeps_ofExcept passage _).bind passage (fun divisors => ?_)
  refine keeps_foldlM passage divisors (fun divisor _ total => ?_) product
  exact (values divisor).bind passage (fun _ => Emitter.keeps_combine passage _ _ _ _)

theorem keeps_along (passage : IsPassage related)
    (values : ∀ site, Keeps related (valuation.value site)) (places : List (Place Tree))
    (kind : Kind) (arg : Datum) : Keeps related (along valuation places kind arg) :=
  keeps_foldlM passage _ (fun place _ _ => (keeps_coefficient passage values place).bind passage
    (fun _ => Emitter.keeps_combine passage _ _ _ _)) 0

theorem keeps_addRecurrence (passage : IsPassage related)
    (values : ∀ site, Keeps related (valuation.value site)) (places : List (Place Tree))
    (total : Value) (merge : Place Tree) :
    Keeps related (addRecurrence valuation places total merge) := by
  refine (keeps_ofExcept passage _).bind passage (fun terms => ?_)
  cases terms with
  | nil => exact keeps_pure passage total
  | cons term rest =>
      refine (keeps_ofExcept passage _).bind passage (fun (siblings, _) => ?_)
      refine (keeps_foldlM passage siblings (fun sibling _ _ => (values sibling).bind passage
        (fun _ => Emitter.keeps_combine passage _ _ _ _)) 0).bind passage (fun step => ?_)
      refine (keeps_coefficient passage values merge).bind passage (fun stride => ?_)
      refine (Emitter.keeps_combine passage _ _ _ _).bind passage (fun product => ?_)
      exact Emitter.keeps_combine passage _ _ _ _

theorem keeps_alongLoops (passage : IsPassage related)
    (values : ∀ site, Keeps related (valuation.value site)) (places : List (Place Tree)) :
    Keeps related (alongLoops valuation places) :=
  keeps_foldlM passage _
    (fun merge _ total => keeps_addRecurrence passage values places total merge) 0

end Stride

namespace RangeContext

variable {context : RangeContext}

/-- Bounds of loops keep a relation, if there is knowledge about loops at all. -/
def KeepsBounds (related : Ledger → Ledger → Prop) (context : RangeContext) : Prop :=
  ∀ scope, context.phis = some scope → ∀ loop, Keeps related (scope.bound loop)

theorem KeepsBounds.exists_bound (passage : IsPassage related)
    (kept : context.KeepsBounds related) :
    ∃ bound, context.withBounds bound = context ∧ ∀ loop, Keeps related (bound loop) := by
  obtain ⟨resolver, mode, phis, loop⟩ := context
  cases phis with
  | none => exact ⟨fun _ => fail Misuse.unfinished, rfl, fun _ => keeps_fail passage _⟩
  | some scope => exact ⟨scope.bound, rfl, kept scope rfl⟩

theorem KeepsBounds.terminal (passage : IsPassage related) (kept : context.KeepsBounds related)
    (text : Datum) (node : Terminal) : Keeps related (context.terminal text node) := by
  obtain ⟨bound, same, bounds⟩ := kept.exists_bound passage
  rw [← same]
  exact @related_terminal context _ (Emitter.isExtensible_keeps passage context.emitter)
    bound bound node (fun _ _ => bounds _) text

theorem KeepsBounds.ofBinary (passage : IsPassage related) (kept : context.KeepsBounds related)
    (tree : BinaryTree) : Keeps related (context.ofBinary tree) := by
  obtain ⟨bound, same, bounds⟩ := kept.exists_bound passage
  rw [← same]
  exact @related_ofBinary context _ (Emitter.isExtensible_keeps passage context.emitter)
    bound bound tree (fun _ _ _ => bounds _)

end RangeContext

namespace NaryTree

variable {setting : RangeSetting}

/-- The value of a tree and all that is added to its open terms keep a relation. -/
structure Meaning.IsKept (related : Ledger → Ledger → Prop) (meaning : Meaning) : Prop where
  value : Keeps related meaning.value
  addends : ∀ term ∈ meaning.terms, ∀ addend ∈ term.addends, Keeps related addend

theorem mem_withSiblings {before : List (Analysis Value)} {operands : List Meaning}
    {entry : Meaning × List (Analysis Value)} (member : entry ∈ withSiblings before operands) :
    entry.1 ∈ operands ∧ ∀ sibling ∈ entry.2,
      sibling ∈ before ∨ ∃ operand ∈ operands, sibling = operand.value := by
  induction operands generalizing before with
  | nil => cases member
  | cons first rest ih =>
      rcases List.mem_cons.mp member with rfl | inRest
      · refine ⟨List.mem_cons_self .., fun sibling among => ?_⟩
        rcases List.mem_append.mp among with early | late
        · exact .inl early
        · obtain ⟨operand, inside, same⟩ := List.mem_map.mp late
          exact .inr ⟨operand, List.mem_cons_of_mem _ inside, same.symm⟩
      · obtain ⟨inside, siblings⟩ := ih inRest
        refine ⟨List.mem_cons_of_mem _ inside, fun sibling among => ?_⟩
        rcases siblings sibling among with early | ⟨operand, within, same⟩
        · rcases List.mem_append.mp early with before | own
          · exact .inl before
          · exact .inr ⟨first, List.mem_cons_self .., List.mem_singleton.mp own⟩
        · exact .inr ⟨operand, List.mem_cons_of_mem _ within, same⟩

variable {operands : List Meaning}

/-- Neither an operand nor anything that stands beside it breaks the relation. -/
theorem keeps_of_mem_withSiblings (kept : ∀ operand ∈ operands, operand.IsKept related)
    {entry : Meaning × List (Analysis Value)} (member : entry ∈ withSiblings [] operands) :
    entry.1.IsKept related ∧ ∀ sibling ∈ entry.2, Keeps related sibling := by
  obtain ⟨inside, siblings⟩ := mem_withSiblings member
  refine ⟨kept entry.1 inside, fun sibling among => ?_⟩
  rcases siblings sibling among with absent | ⟨operand, within, rfl⟩
  · cases absent
  · exact (kept operand within).value

theorem keeps_of_mem_liftedTerms (kept : ∀ operand ∈ operands, operand.IsKept related)
    {text : String} {symbol : Symbol} {term : OpenTerm (Analysis Value)}
    (member : term ∈ liftedTerms text symbol operands) :
    ∀ addend ∈ term.addends, Keeps related addend := by
  obtain ⟨entry, among, inside⟩ := List.mem_flatMap.mp member
  obtain ⟨below, own, rfl⟩ := List.mem_map.mp inside
  obtain ⟨operandKept, siblingsKept⟩ := keeps_of_mem_withSiblings kept among
  intro addend added
  rcases OpenTerm.mem_addends_lift added with early | sibling
  · exact operandKept.addends below own addend early
  · exact siblingsKept addend sibling

theorem keeps_combineAll (passage : IsPassage related) (op : WordOp)
    {values : List (Analysis Value)} (kept : ∀ value ∈ values, Keeps related value) :
    Keeps related (combineAll setting op values) :=
  (keeps_mapM passage kept).bind passage (fun _ => Emitter.keeps_combineAll passage _ _ _)

theorem keeps_recurrenceValue (passage : IsPassage related)
    (counts : ∀ iterationCount, setting.iterationCount = some iterationCount →
      ∀ loop, Keeps related (iterationCount loop))
    {addends entries : List (Analysis Value)}
    (addendsKept : ∀ addend ∈ addends, Keeps related addend)
    (entriesKept : ∀ entry ∈ entries, Keeps related entry) (text : String) (id : Option Nat) :
    Keeps related (recurrenceValue setting text id addends entries) := by
  refine (keeps_combineAll passage _ entriesKept).bind passage (fun entry => ?_)
  refine (keeps_foldlM passage addends (fun addend member total =>
    (addendsKept addend member).bind passage
      (fun _ => Emitter.keeps_combine passage _ _ _ _)) 0).bind passage (fun increment => ?_)
  dsimp only
  split
  · next iterationCount found =>
      split
      · exact keeps_fail passage _
      · refine (counts iterationCount found _).bind passage (fun count => ?_)
        refine (Emitter.keeps_combine passage _ _ _ _).bind passage (fun drift => ?_)
        refine (Emitter.keeps_combine passage _ _ _ _).bind passage (fun moved => ?_)
        exact Emitter.keeps_combine passage _ _ _ _
  · exact keeps_fail passage _

theorem keeps_mergeValue (passage : IsPassage related)
    (counts : ∀ iterationCount, setting.iterationCount = some iterationCount →
      ∀ loop, Keeps related (iterationCount loop))
    (kept : ∀ operand ∈ operands, operand.IsKept related) (text : String) (id : Option Nat) :
    Keeps related (mergeValue setting text id operands) := by
  have values : ∀ value ∈ operands.map Meaning.value, Keeps related value := by
    intro value member
    obtain ⟨operand, inside, rfl⟩ := List.mem_map.mp member
    exact (kept operand inside).value
  unfold mergeValue
  split
  · exact keeps_combineAll passage _ values
  · next term entries found =>
      obtain ⟨entry, among, inside⟩ := List.mem_flatMap.mp (List.mem_of_mem_head? found)
      obtain ⟨own, ofOperand, same⟩ := List.mem_map.mp inside
      cases same
      obtain ⟨operandKept, siblingsKept⟩ := keeps_of_mem_withSiblings kept among
      split
      · exact keeps_fail passage _
      · split
        · exact keeps_fail passage _
        · exact keeps_recurrenceValue passage counts (operandKept.addends term ofOperand)
            siblingsKept text id

theorem keeps_structuralValue (passage : IsPassage related) {values : List (Analysis Value)}
    (kept : ∀ value ∈ values, Keeps related value) (text : String) (kind : Structural) :
    Keeps related (structuralValue setting text kind values) := by
  have others {first : Analysis Value} {rest : List (Analysis Value)}
      (kept : ∀ value ∈ first :: rest, Keeps related value) : ∀ value ∈ rest, Keeps related value :=
    fun value member => kept value (List.mem_cons_of_mem _ member)
  unfold structuralValue
  dsimp only
  split
  · exact keeps_pure passage _
  · exact keeps_combineAll passage _ (others kept)
  · exact kept _ (List.getLast_mem _)
  · exact keeps_combineAll passage _ (others kept)
  · exact keeps_combineAll passage _ kept
  · split
    · exact kept _ (List.mem_cons_self ..)
    · exact keeps_fail passage _
  · exact keeps_fail passage _

theorem keeps_operationValue (passage : IsPassage related) {values : List (Analysis Value)}
    (kept : ∀ value ∈ values, Keeps related value) (text : String) (operation : Operation) :
    Keeps related (operationValue setting text operation values) := by
  unfold operationValue
  split
  · exact keeps_fail passage _
  · split
    · exact keeps_fail passage _
    · exact keeps_combineAll passage _ kept

theorem isKept_nodeMeaning (passage : IsPassage related)
    (bounds : setting.context.KeepsBounds related)
    (counts : ∀ iterationCount, setting.iterationCount = some iterationCount →
      ∀ loop, Keeps related (iterationCount loop))
    (kept : ∀ operand ∈ operands, operand.IsKept related) (token : Datum) (symbol : Symbol) :
    (nodeMeaning setting token symbol operands).IsKept related := by
  have lifted : ∀ term ∈ liftedTerms token.shown symbol operands,
      ∀ addend ∈ term.addends, Keeps related addend :=
    fun _ member => keeps_of_mem_liftedTerms kept member
  have values : ∀ value ∈ operands.map Meaning.value, Keeps related value := by
    intro value member
    obtain ⟨operand, inside, rfl⟩ := List.mem_map.mp member
    exact (kept operand inside).value
  cases symbol with
  | terminal node =>
      have onTerminal := bounds.terminal passage token node
      cases node with
      | phiTerm id => exact ⟨onTerminal, List.forall_mem_cons.mpr ⟨nofun, lifted⟩⟩
      | _ => exact ⟨onTerminal, lifted⟩
  | operation operation id =>
      have onOperation := @keeps_operationValue related setting passage _ values token.shown
        operation
      cases operation with
      | phi => exact ⟨keeps_mergeValue passage counts kept token.shown id, nofun⟩
      | _ => exact ⟨onOperation, lifted⟩
  | structural kind => exact ⟨keeps_structuralValue passage values token.shown kind, lifted⟩

mutual

theorem isKept_meaning (passage : IsPassage related)
    (bounds : setting.context.KeepsBounds related)
    (counts : ∀ iterationCount, setting.iterationCount = some iterationCount →
      ∀ loop, Keeps related (iterationCount loop)) (tree : NaryTree) :
    (meaning setting tree).IsKept related := by
  cases tree with
  | node text symbol children =>
      rw [meaning]
      exact isKept_nodeMeaning passage bounds counts
        (isKept_meanings passage bounds counts children) text symbol

theorem isKept_meanings (passage : IsPassage related)
    (bounds : setting.context.KeepsBounds related)
    (counts : ∀ iterationCount, setting.iterationCount = some iterationCount →
      ∀ loop, Keeps related (iterationCount loop)) (trees : List NaryTree) :
    ∀ operand ∈ meanings setting trees, operand.IsKept related := by
  cases trees with
  | nil => exact nofun
  | cons first rest =>
      rw [meanings]
      exact List.forall_mem_cons.mpr ⟨isKept_meaning passage bounds counts first,
        isKept_meanings passage bounds counts rest⟩

end

end NaryTree

namespace LoopNest

variable {nest : LoopNest}

/-- Asking for a quantity of loops keeps a relation. -/
def KeepsCalls (nest : LoopNest) (related : Ledger → Ledger → Prop) : Prop :=
  ∀ call : LoopCall, Keeps related (call.run nest)

theorem KeepsCalls.extremeValue (passage : IsPassage related) (kept : nest.KeepsCalls related)
    (mode : Mode) (loop : Datum) (tree : AddressTree) :
    Keeps related (tree.extremeValue (.of nest.resolver mode (some nest.view) loop)) := by
  have bounds : (RangeSetting.of nest.resolver mode (some nest.view)
      loop).context.KeepsBounds related := by
    intro scope found asked
    cases found
    cases mode with
    | least => exact kept (.lowerBound asked)
    | greatest => exact kept (.upperBound asked)
  cases tree with
  | binary tree => exact bounds.ofBinary passage tree
  | nary tree =>
      refine (NaryTree.isKept_meaning passage bounds ?_ tree).value
      intro iterationCount found asked
      cases found
      exact kept (.iterationCount asked)

theorem KeepsCalls.workingSetSize (passage : IsPassage related) (kept : nest.KeepsCalls related)
    (loop : Datum) (tree : AddressTree) :
    Keeps related (workingSetSize nest.resolver (some nest.view) loop tree) := by
  refine (kept.extremeValue passage .greatest loop tree).bind passage (fun high => ?_)
  refine (kept.extremeValue passage .least loop tree).bind passage (fun low => ?_)
  refine (Emitter.keeps_combine passage _ _ _ _).bind passage (fun greatest => ?_)
  refine (Emitter.keeps_combine passage _ _ _ _).bind passage (fun least => ?_)
  exact Emitter.keeps_combine passage _ _ _ _

end LoopNest

namespace Estimator

variable {estimator : Estimator} {access : AccessRecord}

theorem leaves_recordFailure (passage : IsPassage related) (what : String)
    (error : AnalysisError) : Leaves related (estimator.recordFailure access what error) := by
  cases error with
  | misshapen cause =>
      rw [recordFailure]
      split
      · exact leaves_throw passage _
      · exact (leaves_warn passage _ _ _ _ _).bind passage (fun _ => leaves_pure passage _)
  | _ => exact leaves_pure passage _

theorem keeps_sensitivityAxes (passage : IsPassage related) (expression : BinaryTree) :
    ∀ axis ∈ estimator.sensitivityAxes expression, Keeps related axis.2 := by
  have values (site : Site BinaryTree) :
      Keeps related (estimator.strideValuation.value site) :=
    estimator.resolver.keeps_evaluate passage site.tree
  intro axis member
  rcases List.mem_append.mp member with always | hosted
  · simp only [List.mem_cons, List.not_mem_nil, or_false] at always
    rcases always with rfl | rfl | rfl
    · exact Stride.keeps_along passage values _ _ _
    · exact Stride.keeps_along passage values _ _ _
    · exact Stride.keeps_alongLoops passage values _
  · split at hosted
    · cases hosted
    · rw [List.mem_singleton.mp hosted]
      exact keeps_foldlM passage _ (fun formal _ _ =>
        (Stride.keeps_along passage values _ _ _).bind passage
          (fun _ => Emitter.keeps_combine passage _ _ _ _)) 0

theorem leaves_sensitivities (passage : IsPassage related)
    (axes : List (SensitivityAxis × Analysis Value)) (kept : ∀ axis ∈ axes, Keeps related axis.2) :
    Leaves related (estimator.sensitivities access axes) := by
  induction axes with
  | nil => exact leaves_pure passage _
  | cons first rest ih =>
      obtain ⟨onFirst, onRest⟩ := List.forall_mem_cons.mp kept
      refine (leaves_attemptAnalysis onFirst).bind passage (fun outcome => ?_)
      cases outcome with
      | ok value => exact (ih onRest).bind passage (fun _ => leaves_pure passage _)
      | error error =>
          refine (leaves_recordFailure passage _ error).bind passage (fun text => ?_)
          exact (ih onRest).bind passage (fun _ => leaves_pure passage _)

theorem leaves_workingSet (passage : IsPassage related)
    (kept : estimator.nest.KeepsCalls related) (tree : AddressTree) :
    Leaves related (estimator.workingSet access tree) := by
  rw [workingSet]
  split
  · exact leaves_pure passage _
  split
  · exact leaves_pure passage _
  refine (leaves_attemptAnalysis (kept.workingSetSize passage _ tree)).bind passage
    (fun outcome => ?_)
  split
  · exact leaves_pure passage _
  · exact leaves_pure passage _
  · exact (leaves_recordFailure passage _ _).bind passage (fun _ => leaves_pure passage _)

theorem leaves_quantities (passage : IsPassage related)
    (kept : estimator.nest.KeepsCalls related) (expression : BinaryTree) (nested : Value) :
    Leaves related (estimator.quantities access expression nested) := by
  rw [quantities_eq]
  refine (leaves_ofAnalysis (Emitter.keeps_combine passage _ _ _ _)).bind passage
    (fun count => ?_)
  refine (leaves_sensitivities passage _ (keeps_sensitivityAxes passage expression)).bind passage
    (fun found => ?_)
  refine Leaves.bind passage ?_ (fun _ => leaves_pure passage _)
  rw [Estimator.spread]
  split
  · exact leaves_pure passage _
  · exact leaves_workingSet passage kept _

theorem leaves_estimate (passage : IsPassage related)
    (kept : estimator.nest.KeepsCalls related) : Leaves related (estimator.estimate access) := by
  unfold Estimator.estimate
  dsimp only
  split
  · exact leaves_pure passage _
  refine (leaves_attempt (kept (.nestedIterationCount _))).bind passage (fun outcome => ?_)
  split
  · exact leaves_quantities passage kept _ _
  · exact (leaves_warn passage _ _ _ _ _).bind passage (fun _ => leaves_pure passage _)
  · exact leaves_throw passage _

theorem leaves_complete (passage : IsPassage related)
    (kept : estimator.nest.KeepsCalls related) : Leaves related (estimator.complete access) := by
  have delivered (deliveries : List Delivery) :
      Leaves related (deliveries.forM Estimation.deliver) := by
    induction deliveries with
    | nil => exact leaves_pure passage _
    | cons first rest ih => exact (leaves_deliver passage first).bind passage (fun _ => ih)
  refine (leaves_estimate passage kept).bind passage (fun estimate => ?_)
  split
  · exact (delivered _).bind passage (fun _ => leaves_pure passage _)
  · exact leaves_throw passage _

/-- The ledger at the turn of an access is related to that before the first turn. -/
theorem ComesTo.passes (passage : IsPassage related) (kept : estimator.nest.KeepsCalls related)
    {accesses : List AccessRecord} {start turn : Progress}
    (comes : estimator.ComesTo accesses start access turn) :
    related start.ledger turn.ledger := by
  have completed (before : List AccessRecord) :
      Leaves related (before.mapM estimator.complete) := by
    induction before with
    | nil => exact leaves_pure passage _
    | cons first rest ih =>
        rw [List.mapM_cons]
        refine (leaves_complete passage kept).bind passage (fun estimate => ?_)
        exact ih.bind passage (fun _ => leaves_pure passage _)
  obtain ⟨before, _, _, _, onward⟩ := comes
  have step := completed before start
  rwa [onward] at step

end Estimator

theorem leaves_deliverIterations (passage : IsPassage related) (invocation : Datum)
    (counts : List (Int × Option Value)) :
    Leaves related (deliverIterations invocation counts) := by
  induction counts with
  | nil => exact leaves_pure passage _
  | cons entry rest ih =>
      obtain ⟨loop, _ | count⟩ := entry
      · exact ih
      · exact (leaves_deliver passage _).bind passage (fun _ => ih)

theorem Invocation.keeps_countThreads (passage : IsPassage related) (invocation : Invocation)
    (emitter : Emitter) : Keeps related (invocation.countThreads emitter) :=
  keeps_foldlM passage _ (fun _ _ _ => Emitter.keeps_combine passage _ _ _ _) 1

/-- The ledger at the turn of an access is related to that after all loops were counted. -/
theorem LoopNest.IsTurn.passes (passage : IsPassage related) {nest : LoopNest}
    (kept : nest.KeepsCalls related) {start turn : Progress} {estimator : Estimator}
    {access : AccessRecord} (comes : nest.IsTurn start estimator access turn) :
    ∃ iterations counted, nest.iterationCounts.outcome start.ledger = (.ok iterations, counted) ∧
      related counted turn.ledger := by
  obtain ⟨iterations, surveyed, onSurvey, comesTo⟩ := comes
  obtain ⟨counted, reported, onLoops, delivered, onThreads, same⟩ := survey_eq_ok onSurvey
  refine ⟨iterations, counted, onLoops, ?_⟩
  have onDelivery := leaves_deliverIterations passage nest.resolver.invocation.id iterations
    { start with ledger := counted }
  rw [delivered] at onDelivery
  have onCount := Invocation.keeps_countThreads passage nest.resolver.invocation
    nest.resolver.emitter reported.ledger
  rw [onThreads] at onCount
  rw [← same] at kept
  exact passage.trans onDelivery (passage.trans onCount (comesTo.passes passage kept))

end KernelFootprint
