import KernelFootprint.Proofs.Errors
import KernelFootprint.Proofs.Index
import KernelFootprint.Proofs.Turns

/-!
# Containment of errors

Unless errors of shape are to end an estimation, every analysis error about an access is
recorded on that access: the estimate is there in any case, and a quantity that is missing
from it has left a flag or an error behind. A loop without a count is reported as such. Only
a bound or a step of a loop that was built with a node that has no integer value is let
through, as the counts of loops are guarded against incomputable loops alone.
-/

namespace KernelFootprint

open Analysis Estimation

variable {First Second : Type} {returned : First → Prop} {raised other : AnalysisError → Prop}

theorem Sink.fits_receive (sink : Sink) (delivery : Delivery) :
    Fits (fun _ => True) raised (sink.receive delivery) := by
  cases sink with
  | recording kept =>
      rw [Sink.receive]
      split <;> trivial
  | _ => trivial

namespace Estimation

theorem ends_ofExcept {outcome : Except Fault First} (fits : Fits returned raised outcome) :
    Ends returned raised (ofExcept outcome) := by
  cases outcome with
  | ok result => exact ends_pure fits
  | error fault => exact ends_throw fits

theorem ends_attempt {analysis : Analysis First} (ends : Ends returned raised analysis) :
    Ends (Fits returned raised) other (attempt analysis) :=
  fun progress => ends progress.ledger

theorem ends_ofAnalysis {analysis : Analysis First} (ends : Ends returned raised analysis) :
    Ends returned raised (ofAnalysis analysis) :=
  (ends_attempt ends).bind (fun _ fits => ends_ofExcept fits)

/-- An attempted analysis returns its analysis errors. -/
theorem ends_attemptAnalysis (analysis : Analysis First) :
    Ends (fun _ => True) raised (attemptAnalysis analysis) := by
  have any : Ends (fun _ => True) (fun _ => True) analysis := by
    intro ledger
    cases (analysis.run.run ledger).1 with
    | ok result => trivial
    | error fault => cases fault <;> trivial
  refine (ends_attempt any).bind (fun outcome _ => ?_)
  rcases outcome with (error | cause) | result
  · exact ends_pure trivial
  · exact ends_throw trivial
  · exact ends_pure trivial

theorem ends_warn (patterns : Datum) (kernel id text : String) (category : WarningCategory) :
    Ends (fun _ => True) raised (warn patterns kernel id text category) := by
  refine (ends_ofExcept (fits_mapError_misuse _)).bind (fun issued _ => ?_)
  cases issued with
  | none => exact ends_pure trivial
  | some warning => exact ends_modify _

theorem ends_deliver (delivery : Delivery) :
    Ends (fun _ => True) raised (deliver delivery) := by
  refine ends_get.bind (fun progress _ => ?_)
  exact (ends_ofExcept (progress.sink.fits_receive delivery)).bind (fun sink _ => ends_set _)

end Estimation

theorem ends_deliverIterations (invocation : Datum) (counts : List (Int × Option Value)) :
    Ends (fun _ => True) raised (deliverIterations invocation counts) := by
  induction counts with
  | nil => exact ends_pure trivial
  | cons entry rest ih =>
      obtain ⟨loop, _ | count⟩ := entry
      · exact ih
      · exact (ends_deliver _).bind (fun _ _ => ih)

theorem Invocation.ends_countThreads {emitter : Emitter} (reliable : emitter.IsReliable)
    (invocation : Invocation) :
    Ends (fun _ => True) raised (invocation.countThreads emitter) := by
  have multiplied (dimensions : List Value) (total : Value) :
      Ends (fun _ => True) raised (dimensions.foldlM
        (fun total (dimension : Value) =>
          emitter.combine .mul total (dimension.promote .wide)) total) := by
    induction dimensions generalizing total with
    | nil => exact ends_pure trivial
    | cons first rest ih =>
        rw [List.foldlM_cons]
        exact (Emitter.ends_combine_mul reliable _ _).bind (fun total _ => ih total)
  exact multiplied _ 1

/-- The axes along which accesses are estimated. -/
def Invocation.axes (invocation : Invocation) : List SensitivityAxis :=
  [.blockX, .blockY, .loop] ++ if invocation.hostLoops.isEmpty then [] else [.hostLoop]

namespace Estimate

/-- All quantities are there. -/
structure IsComplete (axes : List SensitivityAxis) (estimate : Estimate) : Prop where
  executionCount : estimate.executionCount.isSome
  workingSet : estimate.workingSet.isSome
  sensitivities : estimate.sensitivities.map Prod.fst = axes

/-- Either all quantities are there, or there is a flag or an error. -/
def IsExplained (axes : List SensitivityAxis) (estimate : Estimate) : Prop :=
  estimate.IsComplete axes ∨ estimate.flags ≠ [] ∨ estimate.errors ≠ []

end Estimate

namespace Estimator

variable {estimator : Estimator} {access : AccessRecord}

theorem map_fst_sensitivityAxes (expression : BinaryTree) :
    (estimator.sensitivityAxes expression).map Prod.fst =
      estimator.resolver.invocation.axes := by
  rw [sensitivityAxes, Invocation.axes]
  cases hostLoops : estimator.resolver.invocation.hostLoops <;> simp

theorem ends_recordFailure (lax : estimator.settings.strict.holds = false) (what : String)
    (error : AnalysisError) :
    Ends (fun _ => True) raised (estimator.recordFailure access what error) := by
  cases error with
  | misshapen cause =>
      rw [recordFailure, lax]
      exact (ends_warn _ _ _ _ _).bind (fun _ _ => ends_pure trivial)
  | _ => exact ends_pure trivial

/-- An axis without a sensitivity has left an error behind. -/
theorem ends_sensitivities (lax : estimator.settings.strict.holds = false)
    (axes : List (SensitivityAxis × Analysis Value)) :
    Ends (fun found => found.1.map Prod.fst = axes.map Prod.fst ∨ found.2 ≠ []) raised
      (estimator.sensitivities access axes) := by
  induction axes with
  | nil => exact ends_pure (.inl rfl)
  | cons first rest ih =>
      obtain ⟨axis, compute⟩ := first
      refine (ends_attemptAnalysis compute).bind (fun outcome _ => ?_)
      cases outcome with
      | ok value =>
          refine ih.bind (fun found explained => ends_pure ?_)
          exact explained.imp_left (congrArg (axis :: ·))
      | error error =>
          refine (ends_recordFailure lax _ error).bind (fun text _ => ?_)
          exact ih.bind (fun found _ => ends_pure (.inr (List.cons_ne_nil _ _)))

/-- A missing working set has left a flag or an error behind. -/
theorem ends_workingSet (lax : estimator.settings.strict.holds = false) (tree : AddressTree) :
    Ends (fun found => found.1.isSome ∨ found.2.1 ≠ [] ∨ found.2.2 ≠ []) raised
      (estimator.workingSet access tree) := by
  rw [workingSet]
  split
  · exact ends_pure (.inr (.inl (List.cons_ne_nil _ _)))
  split
  · exact ends_pure (.inl rfl)
  refine (ends_attemptAnalysis _).bind (fun outcome _ => ?_)
  rcases outcome with error | value
  · have recorded : Ends (fun _ => True) raised
        (estimator.recordFailure access "working set" error) := ends_recordFailure lax _ error
    cases error with
    | incomputable loop obstacle => exact ends_pure (.inr (.inl (List.cons_ne_nil _ _)))
    | _ => exact recorded.bind (fun _ _ => ends_pure (.inr (.inr (List.cons_ne_nil _ _))))
  · exact ends_pure (.inl rfl)

/-- An access inside computable loops has its execution count, and the reasons for all
quantities that are missing. -/
theorem ends_quantities (lax : estimator.settings.strict.holds = false)
    (reliable : estimator.emitter.IsReliable) (expression : BinaryTree) (nested : Value) :
    Ends (Estimate.IsExplained estimator.resolver.invocation.axes) raised
      (estimator.quantities access expression nested) := by
  rw [quantities_eq]
  refine (ends_ofAnalysis (Emitter.ends_combine_mul reliable _ _)).bind (fun count _ => ?_)
  refine (ends_sensitivities lax _).bind (fun (values, errors) onAxes => ?_)
  rw [map_fst_sensitivityAxes] at onAxes
  have spread : Ends (fun found => found.1.isSome ∨ found.2.1 ≠ [] ∨ found.2.2 ≠ []) raised
      (estimator.spread access expression) := by
    rw [Estimator.spread]
    split
    · exact ends_pure (.inr (.inl (List.cons_ne_nil _ _)))
    · exact ends_workingSet lax _
  refine spread.bind (fun (workingSet, flags, remarks) onSpread => ends_pure ?_)
  rcases onAxes with onAxes | onAxes
  · rcases onSpread with onSpread | flagged | remarked
    · exact .inl ⟨rfl, onSpread, onAxes⟩
    · exact .inr (.inl flagged)
    · exact .inr (.inr (List.append_ne_nil_of_right_ne_nil _ remarked))
  · exact .inr (.inr (List.append_ne_nil_of_left_ne_nil
      (List.append_ne_nil_of_right_ne_nil _ onAxes) _))

/-- An error about an access is contained, unless a distorted loop is misshapen. -/
theorem ends_estimate (lax : estimator.settings.strict.holds = false)
    (reliable : estimator.emitter.IsReliable) :
    Ends (Estimate.IsExplained estimator.resolver.invocation.axes)
      (fun error => estimator.nest.IsDistorted ∧ error.IsMisshapen)
      (estimator.estimate access) := by
  unfold Estimator.estimate
  dsimp only
  split
  · exact ends_pure (.inr (.inl (List.cons_ne_nil _ _)))
  refine (ends_attempt (LoopNest.ends_nestedIterationCount reliable _)).bind
    (fun outcome fits => ?_)
  rcases outcome with (error | cause) | nested
  · rcases fits with ⟨loop, obstacle, rfl⟩ | ⟨distorted, cause, rfl⟩
    · refine (ends_warn _ _ _ _ _).bind (fun _ _ => ?_)
      exact ends_pure (.inr (.inl (List.cons_ne_nil _ _)))
    · exact ends_throw ⟨distorted, cause, rfl⟩
  · exact ends_throw trivial
  · exact ends_quantities lax reliable _ nested

theorem ends_estimateAll (lax : estimator.settings.strict.holds = false)
    (reliable : estimator.emitter.IsReliable) (accesses : List AccessRecord)
    {earlier : List Estimate}
    (explained : ∀ estimate ∈ earlier,
      estimate.IsExplained estimator.resolver.invocation.axes) :
    Ends (fun all : List Estimate => ∀ estimate ∈ all,
        estimate.IsExplained estimator.resolver.invocation.axes)
      (fun error => estimator.nest.IsDistorted ∧ error.IsMisshapen)
      (estimator.estimateAll accesses earlier) := by
  induction accesses generalizing earlier with
  | nil => exact ends_pure explained
  | cons access rest ih =>
      have delivered (deliveries : List Delivery) :
          Ends (fun _ => True) (fun error => estimator.nest.IsDistorted ∧ error.IsMisshapen)
            (deliveries.forM Estimation.deliver) := by
        induction deliveries with
        | nil => exact ends_pure trivial
        | cons first rest ih => exact (ends_deliver first).bind (fun _ _ => ih)
      refine (ends_estimate lax reliable).bind (fun estimate isExplained => ?_)
      split
      · refine (delivered _).bind (fun _ _ => ih ?_)
        intro other member
        rcases EstimateMap.mem_of_mem_insertIn member with rfl | before
        · exact isExplained
        · exact explained other before
      · exact ends_throw trivial

end Estimator

namespace LoopNest

variable {nest : LoopNest}

theorem ends_estimateKernel (lax : nest.settings.strict.holds = false)
    (reliable : nest.resolver.emitter.IsReliable) :
    Ends (fun map : EstimateMap => ∀ estimate ∈ map.estimates,
        estimate.IsExplained nest.resolver.invocation.axes)
      (fun error => nest.IsDistorted ∧ error.IsMisshapen) nest.estimateKernel := by
  have surveyed : Ends (fun found => found.2.nest = nest)
      (fun error => nest.IsDistorted ∧ error.IsMisshapen) nest.survey := by
    refine (ends_ofAnalysis (ends_iterationCounts reliable)).bind (fun counts _ => ?_)
    refine (ends_deliverIterations _ counts).bind (fun _ _ => ?_)
    exact (ends_ofAnalysis (Invocation.ends_countThreads reliable _)).bind
      (fun threads _ => ends_pure rfl)
  refine surveyed.bind ?_
  rintro ⟨counts, ⟨other, threads⟩⟩ rfl
  exact (Estimator.ends_estimateAll lax reliable _ (List.forall_mem_nil _)).bind
    (fun all explained => ends_pure explained)

/-- Unless shape errors are to end an estimation, an analysis error comes out of it only if a
loop of the kernel has a bound or a step that was built with a node that has no integer value.
If estimates are returned, every loop is reported with its count, or without one if it is
incomputable at its turn, and there is an estimate of every access, which has all its
quantities or else a flag or an error. -/
theorem errors_of_estimateInvocation {catalogue : Catalogue} {settings : Settings}
    {resolver : Resolver} (lax : settings.strict.holds = false)
    (reliable : resolver.emitter.IsReliable) (start : Progress) :
    (∀ error last, (estimateInvocation catalogue settings resolver).outcome start =
        (.error (.analysis error), last) →
      error.IsMisshapen ∧ ∃ kernel,
        catalogue.find? resolver.invocation.kernel = .ok (some kernel) ∧
          IsDistorted ⟨kernel, resolver, settings⟩) ∧
      ∀ map last kernel,
        (estimateInvocation catalogue settings resolver).outcome start = (.ok map, last) →
        catalogue.find? resolver.invocation.kernel = .ok (some kernel) →
          (∃ counted, HasSurveyed ⟨kernel, resolver, settings⟩ start.ledger
            (order ⟨kernel, resolver, settings⟩) map.loopIterations counted) ∧
          (∀ entry ∈ kernel.accesses, ∃ estimate ∈ map.estimates,
            estimate.key.access = entry.2.id) ∧
          ∀ estimate ∈ map.estimates, estimate.IsExplained resolver.invocation.axes := by
  constructor
  · intro error last failed
    rcases found : catalogue.find? resolver.invocation.kernel with cause | _ | kernel
    · rw [estimateInvocation, found] at failed
      cases failed
    · rw [estimateInvocation, found] at failed
      cases failed
    · have ends := @ends_estimateKernel ⟨kernel, resolver, settings⟩ lax reliable start
      rw [outcome_estimateInvocation found] at failed
      rw [show (estimateKernel ⟨kernel, resolver, settings⟩).run.run start = _ from failed]
        at ends
      exact ⟨ends.2, kernel, rfl, ends.1⟩
  · intro map last kernel returned found
    have ends := @ends_estimateKernel ⟨kernel, resolver, settings⟩ lax reliable start
    rw [outcome_estimateInvocation found] at returned
    rw [show (estimateKernel ⟨kernel, resolver, settings⟩).run.run start = _ from returned]
      at ends
    obtain ⟨onAccesses, _⟩ := estimates_of_estimateKernel returned
    obtain ⟨counted, onLoops⟩ := iterationCounts_of_estimateKernel returned
    refine ⟨⟨counted, hasSurveyed_of_iterationCounts onLoops⟩, ?_, ends⟩
    intro entry inside
    exact onAccesses entry.2 (mem_accesses.mpr ⟨entry.1, inside⟩)

/-- A loop that ends at the given tree. -/
def endingAt (final : BinaryTree) : LoopRecord where
  kernel := .text "kernel"
  id := 1
  parent := 0
  initial := some (.constant 0)
  final := some final
  step := none
  knownCount := .null
  buildErrors := []

/-- An access at the given address. -/
def accessAt (id loop : Int) (address : BinaryTree) : AccessRecord where
  kernel := .text "kernel"
  id := id
  allocationArg := 0
  loop := loop
  condition := 0
  conditionKind := .null
  expression := some address
  tree := none
  buildErrors := []

def threadIndex : BinaryTree := .leaf (.text "TIDX") (.terminal (.thread .x))

/-- A loop that ends at a quotient by zero, an access in it, and an access outside at an
address that adds a node without a value. -/
def faulty : KernelRecord where
  name := .text "kernel"
  loops := [(1, endingAt (.branch "SDIV" .sdiv (.constant 8) (.constant 0)))]
  accesses :=
    [(1, accessAt 1 1 threadIndex),
      (2, accessAt 2 0 (.branch "ADD" .add threadIndex (.leaf (.text "GEP") (.structural .gep))))]

/-- The loop has no count, the access in it is incomputable, and the other one goes without a
working set, for which there is an error. -/
theorem errors_of_estimateInvocation_faulty :
    ∃ map last, (estimateInvocation [(.text "kernel", faulty)] {}
        (.sample (.constant 128))).outcome { sink := .absent } = (.ok map, last) ∧
      map.loopIterations.map (fun entry => (entry.1, entry.2.isSome)) = [(1, false)] ∧
      map.estimates.map (fun estimate => (estimate.flags, estimate.errors.length)) =
        [([.incomputable], 1), ([], 1)] ∧
      ∀ estimate ∈ map.estimates, estimate.IsExplained [.blockX, .blockY, .loop] := by
  have results : ((estimateInvocation [(.text "kernel", faulty)] {}
      (.sample (.constant 128))).outcome { sink := .absent }).1.toOption.map (fun map =>
        (map.loopIterations.map (fun entry => (entry.1, entry.2.isSome)),
          map.estimates.map (fun estimate => (estimate.flags, estimate.errors.length)))) =
      some ([(1, false)], [([.incomputable], 1), ([], 1)]) := by decide +kernel
  rcases returned : (estimateInvocation [(.text "kernel", faulty)] {}
      (.sample (.constant 128))).outcome { sink := .absent } with ⟨fault | map, last⟩
  · rw [returned] at results
    cases results
  · rw [returned] at results
    obtain ⟨loops, estimates⟩ := Prod.ext_iff.mp (Option.some.inj results)
    obtain ⟨_, _, explained⟩ := (errors_of_estimateInvocation rfl Emitter.isReliable_symbolic
      { sink := .absent }).2 map last faulty returned rfl
    exact ⟨map, last, rfl, loops, estimates, explained⟩

/-- Distorted loops have to be left out: if the end of a loop adds a loaded value, the whole
estimation fails for it, with shape errors not meant to end an estimation. -/
theorem estimateInvocation_distorted :
    let distorted : KernelRecord :=
      { name := .text "kernel"
        loops := [(1, endingAt
          (.branch "ADD" .add (.leaf (.text "LOAD") (.structural .load)) (.constant 8)))]
        accesses := [(1, accessAt 1 0 threadIndex)] }
    ({} : Settings).strict.holds = false ∧
      ((estimateInvocation [(.text "kernel", distorted)] {}
        (.sample (.constant 128))).outcome { sink := .absent }).1 =
          .error (Misshape.irreducibleOperand "LOAD" "ADD") := by
  constructor <;> rfl

end LoopNest

end KernelFootprint
