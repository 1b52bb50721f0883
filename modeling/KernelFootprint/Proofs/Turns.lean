import KernelFootprint.Proofs.Groups
import KernelFootprint.Proofs.Progress

/-!
# The turns of an estimation

An estimation counts the loops, then the threads, and then takes the accesses in
ascending order. Every access has its turn with the progress that all accesses before
it have left behind, and every estimate that is returned was made at the turn of its
access. What an access comes to at its turn is told by cases: there is nothing to
analyse, or the loops around it are incomputable, or its quantities are computed.
-/

namespace KernelFootprint

open Estimation

namespace LoopNest

/-- The accesses of the kernel in the order in which they are estimated. -/
def accesses (nest : LoopNest) : List AccessRecord :=
  (Register.sort (fun first second => first.1 ≤ second.1) nest.kernel.accesses).map Prod.snd

theorem mem_accesses {nest : LoopNest} {access : AccessRecord} :
    access ∈ nest.accesses ↔ ∃ number, (number, access) ∈ nest.kernel.accesses := by
  simp [accesses, Register.mem_sort]

/-- The part of an estimation before the first access. -/
def survey (nest : LoopNest) : Estimation (List (Int × Option Value) × Estimator) := do
  let iterations ← Estimation.ofAnalysis nest.iterationCounts
  deliverIterations nest.resolver.invocation.id iterations
  let threads ← Estimation.ofAnalysis
    (nest.resolver.invocation.countThreads nest.resolver.emitter)
  return (iterations, ⟨nest, threads⟩)

/-- The estimation of a catalogued kernel. -/
def estimateKernel (nest : LoopNest) : Estimation EstimateMap := do
  let (iterations, estimator) ← nest.survey
  let estimates ← estimator.estimateAll nest.accesses []
  return { estimates := estimates, loopIterations := iterations }

end LoopNest

theorem outcome_estimateInvocation {catalogue : Catalogue} {settings : Settings}
    {resolver : Resolver} {kernel : KernelRecord}
    (catalogued : catalogue.find? resolver.invocation.kernel = .ok (some kernel))
    (start : Progress) :
    (estimateInvocation catalogue settings resolver).outcome start =
      (LoopNest.estimateKernel ⟨kernel, resolver, settings⟩).outcome start := by
  rw [estimateInvocation, catalogued, LoopNest.estimateKernel, LoopNest.survey]
  simp only [bind_assoc, pure_bind]
  rfl

namespace EstimateMap

theorem mem_of_mem_insertIn {estimate entry : Estimate} {entries : List Estimate}
    (member : entry ∈ insertIn estimate entries) : entry = estimate ∨ entry ∈ entries := by
  induction entries with
  | nil => exact .inl (List.mem_singleton.mp member)
  | cons first rest ih =>
      rw [insertIn] at member
      split at member
      · exact (List.mem_cons.mp member).imp_right (List.mem_cons_of_mem first)
      · rcases List.mem_cons.mp member with rfl | inRest
        · exact .inr (List.mem_cons_self ..)
        · exact (ih inRest).imp_right (List.mem_cons_of_mem first)

theorem mem_insertIn (estimate : Estimate) (entries : List Estimate) :
    estimate ∈ insertIn estimate entries := by
  induction entries with
  | nil => exact List.mem_cons_self ..
  | cons first rest ih =>
      rw [insertIn]
      split
      · exact List.mem_cons_self ..
      · exact List.mem_cons_of_mem first ih

/-- An estimate only ever gives way to one of the same access. -/
theorem exists_access_insertIn (estimate : Estimate) {entry : Estimate} {entries : List Estimate}
    (member : entry ∈ entries) :
    ∃ other ∈ insertIn estimate entries, other.key.access = entry.key.access := by
  induction entries with
  | nil => cases member
  | cons first rest ih =>
      rw [insertIn]
      split
      · next same =>
          rcases List.mem_cons.mp member with rfl | inRest
          · have parts : (entry.key.access == estimate.key.access &&
                entry.key.allocation == estimate.key.allocation &&
                entry.key.invocation == estimate.key.invocation) = true := same
            simp only [Bool.and_eq_true, beq_iff_eq] at parts
            exact ⟨estimate, List.mem_cons_self .., parts.1.1.symm⟩
          · exact ⟨entry, List.mem_cons_of_mem _ inRest, rfl⟩
      · rcases List.mem_cons.mp member with rfl | inRest
        · exact ⟨entry, List.mem_cons_self .., rfl⟩
        · obtain ⟨other, inside, same⟩ := ih inRest
          exact ⟨other, List.mem_cons_of_mem _ inside, same⟩

end EstimateMap

namespace Estimator

variable {estimator : Estimator} {access : AccessRecord} {estimate : Estimate}
  {turn start after last : Progress}

/-- What an access comes to at its turn. -/
inductive Comes (estimator : Estimator) (access : AccessRecord) (turn : Progress) :
    Estimate → Progress → Prop
  | unanalyzable {flag : Flag} {reason : String} :
      analyzable access = .error (flag, reason) →
        Comes estimator access turn
          { key := estimator.key access, loop := access.loop, flags := [flag]
            errors := withReason access.buildErrors reason } turn
  | incomputable {expression : BinaryTree} {loop : String} {obstacle : LoopObstacle}
      {middle : Ledger} {after : Progress} :
      analyzable access = .ok expression →
      (estimator.nest.nestedIterationCount (.integer access.loop)).outcome turn.ledger =
        (.error (AnalysisError.incomputable loop obstacle), middle) →
      (estimator.warn access "incomputable_loop"
          (AnalysisError.incomputable loop obstacle).message .incomputableAccess).outcome
        { turn with ledger := middle } = (.ok (), after) →
        Comes estimator access turn
          { key := estimator.key access, loop := access.loop, flags := [.incomputable]
            errors := access.buildErrors ++
              [(AnalysisError.incomputable loop obstacle).message] } after
  | computable {expression : BinaryTree} {nested : Value} {middle : Ledger}
      {estimate : Estimate} {after : Progress} :
      analyzable access = .ok expression →
      (estimator.nest.nestedIterationCount (.integer access.loop)).outcome turn.ledger =
        (.ok nested, middle) →
      (estimator.quantities access expression nested).outcome
        { turn with ledger := middle } = (.ok estimate, after) →
        Comes estimator access turn estimate after

/-- An estimate is made in one of three ways. -/
theorem comes_of_estimate
    (made : (estimator.estimate access).outcome turn = (.ok estimate, after)) :
    estimator.Comes access turn estimate after := by
  unfold Estimator.estimate at made
  rcases found : analyzable access with ⟨flag, reason⟩ | expression
  · simp only [found] at made
    cases made
    exact .unanalyzable found
  simp only [found] at made
  obtain ⟨outcome, middle, attempted, rest⟩ := outcome_bind_eq_ok.mp made
  rw [outcome_attempt] at attempted
  rcases counted : (estimator.nest.nestedIterationCount (.integer access.loop)).outcome
      turn.ledger with ⟨fault | nested, ledger⟩
  · rw [counted] at attempted
    cases attempted
    rcases fault with error | cause
    · cases error with
      | incomputable loop obstacle =>
          obtain ⟨_, last, warned, returned⟩ := outcome_bind_eq_ok.mp rest
          cases returned
          exact .incomputable found counted warned
      | _ => cases rest
    · cases rest
  · rw [counted] at attempted
    cases attempted
    exact .computable found counted rest

/-- The working set of an access with an expression, or what explains that there is none. -/
def spread (estimator : Estimator) (access : AccessRecord) (expression : BinaryTree) :
    Estimation (Option Value × List Flag × List String) :=
  match (addressTree access expression).obstacle? "address tree" with
  | some (flag, reason) => pure (none, [flag], [reason])
  | none => estimator.workingSet access (addressTree access expression)

theorem quantities_eq (expression : BinaryTree) (nested : Value) :
    estimator.quantities access expression nested = (do
      let executionCount ← Estimation.ofAnalysis
        (estimator.emitter.combine .mul (estimator.threads.promote .wide) (nested.promote .wide))
      let (sensitivities, errors) ←
        estimator.sensitivities access (estimator.sensitivityAxes expression)
      let (workingSet, flags, remarks) ← estimator.spread access expression
      return { key := estimator.key access, loop := access.loop
               executionCount := some executionCount, workingSet := workingSet
               sensitivities := sensitivities, flags := flags
               errors := access.buildErrors ++ errors ++ remarks }) := by
  unfold quantities spread
  congr 1
  funext executionCount
  congr 1
  funext ⟨sensitivities, errors⟩
  dsimp only
  rcases (addressTree access expression).obstacle? "address tree" with _ | ⟨flag, reason⟩ <;> rfl

/-- The quantities of an access, computed one after the other. -/
structure Computes (estimator : Estimator) (access : AccessRecord) (expression : BinaryTree)
    (nested : Value) (turn : Progress) (estimate : Estimate) (after : Progress) where
  executionCount : Value
  sensitivities : List (SensitivityAxis × Value)
  errors : List String
  workingSet : Option Value
  flags : List Flag
  remarks : List String
  counted : Ledger
  moved : Progress
  multiplied : (estimator.emitter.combine .mul (estimator.threads.promote .wide)
    (nested.promote .wide)).outcome turn.ledger = (.ok executionCount, counted)
  axes : (estimator.sensitivities access (estimator.sensitivityAxes expression)).outcome
    { turn with ledger := counted } = (.ok (sensitivities, errors), moved)
  spread : (estimator.spread access expression).outcome moved =
    (.ok (workingSet, flags, remarks), after)
  made : estimate =
    { key := estimator.key access, loop := access.loop, executionCount := some executionCount
      workingSet := workingSet, sensitivities := sensitivities, flags := flags
      errors := access.buildErrors ++ errors ++ remarks }

theorem computes_of_quantities {expression : BinaryTree} {nested : Value}
    (made : (estimator.quantities access expression nested).outcome turn =
      (.ok estimate, after)) :
    Nonempty (estimator.Computes access expression nested turn estimate after) := by
  rw [quantities_eq] at made
  obtain ⟨executionCount, first, combined, rest⟩ := outcome_bind_eq_ok.mp made
  obtain ⟨⟨sensitivities, errors⟩, second, axes, rest⟩ := outcome_bind_eq_ok.mp rest
  obtain ⟨⟨workingSet, flags, remarks⟩, third, spread, rest⟩ := outcome_bind_eq_ok.mp rest
  cases rest
  obtain ⟨counted, multiplied, rfl⟩ := outcome_ofAnalysis_eq_ok.mp combined
  exact ⟨⟨executionCount, sensitivities, errors, workingSet, flags, remarks, counted, second,
    multiplied, axes, spread, rfl⟩⟩

theorem Comes.key_eq (comes : estimator.Comes access turn estimate after) :
    estimate.key = estimator.key access := by
  cases comes with
  | unanalyzable => rfl
  | incomputable => rfl
  | computable _ _ computed =>
      obtain ⟨computes⟩ := computes_of_quantities computed
      rw [computes.made]

/-- The whole turn of an access: the estimate is made and reported. -/
def complete (estimator : Estimator) (access : AccessRecord) : Estimation Estimate := do
  let estimate ← estimator.estimate access
  if estimate.key.isKey then
    estimate.deliveries.forM Estimation.deliver
    return estimate
  else throw (Misuse.wrongType : Fault)

theorem estimateAll_cons (access : AccessRecord) (rest : List AccessRecord)
    (earlier : List Estimate) :
    estimator.estimateAll (access :: rest) earlier = (do
      let estimate ← estimator.complete access
      estimator.estimateAll rest (EstimateMap.insertIn estimate earlier)) := by
  rw [estimateAll, complete, bind_assoc]
  congr 1
  funext estimate
  split
  · rw [bind_assoc]
    rfl
  · rfl

/-- The estimates of an estimation are made one after the other, then put together. -/
theorem estimateAll_eq_ok {accesses : List AccessRecord} {earlier all : List Estimate} :
    (estimator.estimateAll accesses earlier).outcome start = (.ok all, last) ↔
      ∃ made, (accesses.mapM estimator.complete).outcome start = (.ok made, last) ∧
        all = made.foldl (fun all estimate => EstimateMap.insertIn estimate all) earlier := by
  induction accesses generalizing start earlier with
  | nil =>
      constructor
      · intro returned
        cases returned
        exact ⟨[], rfl, rfl⟩
      · rintro ⟨made, completed, rfl⟩
        cases completed
        rfl
  | cons access rest ih =>
      rw [estimateAll_cons, outcome_bind_eq_ok, List.mapM_cons]
      constructor
      · rintro ⟨estimate, middle, completed, returned⟩
        obtain ⟨made, others, rfl⟩ := ih.mp returned
        refine ⟨estimate :: made, ?_, rfl⟩
        exact outcome_bind_eq_ok.mpr ⟨estimate, middle, completed,
          outcome_bind_eq_ok.mpr ⟨made, last, others, rfl⟩⟩
      · rintro ⟨made, completed, rfl⟩
        obtain ⟨estimate, middle, first, completed⟩ := outcome_bind_eq_ok.mp completed
        obtain ⟨others, _, second, same⟩ := outcome_bind_eq_ok.mp completed
        cases same
        exact ⟨estimate, middle, first, ih.mpr ⟨others, second, rfl⟩⟩

theorem comes_of_complete
    (completed : (estimator.complete access).outcome turn = (.ok estimate, last)) :
    ∃ after, estimator.Comes access turn estimate after := by
  obtain ⟨made, after, estimated, rest⟩ := outcome_bind_eq_ok.mp completed
  by_cases serves : made.key.isKey = true
  · rw [if_pos serves] at rest
    obtain ⟨_, delivered, _, same⟩ := outcome_bind_eq_ok.mp rest
    cases same
    exact ⟨after, comes_of_estimate estimated⟩
  · rw [if_neg serves] at rest
    cases rest

/-- It is the turn of an access when all accesses before it have had theirs. -/
def ComesTo (estimator : Estimator) (accesses : List AccessRecord) (start : Progress)
    (access : AccessRecord) (turn : Progress) : Prop :=
  ∃ before rest made, accesses = before ++ access :: rest ∧
    (before.mapM estimator.complete).outcome start = (.ok made, turn)

theorem comesTo_first (access : AccessRecord) (rest : List AccessRecord) (start : Progress) :
    estimator.ComesTo (access :: rest) start access start := ⟨[], rest, [], rfl, rfl⟩

theorem ComesTo.later {first : AccessRecord} {rest : List AccessRecord} {made : Estimate}
    {middle : Progress}
    (completed : (estimator.complete first).outcome start = (.ok made, middle))
    (comes : estimator.ComesTo rest middle access turn) :
    estimator.ComesTo (first :: rest) start access turn := by
  obtain ⟨before, others, earlier, rfl, onward⟩ := comes
  refine ⟨first :: before, others, made :: earlier, rfl, ?_⟩
  rw [List.mapM_cons]
  exact outcome_bind_eq_ok.mpr ⟨made, middle, completed,
    outcome_bind_eq_ok.mpr ⟨earlier, turn, onward, rfl⟩⟩

/-- An estimate that was made of an access at the turn of the access. -/
def HasMade (estimator : Estimator) (accesses : List AccessRecord) (start : Progress)
    (access : AccessRecord) (estimate : Estimate) : Prop :=
  ∃ turn after, estimator.ComesTo accesses start access turn ∧
    estimator.Comes access turn estimate after

/-- Every access has an estimate, and every estimate was made of an access. -/
theorem hasMade_of_mapM_complete {accesses : List AccessRecord} {made : List Estimate}
    (completed : (accesses.mapM estimator.complete).outcome start = (.ok made, last)) :
    (∀ access ∈ accesses, ∃ estimate ∈ made, estimator.HasMade accesses start access estimate) ∧
      ∀ estimate ∈ made, ∃ access ∈ accesses,
        estimator.HasMade accesses start access estimate := by
  induction accesses generalizing start made with
  | nil =>
      cases completed
      exact ⟨nofun, nofun⟩
  | cons first rest ih =>
      rw [List.mapM_cons] at completed
      obtain ⟨made, middle, completedFirst, completed⟩ := outcome_bind_eq_ok.mp completed
      obtain ⟨others, _, completedRest, same⟩ := outcome_bind_eq_ok.mp completed
      cases same
      obtain ⟨after, comes⟩ := comes_of_complete completedFirst
      obtain ⟨onAccesses, onEstimates⟩ := ih completedRest
      have firstMade : estimator.HasMade (first :: rest) start first made :=
        ⟨start, after, comesTo_first first rest start, comes⟩
      have later {access : AccessRecord} {estimate : Estimate} :
          estimator.HasMade rest middle access estimate →
            estimator.HasMade (first :: rest) start access estimate := by
        rintro ⟨turn, after, comesTo, comes⟩
        exact ⟨turn, after, comesTo.later completedFirst, comes⟩
      constructor
      · intro access member
        rcases List.mem_cons.mp member with rfl | inRest
        · exact ⟨made, List.mem_cons_self .., firstMade⟩
        · obtain ⟨estimate, among, onward⟩ := onAccesses access inRest
          exact ⟨estimate, List.mem_cons_of_mem _ among, later onward⟩
      · intro estimate member
        rcases List.mem_cons.mp member with rfl | inRest
        · exact ⟨first, List.mem_cons_self .., firstMade⟩
        · obtain ⟨access, among, onward⟩ := onEstimates estimate inRest
          exact ⟨access, List.mem_cons_of_mem _ among, later onward⟩

end Estimator

namespace EstimateMap

/-- The estimates that remain are among those that were put together. -/
theorem mem_of_mem_foldl {made earlier : List Estimate} {estimate : Estimate}
    (member : estimate ∈ made.foldl (fun all estimate => insertIn estimate all) earlier) :
    estimate ∈ made ∨ estimate ∈ earlier := by
  induction made generalizing earlier with
  | nil => exact .inr member
  | cons first rest ih =>
      rcases ih member with later | inserted
      · exact .inl (List.mem_cons_of_mem first later)
      · rcases mem_of_mem_insertIn inserted with rfl | before
        · exact .inl (List.mem_cons_self ..)
        · exact .inr before

theorem exists_access_foldl {made : List Estimate} (earlier : List Estimate) {entry : Estimate}
    (member : entry ∈ made ∨ entry ∈ earlier) :
    ∃ other ∈ made.foldl (fun all estimate => insertIn estimate all) earlier,
      other.key.access = entry.key.access := by
  induction made generalizing earlier entry with
  | nil =>
      rcases member with absent | before
      · cases absent
      · exact ⟨entry, before, rfl⟩
  | cons first rest ih =>
      rcases member with among | before
      · rcases List.mem_cons.mp among with rfl | later
        · exact ih _ (.inr (mem_insertIn entry earlier))
        · exact ih _ (.inl later)
      · obtain ⟨other, inserted, same⟩ := exists_access_insertIn first before
        obtain ⟨last, remains, sameAgain⟩ := ih _ (.inr inserted)
        exact ⟨last, remains, sameAgain.trans same⟩

end EstimateMap

namespace LoopNest

open Analysis

/-- The loops of the kernel in the order in which they are counted. -/
def order (nest : LoopNest) : List Int :=
  Register.sort (fun first second => first ≤ second) (nest.kernel.loops.map Prod.fst)

theorem mem_order {nest : LoopNest} {loop : Int} :
    loop ∈ nest.order ↔ loop ∈ nest.kernel.loops.map Prod.fst := Register.mem_sort

/-- Loops are counted one after the other. A loop that turns out to be incomputable has no
count. -/
inductive HasSurveyed (nest : LoopNest) :
    Ledger → List Int → List (Int × Option Value) → Ledger → Prop
  | done {ledger : Ledger} : HasSurveyed nest ledger [] [] ledger
  | next {ledger middle after : Ledger} {loop : Int} {outcome : Except Fault Value}
      {loops : List Int} {counts : List (Int × Option Value)} :
      (nest.iterationCount (.integer loop)).outcome ledger = (outcome, middle) →
        (∀ fault, outcome = .error fault → isIncomputable fault = true) →
          HasSurveyed nest middle loops counts after →
            HasSurveyed nest ledger (loop :: loops) ((loop, outcome.toOption) :: counts) after

theorem outcome_countIfComputable {nest : LoopNest} {loop : Int} {ledger after : Ledger}
    {count : Option Value}
    (counted : (nest.countIfComputable loop).outcome ledger = (.ok count, after)) :
    ∃ outcome, (nest.iterationCount (.integer loop)).outcome ledger = (outcome, after) ∧
      (∀ fault, outcome = .error fault → isIncomputable fault = true) ∧
        count = outcome.toOption := by
  rw [countIfComputable, outcome_tryCatch, Analysis.outcome_bind] at counted
  rcases found : (nest.iterationCount (.integer loop)).outcome ledger with
    ⟨fault | value, middle⟩
  · rw [found] at counted
    dsimp only at counted
    cases computable : isIncomputable fault with
    | true =>
        rw [computable] at counted
        cases counted
        exact ⟨.error fault, rfl, fun _ same => Except.error.inj same ▸ computable, rfl⟩
    | false =>
        rw [computable] at counted
        cases counted
  · rw [found] at counted
    cases counted
    exact ⟨.ok value, rfl, nofun, rfl⟩

/-- The reported counts are those that the loops have at their turn. -/
theorem hasSurveyed_of_iterationCounts {nest : LoopNest} {ledger after : Ledger}
    {counts : List (Int × Option Value)}
    (counted : nest.iterationCounts.outcome ledger = (.ok counts, after)) :
    nest.HasSurveyed ledger nest.order counts after := by
  rw [iterationCounts, ← order] at counted
  generalize nest.order = loops at counted ⊢
  induction loops generalizing ledger counts with
  | nil =>
      cases counted
      exact .done
  | cons loop rest ih =>
      rw [List.mapM_cons] at counted
      obtain ⟨entry, middle, first, counted⟩ := Analysis.outcome_bind_eq_ok.mp counted
      obtain ⟨count, last, single, same⟩ := Analysis.outcome_bind_eq_ok.mp first
      cases same
      obtain ⟨others, _, onOthers, same⟩ := Analysis.outcome_bind_eq_ok.mp counted
      cases same
      obtain ⟨outcome, asked, incomputable, rfl⟩ := outcome_countIfComputable single
      exact .next asked incomputable (ih onOthers)

variable {nest : LoopNest} {start last : Progress}

/-- It is the turn of an access of a launched kernel. -/
def IsTurn (nest : LoopNest) (start : Progress) (estimator : Estimator) (access : AccessRecord)
    (turn : Progress) : Prop :=
  ∃ iterations surveyed, nest.survey.outcome start = (.ok (iterations, estimator), surveyed) ∧
    estimator.ComesTo nest.accesses surveyed access turn

/-- What has been counted before the first access. -/
theorem survey_eq_ok {iterations : List (Int × Option Value)} {estimator : Estimator}
    (surveyed : nest.survey.outcome start = (.ok (iterations, estimator), last)) :
    ∃ counted reported,
      nest.iterationCounts.outcome start.ledger = (.ok iterations, counted) ∧
        (deliverIterations nest.resolver.invocation.id iterations).outcome
          { start with ledger := counted } = (.ok (), reported) ∧
        (nest.resolver.invocation.countThreads nest.resolver.emitter).outcome reported.ledger =
          (.ok estimator.threads, last.ledger) ∧
        estimator.nest = nest := by
  obtain ⟨counts, first, counted, rest⟩ := outcome_bind_eq_ok.mp surveyed
  obtain ⟨_, reported, delivered, rest⟩ := outcome_bind_eq_ok.mp rest
  obtain ⟨threads, final, multiplied, same⟩ := outcome_bind_eq_ok.mp rest
  cases same
  obtain ⟨after, onLoops, rfl⟩ := outcome_ofAnalysis_eq_ok.mp counted
  obtain ⟨_, onThreads, rfl⟩ := outcome_ofAnalysis_eq_ok.mp multiplied
  exact ⟨after, reported, onLoops, delivered, onThreads, rfl⟩

theorem IsTurn.nest_eq {estimator : Estimator} {access : AccessRecord} {turn : Progress}
    (comes : nest.IsTurn start estimator access turn) : estimator.nest = nest := by
  obtain ⟨_, _, surveyed, _⟩ := comes
  obtain ⟨_, _, _, _, _, same⟩ := survey_eq_ok surveyed
  exact same

/-- Every access has an estimate in the end, and every estimate was made at the turn of its
access. -/
theorem estimates_of_estimateKernel {map : EstimateMap}
    (returned : nest.estimateKernel.outcome start = (.ok map, last)) :
    (∀ access ∈ nest.accesses, ∃ estimate ∈ map.estimates, estimate.key.access = access.id) ∧
      ∀ estimate ∈ map.estimates, ∃ access ∈ nest.accesses, ∃ estimator turn after,
        nest.IsTurn start estimator access turn ∧ estimator.Comes access turn estimate after := by
  obtain ⟨⟨iterations, estimator⟩, middle, surveyed, rest⟩ := outcome_bind_eq_ok.mp returned
  obtain ⟨estimates, _, estimated, same⟩ := outcome_bind_eq_ok.mp rest
  cases same
  obtain ⟨made, completed, rfl⟩ := Estimator.estimateAll_eq_ok.mp estimated
  obtain ⟨onAccesses, onEstimates⟩ := Estimator.hasMade_of_mapM_complete completed
  constructor
  · intro access member
    obtain ⟨estimate, among, _, _, _, comes⟩ := onAccesses access member
    obtain ⟨other, remains, named⟩ := EstimateMap.exists_access_foldl [] (.inl among)
    refine ⟨other, remains, named.trans ?_⟩
    rw [comes.key_eq]
    rfl
  · intro estimate member
    rcases EstimateMap.mem_of_mem_foldl member with among | absent
    · obtain ⟨access, inside, turn, after, comesTo, comes⟩ := onEstimates estimate among
      exact ⟨access, inside, estimator, turn, after, ⟨iterations, middle, surveyed, comesTo⟩,
        comes⟩
    · cases absent

/-- The counts that are returned are those that were made before the first access. -/
theorem iterationCounts_of_estimateKernel {map : EstimateMap}
    (returned : nest.estimateKernel.outcome start = (.ok map, last)) :
    ∃ counted, nest.iterationCounts.outcome start.ledger = (.ok map.loopIterations, counted) := by
  obtain ⟨⟨iterations, estimator⟩, middle, surveyed, rest⟩ := outcome_bind_eq_ok.mp returned
  obtain ⟨estimates, _, _, same⟩ := outcome_bind_eq_ok.mp rest
  cases same
  obtain ⟨counted, _, onLoops, _⟩ := survey_eq_ok surveyed
  exact ⟨counted, onLoops⟩

end LoopNest

end KernelFootprint
