import KernelFootprint.Proofs.Findings
import KernelFootprint.Proofs.Recording

/-!
# Strict estimations

A strict estimation does the same as one that is not, up to the first error of shape. All
analyses are the same, as they never ask for strictness, so the two keep the same ledger
and issue the same warnings. At the first access with an error of shape the strict
estimation fails with that error, before anything has been delivered about this access.
-/

namespace KernelFootprint

open Estimation

namespace LoopNest

/-- The loop nest with another setting of strictness. -/
def withStrict (nest : LoopNest) (strict : Datum) : LoopNest :=
  { nest with settings := { nest.settings with strict := strict } }

variable (nest : LoopNest) (strict : Datum)

theorem lowerBoundWithin_withStrict (budget : Nat) :
    (nest.withStrict strict).lowerBoundWithin budget = nest.lowerBoundWithin budget := by
  induction budget with
  | zero => rfl
  | succ budget ih =>
      funext loop
      unfold lowerBoundWithin
      rw [ih]
      rfl

theorem lowerBound_withStrict : (nest.withStrict strict).lowerBound = nest.lowerBound := by
  funext loop
  exact congrFun (nest.lowerBoundWithin_withStrict strict (nest.kernel.loops.length + 1)) loop

theorem upperBound_withStrict : (nest.withStrict strict).upperBound = nest.upperBound := by
  funext loop
  unfold upperBound
  rw [lowerBound_withStrict]
  rfl

theorem iterationCount_withStrict :
    (nest.withStrict strict).iterationCount = nest.iterationCount := by
  funext loop
  unfold iterationCount
  rw [lowerBound_withStrict]
  rfl

theorem view_withStrict : (nest.withStrict strict).view = nest.view := by
  unfold view
  rw [lowerBound_withStrict, upperBound_withStrict, iterationCount_withStrict]
  rfl

theorem nestedFrom_withStrict (loop : Datum) (steps : Nat) :
    (nest.withStrict strict).nestedFrom loop steps = nest.nestedFrom loop steps := by
  induction steps with
  | zero => rfl
  | succ steps ih =>
      funext seen current total
      unfold nestedFrom
      rw [ih, iterationCount_withStrict]
      rfl

theorem nestedIterationCount_withStrict :
    (nest.withStrict strict).nestedIterationCount = nest.nestedIterationCount := by
  funext loop
  unfold nestedIterationCount
  rw [nestedFrom_withStrict]
  rfl

theorem iterationCounts_withStrict :
    (nest.withStrict strict).iterationCounts = nest.iterationCounts := by
  unfold iterationCounts countIfComputable
  rw [iterationCount_withStrict]
  rfl

end LoopNest

namespace Estimation

variable {First Second : Type}

/-- What an estimation comes to if the first of some findings has to end it. Without a finding
it returns; with one it fails with its error and has delivered nothing. -/
def Heeds (found : Option Finding) (estimation : Estimation First) (start : Progress)
    (result : First) (last : Progress) : Prop :=
  match found with
  | none => estimation.outcome start = (.ok result, last)
  | some finding => ∃ stopped,
      estimation.outcome start = (.error finding.error, stopped) ∧ stopped.sink = start.sink

variable {found later : Option Finding} {first : Estimation First}
  {next : First → Estimation Second} {start middle last : Progress} {value : First}
  {result : Second}

theorem Heeds.bind (heeds : Heeds found first start value middle)
    (silent : middle.sink = start.sink) (onward : Heeds later (next value) middle result last) :
    Heeds (found.or later) (first >>= next) start result last := by
  cases found with
  | some finding =>
      obtain ⟨stopped, failed, still⟩ := heeds
      refine ⟨stopped, ?_, still⟩
      rw [outcome_bind, failed]
  | none =>
      have returned : first.outcome start = (.ok value, middle) := heeds
      cases later with
      | none =>
          change (first >>= next).outcome start = _
          rw [outcome_bind, returned]
          exact onward
      | some finding =>
          obtain ⟨stopped, failed, still⟩ := onward
          refine ⟨stopped, ?_, still.trans silent⟩
          rw [outcome_bind, returned]
          exact failed

/-- After the findings deliveries may follow. -/
theorem Heeds.followed (heeds : Heeds found first start value middle)
    (onward : (next value).outcome middle = (.ok result, last)) :
    Heeds found (first >>= next) start result last := by
  cases found with
  | some finding =>
      obtain ⟨stopped, failed, still⟩ := heeds
      refine ⟨stopped, ?_, still⟩
      rw [outcome_bind, failed]
  | none =>
      have returned : first.outcome start = (.ok value, middle) := heeds
      change (first >>= next).outcome start = _
      rw [outcome_bind, returned]
      exact onward

end Estimation

namespace Estimator

/-- The estimator with another setting of strictness. -/
def withStrict (estimator : Estimator) (strict : Datum) : Estimator :=
  { estimator with nest := estimator.nest.withStrict strict }

section Heeding

variable {estimator : Estimator} {access : AccessRecord} {expression : BinaryTree}
  {strict : Datum} {start last : Progress}

theorem heeds_recordFailure (holds : strict.holds = true) {what text : String}
    {error : AnalysisError}
    (recorded : (estimator.recordFailure access what error).outcome start = (.ok text, last)) :
    Heeds ([(⟨what, error⟩ : Finding)].find? Finding.isMisshapen)
      ((estimator.withStrict strict).recordFailure access what error) start text last := by
  cases error with
  | misshapen cause =>
      have strictly : (estimator.withStrict strict).settings.strict.holds = true := holds
      refine ⟨start, ?_, rfl⟩
      rw [recordFailure]
      dsimp only
      rw [if_pos strictly]
      rfl
  | _ => exact recorded

theorem find?_cons_eq_or {Element : Type} (test : Element → Bool) (first : Element)
    (rest : List Element) :
    (first :: rest).find? test = ([first].find? test).or (rest.find? test) := by
  rw [← List.find?_append]
  rfl

theorem heeds_sensitivities (holds : strict.holds = true)
    {axes : List (SensitivityAxis × Analysis Value)}
    {found : List (SensitivityAxis × Value) × List String}
    (surveyed : (estimator.sensitivities access axes).outcome start = (.ok found, last)) :
    Heeds ((findingsAmong (axes.map axisQuestion) start.ledger).find? Finding.isMisshapen)
      ((estimator.withStrict strict).sensitivities access axes) start found last := by
  induction axes generalizing start found with
  | nil => exact surveyed
  | cons first rest ih =>
      obtain ⟨axis, compute⟩ := first
      obtain ⟨outcome, middle, attempted, onward⟩ := outcome_bind_eq_ok.mp surveyed
      have same : Heeds none (attemptAnalysis compute) start outcome middle := attempted
      have silent := (isSilent_attemptAnalysis compute).eq attempted
      rw [outcome_attemptAnalysis] at attempted
      rw [List.map_cons, findingsAmong, axisQuestion]
      rcases computed : compute.outcome start.ledger with ⟨(error | cause) | value, after⟩
      · rw [computed] at attempted
        cases attempted
        obtain ⟨text, noted, recorded, onward⟩ := outcome_bind_eq_ok.mp onward
        obtain ⟨others, _, onRest, returned⟩ := outcome_bind_eq_ok.mp onward
        cases returned
        have quiet := (isSilent_recordFailure _ error).eq recorded
        have afterwards := ih onRest
        rw [(recordFailure_eq_ok recorded).2] at afterwards
        dsimp only
        rw [find?_cons_eq_or]
        exact same.bind silent
          ((heeds_recordFailure holds recorded).bind quiet (afterwards.followed rfl))
      · rw [computed] at attempted
        cases attempted
      · rw [computed] at attempted
        cases attempted
        obtain ⟨others, _, onRest, returned⟩ := outcome_bind_eq_ok.mp onward
        cases returned
        exact same.bind silent ((ih onRest).followed rfl)

/-- The working set is asked for in the same way, and its error heeded in the same way. -/
theorem heeds_spread (holds : strict.holds = true)
    {found : Option Value × List Flag × List String}
    (spread : (estimator.spread access expression).outcome start = (.ok found, last)) :
    Heeds ((findingsAmong (estimator.spreadQuestions access expression) start.ledger).find?
        Finding.isMisshapen)
      ((estimator.withStrict strict).spread access expression) start found last := by
  rw [spread_eq] at spread ⊢
  rw [spreadQuestions]
  rcases settles : (addressTree access expression).settled? with _ | settled
  · rw [settles] at spread
    dsimp only at spread ⊢
    have viewed : workingSetSize (estimator.withStrict strict).resolver
        (some (estimator.withStrict strict).nest.view) (.integer access.loop)
          (addressTree access expression) =
        workingSetSize estimator.resolver (some estimator.nest.view) (.integer access.loop)
          (addressTree access expression) :=
      congrArg (fun view => workingSetSize estimator.resolver (some view) _ _)
        (estimator.nest.view_withStrict strict)
    rw [viewed]
    obtain ⟨outcome, middle, attempted, onward⟩ := outcome_bind_eq_ok.mp spread
    have same : Heeds none (attemptAnalysis (workingSetSize estimator.resolver
      (some estimator.nest.view) (.integer access.loop) (addressTree access expression))) start
        outcome middle := attempted
    have silent := (isSilent_attemptAnalysis _).eq attempted
    rw [outcome_attemptAnalysis] at attempted
    rw [findingsAmong]
    rcases computed : (workingSetSize estimator.resolver (some estimator.nest.view)
        (.integer access.loop) (addressTree access expression)).outcome start.ledger with
      ⟨(error | cause) | value, after⟩
    · rw [computed] at attempted
      cases attempted
      cases error with
      | incomputable loop obstacle => exact same.bind silent onward
      | _ =>
          obtain ⟨text, noted, recorded, returned⟩ := outcome_bind_eq_ok.mp onward
          cases returned
          exact same.bind silent ((heeds_recordFailure holds recorded).followed rfl)
    · rw [computed] at attempted
      cases attempted
    · rw [computed] at attempted
      cases attempted
      exact same.bind silent onward
  · rw [settles] at spread
    exact spread

theorem heeds_quantities (holds : strict.holds = true) {nested : Value} {estimate : Estimate}
    (computes : estimator.Computes access expression nested start estimate last) :
    Heeds ((findingsAmong (estimator.questions access expression) computes.counted).find?
        Finding.isMisshapen)
      ((estimator.withStrict strict).quantities access expression nested) start estimate
        last := by
  have counted : Heeds none (Estimation.ofAnalysis (estimator.emitter.combine .mul
      (estimator.threads.promote .wide) (nested.promote .wide))) start computes.executionCount
        { start with ledger := computes.counted } :=
    outcome_ofAnalysis_eq_ok.mpr ⟨computes.counted, computes.multiplied, rfl⟩
  have surveyed := heeds_sensitivities holds computes.axes
  have spread := heeds_spread holds computes.spread
  rw [(findings_of_sensitivities computes.axes).2] at spread
  rw [questions, findingsAmong_append, List.find?_append, quantities_eq]
  refine counted.bind rfl (surveyed.bind ((isSilent_sensitivities _).eq computes.axes) ?_)
  refine spread.followed ?_
  exact congrArg (fun made => (Except.ok made, last)) computes.made.symm

/-- An access of a strict estimation has the same estimate, unless an error of shape is found
about it. -/
theorem heeds_estimate (holds : strict.holds = true) {estimate : Estimate}
    (comes : estimator.Comes access start estimate last) :
    Heeds (estimator.misshapen? access start.ledger)
      ((estimator.withStrict strict).estimate access) start estimate last := by
  have nesting : (estimator.withStrict strict).nest.nestedIterationCount =
      estimator.nest.nestedIterationCount :=
    estimator.nest.nestedIterationCount_withStrict strict
  have attempted (loop : Datum) : Heeds none
      (attempt ((estimator.withStrict strict).nest.nestedIterationCount loop)) start
        ((estimator.nest.nestedIterationCount loop).outcome start.ledger).1
        { start with
          ledger := ((estimator.nest.nestedIterationCount loop).outcome start.ledger).2 } := by
    rw [nesting]
    exact outcome_attempt _ start
  unfold Estimator.estimate misshapen? findings
  cases comes with
  | unanalyzable unbuilt =>
      rw [unbuilt]
      exact outcome_pure _ start
  | incomputable built counted warned =>
      have after := attempted (.integer access.loop)
      rw [counted] at after
      rw [built]
      dsimp only
      rw [counted]
      refine after.bind rfl ?_
      exact outcome_bind_eq_ok.mpr ⟨(), last, warned, rfl⟩
  | computable built counted computed =>
      obtain ⟨computes⟩ := computes_of_quantities computed
      have after := attempted (.integer access.loop)
      rw [counted] at after
      rw [built]
      dsimp only
      rw [counted]
      dsimp only
      rw [computes.multiplied]
      exact after.bind rfl (heeds_quantities holds computes)

/-- About an access with an error of shape nothing is delivered. -/
theorem heeds_complete (holds : strict.holds = true) {estimate : Estimate}
    (completed : (estimator.complete access).outcome start = (.ok estimate, last)) :
    Heeds (estimator.misshapen? access start.ledger)
      ((estimator.withStrict strict).complete access) start estimate last := by
  obtain ⟨made, middle, estimated, onward⟩ := outcome_bind_eq_ok.mp completed
  exact (heeds_estimate holds (comes_of_estimate estimated)).followed onward

end Heeding

variable {estimator : Estimator} {access : AccessRecord} {accesses : List AccessRecord}
  {strict : Datum} {start turn last : Progress} {made : List Estimate}

/-- After the first turn the others come in the same order. -/
theorem comesTo_cons {first : AccessRecord} {rest : List AccessRecord} {estimate : Estimate}
    {middle : Progress}
    (completed : (estimator.complete first).outcome start = (.ok estimate, middle))
    (comes : estimator.ComesTo (first :: rest) start access turn) :
    (access = first ∧ turn = start) ∨ estimator.ComesTo rest middle access turn := by
  obtain ⟨before, others, earlier, split, onward⟩ := comes
  cases before with
  | nil =>
      cases split
      cases onward
      exact .inl ⟨rfl, rfl⟩
  | cons head before =>
      cases split
      rw [List.mapM_cons] at onward
      obtain ⟨again, next, completedAgain, onward⟩ := outcome_bind_eq_ok.mp onward
      rw [completed] at completedAgain
      cases completedAgain
      obtain ⟨afterwards, _, onRest, same⟩ := outcome_bind_eq_ok.mp onward
      cases same
      exact .inr ⟨before, others, afterwards, rfl, onRest⟩

theorem ComesTo.mem (comes : estimator.ComesTo accesses start access turn) :
    access ∈ accesses := by
  obtain ⟨before, others, _, rfl, _⟩ := comes
  exact List.mem_append_right _ (List.mem_cons_self ..)

/-- A run that ends at the first access with an error of shape, after everything about the
accesses before it has been delivered and nothing about those from it on. -/
structure EndsAt (estimator : Estimator) (accesses : List AccessRecord) (start : Progress)
    (made : List Estimate) (access : AccessRecord) (finding : Finding) (stopped : Progress) :
    Prop where
  found : ∃ turn, estimator.ComesTo accesses start access turn ∧
    estimator.misshapen? access turn.ledger = some finding
  recorded : ∃ estimate ∈ made, estimate.key = estimator.key access ∧
    finding.text ∈ estimate.errors
  first : ∀ earlier turn, estimator.ComesTo accesses start earlier turn →
    earlier.id < access.id → estimator.misshapen? earlier turn.ledger = none
  delivered : start.sink.receiveAll
    ((made.filter (fun estimate => estimate.key.access < access.id)).flatMap
      Estimate.deliveries) = .ok stopped.sink

section Run

variable {first : AccessRecord} {rest : List AccessRecord} {estimate : Estimate}
  {others : List Estimate} {middle stopped : Progress} {finding : Finding}

theorem EndsAt.here
    (completed : (estimator.complete first).outcome start = (.ok estimate, middle))
    (onward : (rest.mapM estimator.complete).outcome middle = (.ok others, last))
    (follow : ∀ other ∈ rest, first.id < other.id)
    (shape : estimator.misshapen? first start.ledger = some finding)
    (still : stopped.sink = start.sink) :
    estimator.EndsAt (first :: rest) start (estimate :: others) first finding stopped := by
  obtain ⟨_, comes⟩ := comes_of_complete completed
  refine ⟨⟨start, comesTo_first first rest start, shape⟩, ?_, ?_, ?_⟩
  · exact ⟨estimate, List.mem_cons_self .., comes.key_eq,
      comes.text_mem (List.mem_of_find?_eq_some shape)⟩
  · intro earlier turn comesTo precedes
    rcases comesTo_cons completed comesTo with ⟨rfl, rfl⟩ | later
    · exact absurd precedes (lt_irrefl _)
    · exact absurd precedes (lt_asymm (follow earlier later.mem))
  · have none : (estimate :: others).filter
        (fun estimate => estimate.key.access < first.id) = [] := by
      refine List.filter_eq_nil_iff.mpr (List.forall_mem_cons.mpr ⟨?_, ?_⟩)
      · rw [comes.key_eq]
        exact fun precedes => lt_irrefl _ (of_decide_eq_true precedes)
      · intro other member precedes
        have keyed : other.key ∈ rest.map estimator.key :=
          keys_of_mapM_complete onward ▸ List.mem_map_of_mem member
        obtain ⟨access, inside, same⟩ := List.mem_map.mp keyed
        rw [← same] at precedes
        exact lt_asymm (follow access inside) (of_decide_eq_true precedes)
    rw [none, still]
    rfl

theorem EndsAt.later
    (completed : (estimator.complete first).outcome start = (.ok estimate, middle))
    (follow : ∀ other ∈ rest, first.id < other.id)
    (shape : estimator.misshapen? first start.ledger = none)
    (ends : estimator.EndsAt rest middle others access finding stopped) :
    estimator.EndsAt (first :: rest) start (estimate :: others) access finding stopped := by
  obtain ⟨_, comes⟩ := comes_of_complete completed
  obtain ⟨turn, comesTo, found⟩ := ends.found
  obtain ⟨other, member, recorded⟩ := ends.recorded
  refine ⟨⟨turn, comesTo.later completed, found⟩,
    ⟨other, List.mem_cons_of_mem _ member, recorded⟩, ?_, ?_⟩
  · intro earlier turn comesTo precedes
    rcases comesTo_cons completed comesTo with ⟨rfl, rfl⟩ | later
    · exact shape
    · exact ends.first earlier turn later precedes
  · have precedes : estimate.key.access < access.id := by
      rw [comes.key_eq]
      exact follow access comesTo.mem
    have kept : (estimate :: others).filter (fun estimate => estimate.key.access < access.id) =
        estimate :: others.filter (fun estimate => estimate.key.access < access.id) :=
      List.filter_cons_of_pos (decide_eq_true precedes)
    rw [kept, List.flatMap_cons,
      Sink.receiveAll_append (receiveAll_of_complete completed)]
    exact ends.delivered

end Run

/-- A strict run over accesses in ascending order does the same as one that returned, or ends
at the first access with an error of shape. -/
theorem strict_of_mapM_complete (holds : strict.holds = true)
    (ascending : accesses.Pairwise (fun first second => first.id < second.id))
    (completed : (accesses.mapM estimator.complete).outcome start = (.ok made, last))
    (earlier : List Estimate) :
    ((∀ access turn, estimator.ComesTo accesses start access turn →
        estimator.misshapen? access turn.ledger = none) ∧
      ((estimator.withStrict strict).estimateAll accesses earlier).outcome start =
        (.ok (made.foldl (fun all estimate => EstimateMap.insertIn estimate all) earlier), last)) ∨
      ∃ access finding stopped, estimator.EndsAt accesses start made access finding stopped ∧
        ((estimator.withStrict strict).estimateAll accesses earlier).outcome start =
          (.error finding.error, stopped) := by
  induction accesses generalizing start made earlier with
  | nil =>
      cases completed
      refine .inl ⟨fun access turn comes => ?_, rfl⟩
      cases comes.mem
  | cons first rest ih =>
      obtain ⟨onFirst, onRest⟩ := List.pairwise_cons.mp ascending
      rw [List.mapM_cons] at completed
      obtain ⟨estimate, middle, completedFirst, completed⟩ := outcome_bind_eq_ok.mp completed
      obtain ⟨others, _, completedRest, same⟩ := outcome_bind_eq_ok.mp completed
      cases same
      have heeds := heeds_complete holds completedFirst
      obtain ⟨_, comes⟩ := comes_of_complete completedFirst
      rw [estimateAll_cons]
      cases shape : estimator.misshapen? first start.ledger with
      | some finding =>
          rw [shape] at heeds
          obtain ⟨stopped, failed, still⟩ := heeds
          refine .inr ⟨first, finding, stopped,
            .here completedFirst completedRest onFirst shape still, ?_⟩
          rw [outcome_bind, failed]
      | none =>
          rw [shape] at heeds
          have returned : ((estimator.withStrict strict).complete first).outcome start =
            (.ok estimate, middle) := heeds
          rw [outcome_bind, returned]
          rcases ih onRest completedRest (EstimateMap.insertIn estimate earlier) with
            ⟨clean, same⟩ | ⟨access, finding, stopped, ends, failed⟩
          · refine .inl ⟨fun access turn comes => ?_, same⟩
            rcases comesTo_cons completedFirst comes with ⟨rfl, rfl⟩ | later
            · exact shape
            · exact clean access turn later
          · exact .inr ⟨access, finding, stopped, .later completedFirst onFirst shape ends, failed⟩

end Estimator

theorem EstimateMap.IsOrderly.filter {invocation : Datum} {map : EstimateMap}
    (orderly : map.IsOrderly invocation) (keep : Estimate → Bool) :
    (map.filter keep).IsOrderly invocation where
  invocations := fun estimate member => orderly.invocations estimate (List.mem_of_mem_filter member)
  accesses := orderly.accesses.filter keep
  loops := orderly.loops
  flags := fun estimate member => orderly.flags estimate (List.mem_of_mem_filter member)
  axes := fun estimate member => orderly.axes estimate (List.mem_of_mem_filter member)

namespace LoopNest

/-- At its turn, an error of shape is the first that is found about an access. -/
def Records (nest : LoopNest) (start : Progress) (access : AccessRecord) (finding : Finding) :
    Prop :=
  ∃ estimator turn, nest.IsTurn start estimator access turn ∧
    estimator.misshapen? access turn.ledger = some finding

/-- A strict estimation that has failed with the first error of shape. Its sink holds what was
returned about the loops and about the accesses before, and nothing else. -/
structure FailsAt (nest : LoopNest) (start : Progress) (map : EstimateMap)
    (access : AccessRecord) (finding : Finding) (stopped : Progress) : Prop where
  records : nest.Records start access finding
  recorded : ∃ estimate ∈ map.estimates, estimate.key.access = access.id ∧
    finding.text ∈ estimate.errors
  first : ∀ earlier other, nest.Records start earlier other → access.id ≤ earlier.id
  sink : stopped.sink = .recording (Recording.of
    [⟨nest.resolver.invocation.id, map.filter (fun estimate => estimate.key.access < access.id)⟩])

variable {nest : LoopNest} {start last : Progress} {map : EstimateMap} {strict : Datum}

theorem survey_withStrict {counts : List (Int × Option Value)} {estimator : Estimator}
    (surveyed : nest.survey.outcome start = (.ok (counts, estimator), last)) :
    (nest.withStrict strict).survey.outcome start =
      (.ok (counts, estimator.withStrict strict), last) := by
  obtain ⟨_, first, counted, rest⟩ := outcome_bind_eq_ok.mp surveyed
  obtain ⟨_, reported, delivered, rest⟩ := outcome_bind_eq_ok.mp rest
  obtain ⟨threads, final, multiplied, same⟩ := outcome_bind_eq_ok.mp rest
  cases same
  rw [survey, iterationCounts_withStrict]
  exact outcome_bind_eq_ok.mpr ⟨_, first, counted, outcome_bind_eq_ok.mpr ⟨_, reported, delivered,
    outcome_bind_eq_ok.mpr ⟨threads, last, multiplied, rfl⟩⟩⟩

theorem strict_of_estimateKernel (filed : nest.kernel.IsFiled) (holds : strict.holds = true)
    (fresh : start.sink = .recording {})
    (returned : nest.estimateKernel.outcome start = (.ok map, last)) :
    ((∀ access finding, ¬ nest.Records start access finding) ∧
        (nest.withStrict strict).estimateKernel.outcome start = (.ok map, last)) ∨
      ∃ access finding stopped, nest.FailsAt start map access finding stopped ∧
        (nest.withStrict strict).estimateKernel.outcome start =
          (.error finding.error, stopped) := by
  have orderly := isOrderly_of_estimateKernel filed returned
  obtain ⟨estimator, surveyed, onSurvey, completed⟩ := estimateKernel_eq_ok filed returned
  have turns {access : AccessRecord} {finding : Finding}
      (records : nest.Records start access finding) :
      ∃ turn, estimator.ComesTo nest.accesses surveyed access turn ∧
        estimator.misshapen? access turn.ledger = some finding := by
    obtain ⟨other, turn, ⟨counts, before, onSurveyAgain, comesTo⟩, found⟩ := records
    rw [onSurvey] at onSurveyAgain
    cases onSurveyAgain
    exact ⟨turn, comesTo, found⟩
  rw [estimateKernel, outcome_bind, survey_withStrict onSurvey]
  rcases Estimator.strict_of_mapM_complete holds (ascending_accesses filed) completed [] with
    ⟨clean, same⟩ | ⟨access, finding, stopped, ends, failed⟩
  · refine .inl ⟨fun access finding records => ?_, ?_⟩
    · obtain ⟨turn, comesTo, found⟩ := turns records
      rw [clean access turn comesTo] at found
      cases found
    · have kept : map.estimates.foldl
          (fun all estimate => EstimateMap.insertIn estimate all) [] = map.estimates :=
        EstimateMap.foldl_insertIn (orderly.accesses.imp
          (fun ascending => AccessKey.beq_of_access_ne (ne_of_lt ascending)))
      rw [kept] at same
      exact outcome_bind_eq_ok.mpr ⟨map.estimates, last, same, rfl⟩
  · refine .inr ⟨access, finding, stopped, ⟨?_, ?_, ?_, ?_⟩, ?_⟩
    · obtain ⟨turn, comesTo, found⟩ := ends.found
      exact ⟨estimator, turn, ⟨_, surveyed, onSurvey, comesTo⟩, found⟩
    · obtain ⟨estimate, member, keyed, recorded⟩ := ends.recorded
      exact ⟨estimate, member, congrArg AccessKey.access keyed, recorded⟩
    · intro earlier other records
      obtain ⟨turn, comesTo, found⟩ := turns records
      refine not_lt.mp (fun precedes => ?_)
      rw [ends.first earlier turn comesTo precedes] at found
      cases found
    · have received : start.sink.receiveAll
          ((map.filter (fun estimate => estimate.key.access < access.id)).deliveries
            nest.resolver.invocation.id) = .ok stopped.sink := by
        rw [EstimateMap.deliveries]
        exact (Sink.receiveAll_append (receiveAll_of_survey onSurvey) _).trans ends.delivered
      rw [fresh] at received
      exact Sink.recording_of_receiveAll (orderly.filter _) received
    · have strictly : ((estimator.withStrict strict).estimateAll
          (nest.withStrict strict).accesses []).outcome surveyed =
            (.error finding.error, stopped) := failed
      dsimp only
      rw [outcome_bind, strictly]

end LoopNest

theorem outcome_estimateInvocation_none {catalogue : Catalogue} {settings : Settings}
    {resolver : Resolver} (absent : catalogue.find? resolver.invocation.kernel = .ok none)
    (start : Progress) :
    (estimateInvocation catalogue settings resolver).outcome start = (.ok {}, start) := by
  rw [estimateInvocation, absent]
  rfl

/-- Suppose that an estimation with a fresh recording sink returns. If no error of shape is
recorded on any access, the strict estimation does the same. Otherwise the strict estimation
fails with the error of the first access that has one, and its sink holds the counts of the
loops and all that was returned about the accesses before. -/
theorem strict_of_estimateInvocation {catalogue : Catalogue} {settings : Settings}
    {resolver : Resolver} {strict : Datum} (filed : catalogue.IsFiled)
    (holds : strict.holds = true) {start last : Progress} {map : EstimateMap}
    (fresh : start.sink = .recording {})
    (returned : (estimateInvocation catalogue settings resolver).outcome start =
      (.ok map, last)) :
    ((∀ kernel, catalogue.find? resolver.invocation.kernel = .ok (some kernel) →
        ∀ access finding, ¬ LoopNest.Records ⟨kernel, resolver, settings⟩ start access finding) ∧
        (estimateInvocation catalogue { settings with strict := strict } resolver).outcome start =
          (.ok map, last)) ∨
      ∃ kernel access finding stopped,
        catalogue.find? resolver.invocation.kernel = .ok (some kernel) ∧
        LoopNest.FailsAt ⟨kernel, resolver, settings⟩ start map access finding stopped ∧
        (estimateInvocation catalogue { settings with strict := strict } resolver).outcome start =
          (.error finding.error, stopped) := by
  rcases found : catalogue.find? resolver.invocation.kernel with cause | _ | kernel
  · rw [estimateInvocation, found] at returned
    cases returned
  · rw [outcome_estimateInvocation_none found] at returned ⊢
    refine .inl ⟨fun other same => ?_, returned⟩
    cases same
  · rw [outcome_estimateInvocation found] at returned ⊢
    rcases LoopNest.strict_of_estimateKernel (filed.find? found) holds fresh returned with
      ⟨clean, same⟩ | ⟨access, finding, stopped, fails, failed⟩
    · refine .inl ⟨fun other same => ?_, same⟩
      cases same
      exact clean
    · exact .inr ⟨kernel, access, finding, stopped, rfl, fails, failed⟩

namespace LoopNest

/-- An access in a loop, one at an address that adds a node without a value, and a third one. -/
def interrupted : KernelRecord where
  name := .text "kernel"
  loops := [(1, endingAt (.constant 8))]
  accesses :=
    [(1, accessAt 1 1 threadIndex),
      (2, accessAt 2 0 (.branch "ADD" .add threadIndex (.leaf (.text "GEP") (.structural .gep)))),
      (3, accessAt 3 0 threadIndex)]

theorem isFiled_interrupted : interrupted.IsFiled := ⟨by decide, by decide, by decide⟩

def recordedAccesses : Sink → List Int
  | .recording kept => kept.executionCounts.map (fun entry => entry.1.access)
  | _ => []

/-- The strict estimation fails at the second of three accesses, with the first one kept. -/
theorem strict_of_estimateInvocation_interrupted :
    ∃ map last access finding stopped,
      (estimateInvocation (catalogued interrupted) {} (.sample (.constant 128))).outcome
        { sink := .recording {} } = (.ok map, last) ∧
      recordedAccesses last.sink = [1, 2, 3] ∧
      (estimateInvocation (catalogued interrupted) { strict := .flag true }
        (.sample (.constant 128))).outcome { sink := .recording {} } =
          (.error finding.error, stopped) ∧
      recordedAccesses stopped.sink = [1] ∧
      FailsAt ⟨interrupted, .sample (.constant 128), {}⟩ { sink := .recording {} } map access
        finding stopped := by
  have results :
      let lax := (estimateInvocation (catalogued interrupted) {}
        (.sample (.constant 128))).outcome { sink := .recording {} }
      let strictly := (estimateInvocation (catalogued interrupted) { strict := .flag true }
        (.sample (.constant 128))).outcome { sink := .recording {} }
      (lax.1.toOption.isSome, recordedAccesses lax.2.sink, strictly.1.toOption.isSome,
        recordedAccesses strictly.2.sink) = (true, [1, 2, 3], false, [1]) := by decide +kernel
  obtain ⟨returns, results⟩ := Prod.ext_iff.mp results
  obtain ⟨laxly, results⟩ := Prod.ext_iff.mp results
  obtain ⟨fails, strictly⟩ := Prod.ext_iff.mp results
  rcases lax : (estimateInvocation (catalogued interrupted) {} (.sample (.constant 128))).outcome
      { sink := .recording {} } with ⟨fault | map, last⟩
  · rw [lax] at returns
    cases returns
  · rw [lax] at laxly
    have filed : (catalogued interrupted).IsFiled := isFiled_catalogued isFiled_interrupted
    rcases strict_of_estimateInvocation filed (rfl : (Datum.flag true).holds = true) rfl lax with
      ⟨_, same⟩ | ⟨kernel, access, finding, stopped, found, failsAt, failed⟩
    · have ended : (estimateInvocation (catalogued interrupted) { strict := .flag true }
          (.sample (.constant 128))).outcome { sink := .recording {} } = (.ok map, last) := same
      rw [ended] at fails
      cases fails
    · have named : (catalogued interrupted).find? (.text "kernel") = .ok (some interrupted) := rfl
      rw [show (Resolver.sample (.constant 128)).invocation.kernel = .text "kernel" from rfl,
        named] at found
      cases found
      have ended : (estimateInvocation (catalogued interrupted) { strict := .flag true }
          (.sample (.constant 128))).outcome { sink := .recording {} } =
            (.error finding.error, stopped) := failed
      rw [ended] at strictly
      exact ⟨map, last, access, finding, stopped, rfl, laxly, ended, strictly, failsAt⟩

end LoopNest

end KernelFootprint
