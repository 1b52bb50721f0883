import KernelFootprint.Proofs.Filing
import KernelFootprint.Proofs.Reasons

/-!
# Deliveries of an estimation

An estimation delivers to its sink the counts of the loops, and then every estimate at the
end of its turn. While an estimate is being made nothing is delivered, whether it is made
in the end or not. Hence the sink that an estimation of a filed kernel leaves behind is the
one before it with the deliveries that the returned map calls for, in their order.
-/

namespace KernelFootprint

open Estimation

theorem AccessKey.beq_of_access_ne {first second : AccessKey}
    (different : first.access ≠ second.access) : (first == second) = false := by
  change (first.access == second.access && _ && _) = false
  rw [beq_eq_false_iff_ne.mpr different, Bool.false_and, Bool.false_and]

theorem AccessKey.beq_of_invocation_ne {first second : AccessKey}
    (different : (first.invocation == second.invocation) = false) :
    (first == second) = false := by
  change (_ && (first.invocation == second.invocation)) = false
  rw [different, Bool.and_false]

namespace Sink

/-- The sink after several deliveries, unless one of them fails. -/
def receiveAll (sink : Sink) (deliveries : List Delivery) : Except Fault Sink :=
  deliveries.foldlM Sink.receive sink

theorem receiveAll_append {sink middle : Sink} {first : List Delivery}
    (received : sink.receiveAll first = .ok middle) (second : List Delivery) :
    sink.receiveAll (first ++ second) = middle.receiveAll second := by
  rw [receiveAll, List.foldlM_append]
  rw [receiveAll] at received
  rw [received]
  rfl

end Sink

namespace Estimation

variable {First Second Part : Type} {part : Progress → Part}

/-- An estimation that keeps a part of the progress, whether it fails or not. -/
def Preserves (part : Progress → Part) (estimation : Estimation First) : Prop :=
  ∀ progress, part (estimation.outcome progress).2 = part progress

theorem preserves_pure (value : First) : Preserves part (pure value : Estimation First) :=
  fun _ => rfl

theorem preserves_throw (fault : Fault) : Preserves part (throw fault : Estimation First) :=
  fun _ => rfl

theorem Preserves.bind {first : Estimation First} {next : First → Estimation Second}
    (onFirst : Preserves part first) (onNext : ∀ value, Preserves part (next value)) :
    Preserves part (first >>= next) := by
  intro progress
  have before := onFirst progress
  rw [outcome_bind]
  rcases found : first.outcome progress with ⟨fault | value, middle⟩
  · rw [found] at before
    exact before
  · rw [found] at before
    exact (onNext value middle).trans before

theorem preserves_ofExcept (result : Except Fault First) : Preserves part (ofExcept result) := by
  cases result <;> exact fun _ => rfl

/-- Warnings change nothing but the warnings. -/
theorem preserves_warn
    (apart : ∀ progress warnings, part { progress with warnings := warnings } = part progress)
    (patterns : Datum) (kernel id text : String) (category : WarningCategory) :
    Preserves part (warn patterns kernel id text category) := by
  refine (preserves_ofExcept _).bind (fun issued => ?_)
  cases issued with
  | none => exact preserves_pure _
  | some warning => exact fun progress => apart progress _

theorem Preserves.eq {estimation : Estimation First} (preserved : Preserves part estimation)
    {start after : Progress} {result : Except Fault First}
    (found : estimation.outcome start = (result, after)) : part after = part start := by
  have kept := preserved start
  rwa [found] at kept

/-- An estimation that delivers nothing. -/
abbrev IsSilent (estimation : Estimation First) : Prop := Preserves Progress.sink estimation

theorem isSilent_attempt (analysis : Analysis First) : IsSilent (attempt analysis) := fun _ => rfl

theorem isSilent_ofAnalysis (analysis : Analysis First) : IsSilent (ofAnalysis analysis) :=
  (isSilent_attempt analysis).bind preserves_ofExcept

theorem isSilent_attemptAnalysis (analysis : Analysis First) :
    IsSilent (attemptAnalysis analysis) := by
  intro progress
  rw [outcome_attemptAnalysis]

/-- Only the sink changes with a delivery. -/
theorem outcome_deliver_eq_ok {delivery : Delivery} {start after : Progress} {result : Unit}
    (delivered : (deliver delivery).outcome start = (.ok result, after)) :
    start.sink.receive delivery = .ok after.sink := by
  obtain ⟨_, _, got, rest⟩ := outcome_bind_eq_ok.mp delivered
  cases got
  obtain ⟨sink, _, received, last⟩ := outcome_bind_eq_ok.mp rest
  rw [outcome_ofExcept] at received
  cases last
  exact congrArg Prod.fst received

theorem receiveAll_of_forM {deliveries : List Delivery} {start after : Progress} {result : PUnit}
    (delivered : (deliveries.forM deliver).outcome start = (.ok result, after)) :
    start.sink.receiveAll deliveries = .ok after.sink := by
  induction deliveries generalizing start with
  | nil =>
      cases delivered
      rfl
  | cons first rest ih =>
      obtain ⟨_, middle, onFirst, onRest⟩ := outcome_bind_eq_ok.mp delivered
      have received : start.sink.receiveAll [first] = .ok middle.sink := by
        rw [Sink.receiveAll, List.foldlM_cons, outcome_deliver_eq_ok onFirst]
        rfl
      exact (Sink.receiveAll_append received rest).trans (ih onRest)

end Estimation

/-- What a sink is told about the counts of loops. -/
def iterationDeliveries (invocation : Datum) (counts : List (Int × Option Value)) :
    List Delivery :=
  counts.filterMap (fun entry => entry.2.map (.loopIterations invocation entry.1))

theorem deliverIterations_eq (invocation : Datum) (counts : List (Int × Option Value)) :
    deliverIterations invocation counts =
      (iterationDeliveries invocation counts).forM deliver := by
  induction counts with
  | nil => rfl
  | cons entry rest ih =>
      obtain ⟨loop, _ | count⟩ := entry
      · exact ih
      · rw [deliverIterations, ih]
        rfl

/-- What a sink is told about the estimates of an invocation. -/
def EstimateMap.deliveries (map : EstimateMap) (invocation : Datum) : List Delivery :=
  iterationDeliveries invocation map.loopIterations ++ map.estimates.flatMap Estimate.deliveries

theorem Invocation.nodup_axes (invocation : Invocation) : invocation.axes.Nodup := by
  rw [axes]
  split <;> decide

namespace Estimator

variable {estimator : Estimator} {access : AccessRecord}

/-- Recording a failure changes nothing but the warnings. -/
theorem preserves_recordFailure {Part : Type} {part : Progress → Part}
    (apart : ∀ progress warnings, part { progress with warnings := warnings } = part progress)
    (what : String) (error : AnalysisError) :
    Preserves part (estimator.recordFailure access what error) := by
  cases error with
  | misshapen cause =>
      rw [recordFailure]
      split
      · exact preserves_throw _
      · exact (preserves_warn apart _ _ _ _ _).bind (fun _ => preserves_pure _)
  | _ => exact preserves_pure _

theorem isSilent_recordFailure (what : String) (error : AnalysisError) :
    IsSilent (estimator.recordFailure access what error) :=
  preserves_recordFailure (fun _ _ => rfl) what error

theorem isSilent_sensitivities (axes : List (SensitivityAxis × Analysis Value)) :
    IsSilent (estimator.sensitivities access axes) := by
  induction axes with
  | nil => exact preserves_pure _
  | cons first rest ih =>
      refine (isSilent_attemptAnalysis first.2).bind (fun outcome => ?_)
      cases outcome with
      | ok value => exact ih.bind (fun _ => preserves_pure _)
      | error error =>
          exact (isSilent_recordFailure _ error).bind
            (fun text => ih.bind (fun _ => preserves_pure _))

theorem isSilent_spread (expression : BinaryTree) :
    IsSilent (estimator.spread access expression) := by
  rw [Estimator.spread]
  split
  · exact preserves_pure _
  rw [workingSet]
  split
  · exact preserves_pure _
  split
  · exact preserves_pure _
  refine (isSilent_attemptAnalysis _).bind (fun outcome => ?_)
  split
  · exact preserves_pure _
  · exact preserves_pure _
  · exact (isSilent_recordFailure _ _).bind (fun _ => preserves_pure _)

/-- Nothing is delivered of an estimate before it is made. -/
theorem isSilent_estimate : IsSilent (estimator.estimate access) := by
  unfold Estimator.estimate
  dsimp only
  split
  · exact preserves_pure _
  refine (isSilent_attempt _).bind (fun outcome => ?_)
  split
  · rw [quantities_eq]
    refine (isSilent_ofAnalysis _).bind (fun count => ?_)
    refine (isSilent_sensitivities _).bind (fun found => ?_)
    exact (isSilent_spread _).bind (fun _ => preserves_pure _)
  · exact (preserves_warn (fun _ _ => rfl) _ _ _ _ _).bind (fun _ => preserves_pure _)
  · exact preserves_throw _

variable {start last : Progress} {made : List Estimate} {accesses : List AccessRecord}

/-- At the end of a turn the whole estimate has been delivered. -/
theorem receiveAll_of_complete {estimate : Estimate}
    (completed : (estimator.complete access).outcome start = (.ok estimate, last)) :
    start.sink.receiveAll estimate.deliveries = .ok last.sink := by
  obtain ⟨made, after, estimated, rest⟩ := outcome_bind_eq_ok.mp completed
  by_cases serves : made.key.isKey = true
  · rw [if_pos serves] at rest
    obtain ⟨_, delivered, reported, same⟩ := outcome_bind_eq_ok.mp rest
    cases same
    rw [← isSilent_estimate.eq estimated]
    exact receiveAll_of_forM reported
  · rw [if_neg serves] at rest
    cases rest

theorem receiveAll_of_mapM_complete
    (completed : (accesses.mapM estimator.complete).outcome start = (.ok made, last)) :
    start.sink.receiveAll (made.flatMap Estimate.deliveries) = .ok last.sink := by
  induction accesses generalizing start made with
  | nil =>
      cases completed
      rfl
  | cons first rest ih =>
      rw [List.mapM_cons] at completed
      obtain ⟨estimate, middle, onFirst, completed⟩ := outcome_bind_eq_ok.mp completed
      obtain ⟨others, _, onRest, same⟩ := outcome_bind_eq_ok.mp completed
      cases same
      rw [List.flatMap_cons, Sink.receiveAll_append (receiveAll_of_complete onFirst)]
      exact ih onRest

/-- The estimates have the keys of their accesses. -/
theorem keys_of_mapM_complete
    (completed : (accesses.mapM estimator.complete).outcome start = (.ok made, last)) :
    made.map Estimate.key = accesses.map estimator.key := by
  induction accesses generalizing start made with
  | nil =>
      cases completed
      rfl
  | cons first rest ih =>
      rw [List.mapM_cons] at completed
      obtain ⟨estimate, middle, onFirst, completed⟩ := outcome_bind_eq_ok.mp completed
      obtain ⟨others, _, onRest, same⟩ := outcome_bind_eq_ok.mp completed
      cases same
      obtain ⟨_, comes⟩ := comes_of_complete onFirst
      rw [List.map_cons, List.map_cons, comes.key_eq, ih onRest]

/-- Every axis stands at most once among the sensitivities. -/
theorem ends_sensitivities_sublist (axes : List (SensitivityAxis × Analysis Value)) :
    Ends (fun found => (found.1.map Prod.fst).Sublist (axes.map Prod.fst)) (fun _ => True)
      (estimator.sensitivities access axes) := by
  induction axes with
  | nil => exact ends_pure (List.Sublist.refl _)
  | cons first rest ih =>
      refine (ends_attemptAnalysis first.2).bind (fun outcome _ => ?_)
      cases outcome with
      | ok value => exact ih.bind (fun found among => ends_pure (among.cons_cons first.1))
      | error error =>
          refine (ends_recordFailure_named _ error).bind (fun text _ => ?_)
          exact ih.bind (fun found among => ends_pure (among.cons first.1))

theorem Comes.nodup_sensitivities {estimate : Estimate}
    (comes : estimator.Comes access start estimate last) :
    (estimate.sensitivities.map Prod.fst).Nodup := by
  cases comes with
  | unanalyzable _ => exact List.nodup_nil
  | incomputable _ _ _ => exact List.nodup_nil
  | computable _ _ computed =>
      obtain ⟨computes⟩ := computes_of_quantities computed
      have among := ends_sensitivities_sublist _ |>.returned computes.axes
      rw [map_fst_sensitivityAxes] at among
      rw [computes.made]
      exact among.nodup (estimator.resolver.invocation.nodup_axes)

end Estimator

namespace EstimateMap

theorem insertIn_of_forall_ne {estimate : Estimate} {entries : List Estimate}
    (different : ∀ other ∈ entries, (other.key == estimate.key) = false) :
    insertIn estimate entries = entries ++ [estimate] := by
  induction entries with
  | nil => rfl
  | cons first rest ih =>
      obtain ⟨onFirst, onRest⟩ := List.forall_mem_cons.mp different
      rw [insertIn, onFirst, List.cons_append, ← ih onRest]
      rfl

/-- Estimates with different keys are put together in their order. -/
theorem foldl_insertIn {earlier made : List Estimate}
    (distinct : (earlier ++ made).Pairwise
      (fun first second => (first.key == second.key) = false)) :
    made.foldl (fun all estimate => insertIn estimate all) earlier = earlier ++ made := by
  induction made generalizing earlier with
  | nil => exact (List.append_nil earlier).symm
  | cons first rest ih =>
      have fresh : ∀ other ∈ earlier, (other.key == first.key) = false :=
        fun other member => (List.pairwise_append.mp distinct).2.2 other member first
          (List.mem_cons_self ..)
      rw [List.append_cons] at distinct ⊢
      rw [List.foldl_cons, insertIn_of_forall_ne fresh]
      exact ih distinct

/-- The estimates and the counts of one invocation, in ascending order. -/
structure IsOrderly (invocation : Datum) (map : EstimateMap) : Prop where
  invocations : ∀ estimate ∈ map.estimates, estimate.key.invocation = invocation
  accesses : map.estimates.Pairwise (fun first second => first.key.access < second.key.access)
  loops : map.loopIterations.Pairwise (fun first second => first.1 < second.1)
  flags : ∀ estimate ∈ map.estimates, estimate.flags.length ≤ 1
  axes : ∀ estimate ∈ map.estimates, (estimate.sensitivities.map Prod.fst).Nodup

end EstimateMap

namespace LoopNest

variable {nest : LoopNest} {start last : Progress} {map : EstimateMap}

theorem HasSurveyed.map_fst {ledger after : Ledger} {loops : List Int}
    {counts : List (Int × Option Value)}
    (surveyed : nest.HasSurveyed ledger loops counts after) : counts.map Prod.fst = loops := by
  induction surveyed with
  | done => rfl
  | next _ _ _ ih => rw [List.map_cons, ih]

theorem receiveAll_of_survey {counts : List (Int × Option Value)} {estimator : Estimator}
    (surveyed : nest.survey.outcome start = (.ok (counts, estimator), last)) :
    start.sink.receiveAll (iterationDeliveries nest.resolver.invocation.id counts) =
      .ok last.sink := by
  obtain ⟨_, first, counted, rest⟩ := outcome_bind_eq_ok.mp surveyed
  obtain ⟨_, reported, delivered, rest⟩ := outcome_bind_eq_ok.mp rest
  obtain ⟨_, final, multiplied, same⟩ := outcome_bind_eq_ok.mp rest
  cases same
  rw [(isSilent_ofAnalysis _).eq multiplied, ← (isSilent_ofAnalysis _).eq counted]
  rw [deliverIterations_eq] at delivered
  exact receiveAll_of_forM delivered

/-- In order of their accesses, the estimates of a filed kernel have different keys. -/
theorem ascending_made (filed : nest.kernel.IsFiled) {estimator : Estimator}
    {made : List Estimate}
    (completed : (nest.accesses.mapM estimator.complete).outcome start = (.ok made, last)) :
    made.Pairwise (fun first second => first.key.access < second.key.access) := by
  have ascending : (nest.accesses.map estimator.key).Pairwise
      (fun first second => first.access < second.access) :=
    List.pairwise_map.mpr (ascending_accesses filed)
  rw [← Estimator.keys_of_mapM_complete completed, List.pairwise_map] at ascending
  exact ascending

/-- The estimates of a filed kernel are those that were made, in the order of their turns. -/
theorem estimateKernel_eq_ok (filed : nest.kernel.IsFiled)
    (returned : nest.estimateKernel.outcome start = (.ok map, last)) :
    ∃ estimator surveyed,
      nest.survey.outcome start = (.ok (map.loopIterations, estimator), surveyed) ∧
        (nest.accesses.mapM estimator.complete).outcome surveyed =
          (.ok map.estimates, last) := by
  obtain ⟨⟨counts, estimator⟩, surveyed, onSurvey, rest⟩ := outcome_bind_eq_ok.mp returned
  obtain ⟨estimates, _, estimated, same⟩ := outcome_bind_eq_ok.mp rest
  cases same
  obtain ⟨made, completed, rfl⟩ := Estimator.estimateAll_eq_ok.mp estimated
  refine ⟨estimator, surveyed, onSurvey, ?_⟩
  rw [EstimateMap.foldl_insertIn]
  · exact completed
  · exact (ascending_made filed completed).imp
      (fun ascending => AccessKey.beq_of_access_ne (ne_of_lt ascending))

/-- The sink after the estimation of a filed kernel has received what the map calls for. -/
theorem receiveAll_of_estimateKernel (filed : nest.kernel.IsFiled)
    (returned : nest.estimateKernel.outcome start = (.ok map, last)) :
    start.sink.receiveAll (map.deliveries nest.resolver.invocation.id) = .ok last.sink := by
  obtain ⟨estimator, surveyed, onSurvey, completed⟩ := estimateKernel_eq_ok filed returned
  rw [EstimateMap.deliveries, Sink.receiveAll_append (receiveAll_of_survey onSurvey)]
  exact Estimator.receiveAll_of_mapM_complete completed

theorem isOrderly_of_estimateKernel (filed : nest.kernel.IsFiled)
    (returned : nest.estimateKernel.outcome start = (.ok map, last)) :
    map.IsOrderly nest.resolver.invocation.id := by
  obtain ⟨estimator, surveyed, _, completed⟩ := estimateKernel_eq_ok filed returned
  obtain ⟨_, onEstimates⟩ := estimates_of_estimateKernel returned
  obtain ⟨counted, onLoops⟩ := iterationCounts_of_estimateKernel returned
  have loops := ascending_order filed
  rw [← (hasSurveyed_of_iterationCounts onLoops).map_fst] at loops
  refine ⟨?_, ascending_made filed completed, List.pairwise_map.mp loops, ?_, ?_⟩
  · intro estimate member
    obtain ⟨access, _, other, _, _, isTurn, comes⟩ := onEstimates estimate member
    rw [comes.key_eq, ← isTurn.nest_eq]
    rfl
  · intro estimate member
    obtain ⟨_, _, _, _, _, _, comes⟩ := onEstimates estimate member
    exact comes.flags_length
  · intro estimate member
    obtain ⟨_, _, _, _, _, _, comes⟩ := onEstimates estimate member
    exact comes.nodup_sensitivities

end LoopNest

/-- A successful estimation with a filed catalogue returns an orderly map, and has delivered
what the map calls for and nothing else. -/
theorem delivered_of_estimateInvocation {catalogue : Catalogue} {settings : Settings}
    {resolver : Resolver} (filed : catalogue.IsFiled) {start last : Progress} {map : EstimateMap}
    (returned : (estimateInvocation catalogue settings resolver).outcome start =
      (.ok map, last)) :
    map.IsOrderly resolver.invocation.id ∧
      start.sink.receiveAll (map.deliveries resolver.invocation.id) = .ok last.sink := by
  rcases found : catalogue.find? resolver.invocation.kernel with cause | _ | kernel
  · rw [estimateInvocation, found] at returned
    cases returned
  · rw [estimateInvocation, found] at returned
    cases returned
    exact ⟨⟨List.forall_mem_nil _, .nil, .nil, List.forall_mem_nil _, List.forall_mem_nil _⟩, rfl⟩
  · rw [outcome_estimateInvocation found] at returned
    exact ⟨LoopNest.isOrderly_of_estimateKernel (filed.find? found) returned,
      LoopNest.receiveAll_of_estimateKernel (filed.find? found) returned⟩

end KernelFootprint
