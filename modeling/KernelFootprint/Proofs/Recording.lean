import KernelFootprint.Proofs.Delivery
import Mathlib.Data.List.Basic

/-!
# Recordings of estimates

A recording sink sorts its deliveries into five tables. Every table holds the deliveries of
its kind, in their order, as long as no two of them have the same key. The deliveries of an
invocation have different keys, as its accesses and its loops have different numbers, and
those of different invocations have different keys, as these hold the number of the
invocation. So the tables of a session on one sink hold exactly what was returned.
-/

namespace KernelFootprint

open Register

namespace Delivery

def flag? : Delivery → Option (AccessKey × Flag)
  | .flag key raised => some (key, raised)
  | _ => none

def executionCount? : Delivery → Option (AccessKey × Value)
  | .executionCount key value => some (key, value)
  | _ => none

def workingSet? : Delivery → Option (AccessKey × Value)
  | .workingSet key value => some (key, value)
  | _ => none

def sensitivity? : Delivery → Option ((AccessKey × SensitivityAxis) × Value)
  | .sensitivity key axis value => some ((key, axis), value)
  | _ => none

def loopIterations? : Delivery → Option ((Datum × Int) × Value)
  | .loopIterations invocation loop value => some ((invocation, loop), value)
  | _ => none

end Delivery

namespace Recording

/-- Every table is filled with the deliveries of its kind. -/
theorem foldl_receive (deliveries : List Delivery) (kept : Recording) :
    deliveries.foldl receive kept =
      { executionCounts :=
          insertAll kept.executionCounts (deliveries.filterMap Delivery.executionCount?)
        workingSets := insertAll kept.workingSets (deliveries.filterMap Delivery.workingSet?)
        sensitivities :=
          insertAll kept.sensitivities (deliveries.filterMap Delivery.sensitivity?)
        loopIterations :=
          insertAll kept.loopIterations (deliveries.filterMap Delivery.loopIterations?)
        flags := (deliveries.filterMap Delivery.flag?).foldl
          (fun flags entry => addFlag flags entry.1 entry.2) kept.flags } := by
  induction deliveries generalizing kept with
  | nil => rfl
  | cons first rest ih =>
      rw [List.foldl_cons, ih]
      cases first <;> rfl

/-- The first flag of a key is put at the end. -/
theorem addFlag_of_forall_ne {flags : List (AccessKey × List Flag)} {key : AccessKey}
    (different : ∀ other ∈ flags, (other.1 == key) = false) (flag : Flag) :
    addFlag flags key flag = flags ++ [(key, [flag])] := by
  rw [addFlag, find_of_forall_ne different]
  exact insert_of_forall_ne different

theorem foldl_addFlag {entries : List (AccessKey × Flag)} {flags : List (AccessKey × List Flag)}
    (distinct : IsRegister (flags ++ entries.map (fun entry => (entry.1, [entry.2])))) :
    entries.foldl (fun flags entry => addFlag flags entry.1 entry.2) flags =
      flags ++ entries.map (fun entry => (entry.1, [entry.2])) := by
  induction entries generalizing flags with
  | nil => exact (List.append_nil flags).symm
  | cons first rest ih =>
      rw [List.map_cons] at distinct ⊢
      have fresh : ∀ other ∈ flags, (other.1 == first.1) = false :=
        fun other member => (List.pairwise_append.mp distinct).2.2 other member
          (first.1, [first.2]) (List.mem_cons_self ..)
      rw [List.append_cons] at distinct ⊢
      rw [List.foldl_cons, addFlag_of_forall_ne fresh]
      exact ih distinct

end Recording

/-- The map that was returned for an invocation. -/
structure Report where
  invocation : Datum
  map : EstimateMap

namespace Estimate

variable (estimate : Estimate)

def countEntries : List (AccessKey × Value) :=
  estimate.executionCount.toList.map (fun value => (estimate.key, value))

def spreadEntries : List (AccessKey × Value) :=
  estimate.workingSet.toList.map (fun value => (estimate.key, value))

def strideEntries : List ((AccessKey × SensitivityAxis) × Value) :=
  estimate.sensitivities.map (fun entry => ((estimate.key, entry.1), entry.2))

def flagEntries : List (AccessKey × List Flag) :=
  if estimate.flags.isEmpty then [] else [(estimate.key, estimate.flags)]

end Estimate

def Report.loopEntries (report : Report) : List ((Datum × Int) × Value) :=
  report.map.loopIterations.filterMap
    (fun entry => entry.2.map (fun value => ((report.invocation, entry.1), value)))

/-- What there is to record of several invocations. -/
def Recording.of (reports : List Report) : Recording :=
  let estimates := reports.flatMap (fun report => report.map.estimates)
  { executionCounts := estimates.flatMap Estimate.countEntries
    workingSets := estimates.flatMap Estimate.spreadEntries
    sensitivities := estimates.flatMap Estimate.strideEntries
    loopIterations := reports.flatMap Report.loopEntries
    flags := estimates.flatMap Estimate.flagEntries }

/-- In no table do two entries have the same key. -/
structure Recording.IsRegistered (recording : Recording) : Prop where
  executionCounts : IsRegister recording.executionCounts
  workingSets : IsRegister recording.workingSets
  sensitivities : IsRegister recording.sensitivities
  loopIterations : IsRegister recording.loopIterations
  flags : IsRegister recording.flags

def Report.deliveries (report : Report) : List Delivery :=
  report.map.deliveries report.invocation

section Kinds

variable {Entry : Type} {kind : Delivery → Option Entry}

/-- Deliveries of a kind that is not about loops come from the estimates. -/
theorem filterMap_deliveries
    (onLoops : ∀ invocation loop value, kind (.loopIterations invocation loop value) = none)
    (reports : List Report) :
    (reports.flatMap Report.deliveries).filterMap kind =
      (reports.flatMap (fun report => report.map.estimates)).flatMap
        (fun estimate => estimate.deliveries.filterMap kind) := by
  have silent (report : Report) :
      (iterationDeliveries report.invocation report.map.loopIterations).filterMap kind = [] := by
    rw [iterationDeliveries, List.filterMap_filterMap, List.filterMap_eq_nil_iff]
    rintro ⟨loop, _ | value⟩ _
    · rfl
    · exact onLoops _ _ _
  rw [List.filterMap_flatMap, List.flatMap_assoc]
  refine congrArg (List.flatMap · reports) (funext fun report => ?_)
  rw [Report.deliveries, EstimateMap.deliveries, List.filterMap_append, silent, List.nil_append,
    List.filterMap_flatMap]

end Kinds

theorem Flag.filter_all {flags : List Flag} (single : flags.length ≤ 1) :
    Flag.all.filter flags.contains = flags := by
  match flags, single with
  | [], _ => rfl
  | [flag], _ => cases flag <;> rfl

namespace Estimate

theorem executionCounts_deliveries (estimate : Estimate) :
    estimate.deliveries.filterMap Delivery.executionCount? = estimate.countEntries := by
  simp [deliveries, countEntries, Delivery.executionCount?, Function.comp_def]

theorem workingSets_deliveries (estimate : Estimate) :
    estimate.deliveries.filterMap Delivery.workingSet? = estimate.spreadEntries := by
  simp [deliveries, spreadEntries, Delivery.workingSet?, Function.comp_def]

theorem sensitivities_deliveries (estimate : Estimate) :
    estimate.deliveries.filterMap Delivery.sensitivity? = estimate.strideEntries := by
  simp [deliveries, strideEntries, Delivery.sensitivity?, Function.comp_def]

theorem flags_deliveries {estimate : Estimate} (single : estimate.flags.length ≤ 1) :
    (estimate.deliveries.filterMap Delivery.flag?).map (fun entry => (entry.1, [entry.2])) =
      estimate.flagEntries := by
  have raised : estimate.deliveries.filterMap Delivery.flag? =
      (Flag.all.filter estimate.flags.contains).map (fun flag => (estimate.key, flag)) := by
    simp [deliveries, Delivery.flag?, Function.comp_def]
  rw [raised, Flag.filter_all single, flagEntries]
  match estimate.flags, single with
  | [], _ => rfl
  | [flag], _ => rfl

end Estimate

section Distinct

variable {reports : List Report}

/-- Estimates have different keys, within an invocation by their accesses, across by their
invocations. -/
theorem distinct_estimates
    (orderly : ∀ report ∈ reports, report.map.IsOrderly report.invocation)
    (distinct : reports.Pairwise
      (fun first second => (first.invocation == second.invocation) = false)) :
    (reports.flatMap (fun report => report.map.estimates)).Pairwise
      (fun first second => (first.key == second.key) = false) := by
  refine List.pairwise_flatMap.mpr ⟨fun report member => ?_, ?_⟩
  · exact (orderly report member).accesses.imp
      (fun ascending => AccessKey.beq_of_access_ne (ne_of_lt ascending))
  · refine distinct.imp_of_mem ?_
    intro first second inFirst inSecond different estimate among other amongOther
    refine AccessKey.beq_of_invocation_ne ?_
    rw [(orderly first inFirst).invocations estimate among,
      (orderly second inSecond).invocations other amongOther]
    exact different

/-- Entries that keep the keys of their estimates apart have different keys. -/
theorem isRegister_flatMap {Key Entry : Type} [BEq Key]
    {entries : Estimate → List (Key × Entry)} {estimates : List Estimate}
    (distinct : estimates.Pairwise (fun first second => (first.key == second.key) = false))
    (within : ∀ estimate ∈ estimates, IsRegister (entries estimate))
    (across : ∀ first second : Estimate, (first.key == second.key) = false →
      ∀ entry ∈ entries first, ∀ other ∈ entries second, (entry.1 == other.1) = false) :
    IsRegister (estimates.flatMap entries) :=
  List.pairwise_flatMap.mpr ⟨within, distinct.imp (fun apart => across _ _ apart)⟩

/-- Entries that stand under the keys of their estimates have different keys. -/
theorem isRegister_keyed {Entry : Type} {entries : Estimate → List (AccessKey × Entry)}
    {estimates : List Estimate}
    (distinct : estimates.Pairwise (fun first second => (first.key == second.key) = false))
    (within : ∀ estimate, IsRegister (entries estimate))
    (keyed : ∀ estimate, ∀ entry ∈ entries estimate, entry.1 = estimate.key) :
    IsRegister (estimates.flatMap entries) := by
  refine isRegister_flatMap distinct (fun estimate _ => within estimate) ?_
  intro first second different entry member other otherMember
  rw [keyed first entry member, keyed second other otherMember]
  exact different

theorem isRegister_of_option {Key Entry : Type} [BEq Key] (key : Key) (found : Option Entry) :
    IsRegister (found.toList.map (fun value => (key, value))) := by
  cases found with
  | none => exact .nil
  | some value => exact List.pairwise_singleton _ _

theorem fst_of_mem_option {Key Entry : Type} {key : Key} {found : Option Entry}
    {entry : Key × Entry} (member : entry ∈ found.toList.map (fun value => (key, value))) :
    entry.1 = key := by
  obtain ⟨_, _, rfl⟩ := List.mem_map.mp member
  rfl

theorem Estimate.isRegister_flagEntries (estimate : Estimate) :
    IsRegister estimate.flagEntries := by
  rw [flagEntries]
  split
  · exact .nil
  · exact List.pairwise_singleton _ _

theorem Estimate.fst_of_mem_flagEntries {estimate : Estimate} {entry : AccessKey × List Flag}
    (member : entry ∈ estimate.flagEntries) : entry.1 = estimate.key := by
  rw [flagEntries] at member
  split at member
  · cases member
  · rw [List.mem_singleton.mp member]

theorem isRegister_loopEntries {report : Report}
    (orderly : report.map.IsOrderly report.invocation) : IsRegister report.loopEntries := by
  refine List.pairwise_filterMap.mpr (orderly.loops.imp ?_)
  rintro ⟨loop, count⟩ ⟨other, otherCount⟩ ascending entry found otherEntry otherFound
  obtain ⟨value, _, rfl⟩ := Option.map_eq_some_iff.mp found
  obtain ⟨otherValue, _, rfl⟩ := Option.map_eq_some_iff.mp otherFound
  change (_ && loop == other) = false
  rw [beq_eq_false_iff_ne.mpr (ne_of_lt ascending), Bool.and_false]

theorem Report.invocation_of_mem {report : Report} {entry : (Datum × Int) × Value}
    (member : entry ∈ report.loopEntries) : entry.1.1 = report.invocation := by
  obtain ⟨count, _, found⟩ := List.mem_filterMap.mp member
  obtain ⟨value, _, rfl⟩ := Option.map_eq_some_iff.mp found
  rfl

/-- Nothing stands twice in what there is to record. -/
theorem Recording.isRegistered_of
    (orderly : ∀ report ∈ reports, report.map.IsOrderly report.invocation)
    (distinct : reports.Pairwise
      (fun first second => (first.invocation == second.invocation) = false)) :
    (Recording.of reports).IsRegistered := by
  have apart := distinct_estimates orderly distinct
  have among {estimate : Estimate}
      (member : estimate ∈ reports.flatMap (fun report => report.map.estimates)) :
      (estimate.sensitivities.map Prod.fst).Nodup := by
    obtain ⟨report, inside, member⟩ := List.mem_flatMap.mp member
    exact (orderly report inside).axes estimate member
  constructor
  · exact isRegister_keyed apart (fun _ => isRegister_of_option _ _)
      (fun _ _ => fst_of_mem_option)
  · exact isRegister_keyed apart (fun _ => isRegister_of_option _ _)
      (fun _ _ => fst_of_mem_option)
  · refine isRegister_flatMap apart (fun estimate member => ?_) ?_
    · refine List.pairwise_map.mpr ((List.pairwise_map.mp (among member)).imp ?_)
      intro first second different
      change (_ && first.1 == second.1) = false
      rw [beq_eq_false_iff_ne.mpr different, Bool.and_false]
    · intro first second different entry member other otherMember
      obtain ⟨_, _, rfl⟩ := List.mem_map.mp member
      obtain ⟨_, _, rfl⟩ := List.mem_map.mp otherMember
      change (first.key == second.key && _) = false
      rw [different, Bool.false_and]
  · refine List.pairwise_flatMap.mpr
      ⟨fun report member => isRegister_loopEntries (orderly report member), distinct.imp ?_⟩
    intro first second different entry member other otherMember
    change (entry.1.1 == other.1.1 && _) = false
    rw [Report.invocation_of_mem member, Report.invocation_of_mem otherMember, different,
      Bool.false_and]
  · exact isRegister_keyed apart Estimate.isRegister_flagEntries
      (fun _ _ => Estimate.fst_of_mem_flagEntries)

theorem loopIterations_deliveries (reports : List Report) :
    (reports.flatMap Report.deliveries).filterMap Delivery.loopIterations? =
      reports.flatMap Report.loopEntries := by
  have none (estimates : List Estimate) :
      (estimates.flatMap Estimate.deliveries).filterMap Delivery.loopIterations? = [] := by
    rw [List.filterMap_flatMap, List.flatMap_eq_nil_iff]
    intro estimate _
    simp [Estimate.deliveries, Delivery.loopIterations?, Function.comp_def]
  rw [List.filterMap_flatMap]
  refine congrArg (List.flatMap · reports) (funext fun report => ?_)
  rw [Report.deliveries, EstimateMap.deliveries, List.filterMap_append, none, List.append_nil,
    iterationDeliveries, List.filterMap_filterMap, Report.loopEntries]
  congr 1
  funext entry
  obtain ⟨loop, count⟩ := entry
  cases count <;> rfl

/-- An empty recording is filled with exactly what there is to record. -/
theorem Recording.foldl_receive_deliveries
    (orderly : ∀ report ∈ reports, report.map.IsOrderly report.invocation)
    (distinct : reports.Pairwise
      (fun first second => (first.invocation == second.invocation) = false)) :
    (reports.flatMap Report.deliveries).foldl receive {} = Recording.of reports := by
  have registered := isRegistered_of orderly distinct
  have flagged : ((reports.flatMap Report.deliveries).filterMap Delivery.flag?).map
      (fun entry => (entry.1, [entry.2])) = (Recording.of reports).flags := by
    rw [filterMap_deliveries (fun _ _ _ => rfl), List.map_flatMap]
    refine List.flatMap_congr (fun estimate member => ?_)
    obtain ⟨report, inside, among⟩ := List.mem_flatMap.mp member
    exact Estimate.flags_deliveries ((orderly report inside).flags estimate among)
  rw [foldl_receive, filterMap_deliveries (fun _ _ _ => rfl),
    filterMap_deliveries (fun _ _ _ => rfl), filterMap_deliveries (fun _ _ _ => rfl),
    loopIterations_deliveries]
  simp only [Estimate.executionCounts_deliveries, Estimate.workingSets_deliveries,
    Estimate.sensitivities_deliveries]
  change ({ executionCounts := insertAll [] (Recording.of reports).executionCounts
            workingSets := insertAll [] (Recording.of reports).workingSets
            sensitivities := insertAll [] (Recording.of reports).sensitivities
            loopIterations := insertAll [] (Recording.of reports).loopIterations
            flags := _ } : Recording) = _
  rw [insertAll_nil_of_isRegister registered.executionCounts,
    insertAll_nil_of_isRegister registered.workingSets,
    insertAll_nil_of_isRegister registered.sensitivities,
    insertAll_nil_of_isRegister registered.loopIterations, foldl_addFlag]
  · rw [flagged]
    rfl
  · rw [flagged]
    exact registered.flags

end Distinct

theorem Sink.receiveAll_recording {deliveries : List Delivery} {kept : Recording} {sink : Sink}
    (received : (Sink.recording kept).receiveAll deliveries = .ok sink) :
    sink = .recording (deliveries.foldl Recording.receive kept) := by
  induction deliveries generalizing kept with
  | nil =>
      cases received
      rfl
  | cons first rest ih =>
      rw [receiveAll, List.foldlM_cons, receive] at received
      split at received
      · exact ih received
      · cases received

/-- What a fresh recording sink holds of a single orderly map. -/
theorem Sink.recording_of_receiveAll {invocation : Datum} {map : EstimateMap} {sink : Sink}
    (orderly : map.IsOrderly invocation)
    (received : (Sink.recording {}).receiveAll (map.deliveries invocation) = .ok sink) :
    sink = .recording (Recording.of [⟨invocation, map⟩]) := by
  have recorded := Recording.foldl_receive_deliveries
    (List.forall_mem_singleton.mpr orderly : ∀ report ∈ [(⟨invocation, map⟩ : Report)], _)
    (List.pairwise_singleton _ _)
  rw [List.flatMap_singleton] at recorded
  rw [receiveAll_recording received, ← recorded]
  rfl

/-- Successful estimations one after the other, each with the sink that the one before it has
left behind. Otherwise they have nothing in common. -/
inductive Session : Sink → List Report → Sink → Prop
  | done {sink : Sink} : Session sink [] sink
  | call {catalogue : Catalogue} {settings : Settings} {resolver : Resolver}
      {start last : Progress} {map : EstimateMap} {reports : List Report} {final : Sink} :
      catalogue.IsFiled →
      (estimateInvocation catalogue settings resolver).outcome start = (.ok map, last) →
      Session last.sink reports final →
        Session start.sink (⟨resolver.invocation.id, map⟩ :: reports) final

theorem Session.received {sink final : Sink} {reports : List Report}
    (session : Session sink reports final) :
    (∀ report ∈ reports, report.map.IsOrderly report.invocation) ∧
      sink.receiveAll (reports.flatMap Report.deliveries) = .ok final := by
  induction session with
  | done => exact ⟨nofun, rfl⟩
  | call filed returned _ ih =>
      obtain ⟨orderly, delivered⟩ := delivered_of_estimateInvocation filed returned
      refine ⟨List.forall_mem_cons.mpr ⟨orderly, ih.1⟩, ?_⟩
      rw [List.flatMap_cons, Report.deliveries, Sink.receiveAll_append delivered]
      exact ih.2

/-- After a session with different invocation numbers, an initially empty recording sink holds
exactly the estimates and the counts that were returned. Every estimate stands under the number
of its invocation, and nothing stands twice. -/
theorem recording_of_session {reports : List Report} {numbers : List Int} {sink : Sink}
    (session : Session (.recording {}) reports sink)
    (numbered : reports.map Report.invocation = numbers.map Datum.integer)
    (distinct : numbers.Nodup) :
    sink = .recording (Recording.of reports) ∧ (Recording.of reports).IsRegistered ∧
      ∀ report ∈ reports, report.map.IsOrderly report.invocation := by
  obtain ⟨orderly, received⟩ := session.received
  have apart : (reports.map Report.invocation).Pairwise
      (fun first second => (first == second) = false) := by
    rw [numbered, List.pairwise_map]
    refine distinct.imp (fun different => ?_)
    rw [Datum.beq_integer]
    exact beq_eq_false_iff_ne.mpr different
  rw [List.pairwise_map] at apart
  refine ⟨?_, Recording.isRegistered_of orderly apart, orderly⟩
  rw [Sink.receiveAll_recording received, Recording.foldl_receive_deliveries orderly apart]

namespace LoopNest

instance {Key Entry : Type} [BEq Key] (entries : List (Key × Entry)) :
    Decidable (IsRegister entries) :=
  inferInstanceAs (Decidable (entries.Pairwise _))

/-- An access in a loop of eight iterations. -/
def eightfold : KernelRecord where
  name := .text "kernel"
  loops := [(1, endingAt (.constant 8))]
  accesses := [(1, accessAt 1 1 threadIndex)]

/-- The catalogue of one kernel. -/
def catalogued (kernel : KernelRecord) : Catalogue := [(.text "kernel", kernel)]

theorem isFiled_catalogued {kernel : KernelRecord} (filed : kernel.IsFiled) :
    (catalogued kernel).IsFiled := List.forall_mem_singleton.mpr filed

theorem isFiled_eightfold : eightfold.IsFiled := ⟨by decide, by decide, by decide⟩

theorem isFiled_faulty : faulty.IsFiled := ⟨by decide, by decide, by decide⟩

/-- The launch of the sample with another number. -/
def relaunch (number : Int) : Resolver :=
  let resolver := Resolver.sample (.constant 128)
  { resolver with invocation := { resolver.invocation with id := .integer number } }

/-- Two launches report to one sink: a faulty kernel, and one with nothing missing. -/
theorem recording_of_session_faulty :
    ∃ first second sink,
      Session (.recording {}) [⟨.integer 7, first⟩, ⟨.integer 3, second⟩] sink ∧
      sink = .recording (Recording.of [⟨.integer 7, first⟩, ⟨.integer 3, second⟩]) ∧
      (Recording.of [⟨.integer 7, first⟩, ⟨.integer 3, second⟩]).flags.map
          (fun entry => (entry.1.access, entry.2)) = [(1, [.incomputable])] ∧
      (Recording.of [⟨.integer 7, first⟩, ⟨.integer 3, second⟩]).workingSets.map
          (fun entry => entry.1.access) = [1] ∧
      (Recording.of [⟨.integer 7, first⟩, ⟨.integer 3, second⟩]).loopIterations.map
          (fun entry => entry.1.2) = [1] := by
  have results :
      let one := (estimateInvocation (catalogued faulty) {} (relaunch 7)).outcome
        { sink := .recording {} }
      let two := (estimateInvocation (catalogued eightfold) {} (relaunch 3)).outcome one.2
      one.1.toOption.bind (fun first => two.1.toOption.map (fun second =>
        let recording := Recording.of [⟨.integer 7, first⟩, ⟨.integer 3, second⟩]
        (recording.flags.map (fun entry => (entry.1.access, entry.2)),
          recording.workingSets.map (fun entry => entry.1.access),
          recording.loopIterations.map (fun entry => entry.1.2)))) =
        some ([(1, [.incomputable])], [1], [1]) := by decide +kernel
  rcases one : (estimateInvocation (catalogued faulty) {} (relaunch 7)).outcome
      { sink := .recording {} } with ⟨fault | first, middle⟩
  · rw [one] at results
    cases results
  rcases two : (estimateInvocation (catalogued eightfold) {} (relaunch 3)).outcome middle with
    ⟨fault | second, last⟩
  · simp only [one, two] at results
    cases results
  · simp only [one, two] at results
    obtain ⟨flags, results⟩ := Prod.ext_iff.mp (Option.some.inj results)
    obtain ⟨workingSets, loopIterations⟩ := Prod.ext_iff.mp results
    have session : Session (.recording {}) [⟨.integer 7, first⟩, ⟨.integer 3, second⟩] last.sink :=
      .call (isFiled_catalogued isFiled_faulty) one
        (.call (isFiled_catalogued isFiled_eightfold) two .done)
    obtain ⟨kept, _, _⟩ := recording_of_session session
      (rfl : _ = [7, 3].map Datum.integer) (by decide)
    exact ⟨first, second, last.sink, session, kept, flags, workingSets, loopIterations⟩

end LoopNest

end KernelFootprint
