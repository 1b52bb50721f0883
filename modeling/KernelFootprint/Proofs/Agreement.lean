import KernelFootprint.Proofs.ExecutionCount
import KernelFootprint.Proofs.History
import KernelFootprint.Proofs.Passage
import Mathlib.Data.List.Forall2

/-!
# Reported counts and execution counts

The counts of loops are reported before the first access, while the counts that an access is
multiplied with are asked for later, when more is kept. What was counted before is counted
the same again. A loop that was incomputable can have a count later only if its own bounds
lead back to a loop underway, which later evaluations do not come across because they find
its lower bound kept. To see this, an evaluation is followed under the assumption that
everything it needs can be looked up in a ledger that keeps more: then nothing but a loop
underway can stop it.
-/

namespace KernelFootprint

open Analysis

namespace LoopNest

variable {nest : LoopNest} {final ledger : Ledger} {underway : List Int} {excuse : Prop}

/-- The lower bound of a loop leads, from one lower bound to the next, to that of a loop that
is underway. -/
inductive LeadsBack (nest : LoopNest) : List Int → Datum → Prop
  | here {underway : List Int} {loop : Datum} {number : Int} {record : LoopRecord} :
      nest.entry loop = .ok (number, record) → record.id ∈ underway →
        LeadsBack nest underway loop
  | further {underway : List Int} {loop text : Datum} {number : Int} {record : LoopRecord}
      {tree : BinaryTree} {phi : Option Nat} :
      nest.entry loop = .ok (number, record) → boundTree record .initial = .ok tree →
        (text, .phiTerm phi) ∈ tree.terminals →
          LeadsBack nest (record.id :: underway) (nest.loopOf phi (.integer record.parent)) →
            LeadsBack nest underway loop

/-- The bounds or the step of a loop lead back to the loop itself, or to another loop that
leads back to itself. -/
def IsCircular (nest : LoopNest) (loop : Datum) : Prop :=
  ∃ number record tree text phi, nest.entry loop = .ok (number, record) ∧
    nest.iterationTree loop = .ok tree ∧ (text, .phiTerm phi) ∈ tree.terminals ∧
      nest.LeadsBack [record.id] (nest.loopOf phi (.integer record.parent))

/-- Where the second analysis has a value and the final ledger has everything that is kept,
the first one has this value, too, unless there is an excuse. -/
def Catches (nest : LoopNest) (final : Ledger) (underway : List Int) (excuse : Prop)
    (Result : Type) (first again : Analysis Result) : Prop :=
  nest.Tracks final Result first again ∧
    ∀ ledger, nest.IsSound ledger → ledger.active = underway → Within ledger final →
      ∀ value, again.Gives value → excuse ∨ ∃ after, first.outcome ledger = (.ok value, after)

theorem isExtensible_catches (plain : nest.resolver.emitter = .symbolic) (final : Ledger)
    (underway : List Int) (excuse : Prop) :
    IsExtensible .symbolic (nest.Catches final underway excuse) where
  value value := by
    refine ⟨(isExtensible_tracks plain final).value value, ?_⟩
    intro ledger _ _ _ result given
    cases given {}
    exact .inr ⟨ledger, rfl⟩
  fault fault := by
    refine ⟨(isExtensible_tracks plain final).fault fault, ?_⟩
    intro ledger _ _ _ result given
    cases given {}
  request request := by
    refine ⟨(isExtensible_tracks plain final).request request, ?_⟩
    intro ledger _ _ _ result given
    exact .inr ⟨_, Prod.ext (given ledger) rfl⟩
  sequence := by
    intro First Second first again next nextAgain onFirst onNext
    refine ⟨(isExtensible_tracks plain final).sequence onFirst.1 (fun value => (onNext value).1),
      ?_⟩
    intro ledger sound marked within result given
    obtain ⟨value, before, after⟩ := given.of_bind onFirst.1.1 (fun value => (onNext value).1.1)
    rcases onFirst.2 ledger sound marked within value before with excused | ⟨middle, succeeded⟩
    · exact .inl excused
    have trace := onFirst.1.2 ledger sound
    rw [succeeded] at trace
    rcases (onNext value).2 middle trace.sound (trace.active.trans marked)
      (trace.stays within value before) result after with excused | ⟨last, finished⟩
    · exact .inl excused
    · exact .inr ⟨last, outcome_bind_eq_ok.mpr ⟨value, middle, succeeded, finished⟩⟩

theorem Catches.adapt {first again : Analysis Value}
    (caught : nest.Catches final underway excuse Value first again) (change : Fault → Fault) :
    nest.Catches final underway excuse Value (ExceptT.adapt change first)
      (ExceptT.adapt change again) := by
  refine ⟨tracks_adapt caught.1 change, ?_⟩
  intro ledger sound marked within value given
  refine (caught.2 ledger sound marked within value (gives_adapt.mp given)).imp_right ?_
  rintro ⟨after, succeeded⟩
  refine ⟨after, ?_⟩
  rw [outcome_adapt, succeeded]
  rfl

theorem Catches.whileActive (plain : nest.resolver.emitter = .symbolic) {loop : Int}
    {first again : Analysis Value}
    (caught : nest.Catches final (loop :: underway) excuse Value first again) :
    nest.Catches final underway excuse Value (whileActive loop first) again := by
  refine ⟨tracks_whileActive plain loop caught.1, ?_⟩
  intro ledger sound marked within value given
  refine (caught.2 { ledger with active := loop :: ledger.active }
    (sound.of_same plain (kept_active ledger _)) (congrArg (loop :: ·) marked)
    (fun quantity => ?_) value given).imp_right ?_
  · rw [kept_active]
    exact within quantity
  · rintro ⟨after, succeeded⟩
    exact ⟨_, outcome_whileActive succeeded⟩

/-- A bound can be evaluated unless its own loop is underway. -/
theorem catches_evaluateBound (plain : nest.resolver.emitter = .symbolic)
    {lowerBound : Datum → Analysis Value}
    (tracked : ∀ loop, nest.Tracks final Value (lowerBound loop)
      (nest.lookUp final (.bound .initial) loop))
    {record : LoopRecord} {tree : BinaryTree} (blocked : record.id ∈ underway → excuse)
    (bounds : record.id ∉ underway → ∀ text phi, (text, .phiTerm phi) ∈ tree.terminals →
      nest.Catches final (record.id :: underway) excuse Value
        (lowerBound (nest.loopOf phi (.integer record.parent)))
        (nest.lookUp final (.bound .initial) (nest.loopOf phi (.integer record.parent))))
    (quantity : LoopQuantity) :
    nest.Catches final underway excuse Value (nest.evaluateBound lowerBound record quantity tree)
      (nest.evaluateFrom final record quantity tree) := by
  refine ⟨tracks_evaluateBound plain tracked record quantity tree, ?_⟩
  intro ledger sound marked within value given
  rw [evaluateBound_eq, outcome_unlessActive, marked]
  split
  · next active => exact .inl (blocked (by simpa using active))
  · next inactive =>
      have extensible : IsExtensible nest.resolver.emitter
          (nest.Catches final (record.id :: underway) excuse) :=
        plain ▸ isExtensible_catches plain final _ excuse
      have caught := related_boundContext_of_phis extensible (bounds (by simpa using inactive))
      exact ((caught.whileActive plain).adapt _).2 ledger sound marked within value given

/-- What is kept is found, and anything else is computed and has the value looked up. -/
theorem catches_ask {evaluate : BoundEvaluation} {quantity : LoopQuantity} {loop : Datum}
    (finalSound : nest.IsSound final)
    (tracked : nest.Tracks final Value (nest.ask evaluate quantity loop)
      (nest.lookUp final quantity loop))
    (computed : ∀ number record, nest.entry loop = .ok (number, record) →
      nest.Catches final underway excuse Value (nest.compute evaluate quantity loop record)
        (nest.compute (nest.evaluateFrom final) quantity loop record)) :
    nest.Catches final underway excuse Value (nest.ask evaluate quantity loop)
      (nest.lookUp final quantity loop) := by
  refine ⟨tracked, ?_⟩
  intro ledger sound marked within value given
  obtain ⟨number, record, named, found⟩ := gives_lookUp.mp given
  cases kept : Register.find number (ledger.kept quantity) with
  | some old =>
      rw [within quantity number old kept] at found
      cases found
      exact .inr ⟨ledger, outcome_ask_kept named kept⟩
  | none =>
      refine ((computed number record named).2 ledger sound marked within value
        (finalSound.of_lookUp named given).2).imp_right ?_
      rintro ⟨after, succeeded⟩
      refine ⟨after.enter quantity number value, ?_⟩
      rw [outcome_ask_missing named kept, succeeded]

/-- Lower bounds that can be looked up can be evaluated, unless they lead back. -/
theorem catches_lowerBoundWithin (plain : nest.resolver.emitter = .symbolic)
    (finalSound : nest.IsSound final) {budget : Nat} (before : nest.AreUnderway underway)
    (enough : nest.kernel.loops.length < budget + underway.length) {loop : Datum}
    (blocked : nest.LeadsBack underway loop → excuse) :
    nest.Catches final underway excuse Value (nest.lowerBoundWithin budget loop)
      (nest.lookUp final (.bound .initial) loop) := by
  have fewer := before.length_le
  induction budget generalizing underway loop with
  | zero => omega
  | succ budget ih =>
      have tracked := tracks_lowerBoundWithin plain budget final finalSound
      refine catches_ask finalSound
        (tracks_lowerBoundWithin plain (budget + 1) final finalSound loop) ?_
      intro number record named
      refine related_compute_of_tree (plain ▸ isExtensible_catches plain final underway excuse) ?_
      intro tree built
      refine catches_evaluateBound plain tracked (fun member => blocked (.here named member)) ?_ _
      intro further text phi member
      have onward := before.cons (id_mem_numbers named) further
      refine ih onward ?_ (fun back => blocked (.further named built member back)) onward.length_le
      rw [List.length_cons]
      omega

/-- A count that can be looked up can be evaluated, unless the loop is circular. -/
theorem catches_iterationCount (plain : nest.resolver.emitter = .symbolic)
    (finalSound : nest.IsSound final) (loop : Datum) :
    nest.Catches final [] (nest.IsCircular loop) Value (nest.iterationCount loop)
      (nest.lookUp final .iterationCount loop) := by
  refine catches_ask finalSound (tracks_call plain finalSound (.iterationCount loop)) ?_
  intro number record named
  refine related_compute_of_tree (plain ▸ isExtensible_catches plain final [] _) ?_
  intro tree built
  refine catches_evaluateBound plain (tracks_lowerBoundWithin plain _ final finalSound) nofun ?_ _
  intro further text phi member
  refine catches_lowerBoundWithin plain finalSound
    (nest.areUnderway_nil.cons (id_mem_numbers named) further) ?_
    (fun back => ⟨number, record, tree, text, phi, named, built, member, back⟩)
  rw [List.length_singleton]
  omega

/-- Sound ledgers lead to sound ledgers that keep at least as much, in which the same loops
are active. -/
def LeadsOn (nest : LoopNest) (ledger other : Ledger) : Prop :=
  nest.IsSound ledger →
    nest.IsSound other ∧ Within ledger other ∧ other.active = ledger.active

theorem isPassage_leadsOn (plain : nest.resolver.emitter = .symbolic) :
    IsPassage nest.LeadsOn where
  refl _ sound := ⟨sound, fun _ => Register.isWithin_refl _, rfl⟩
  trans first second sound := by
    obtain ⟨middle, grown, active⟩ := first sound
    obtain ⟨last, further, stillActive⟩ := second middle
    exact ⟨last, grown.trans further, stillActive.trans active⟩
  requests ledger requests sound :=
    ⟨sound.of_same plain (kept_requests ledger requests),
      within_of_same (kept_requests ledger requests), rfl⟩

theorem keepsCalls_leadsOn (plain : nest.resolver.emitter = .symbolic) :
    nest.KeepsCalls nest.LeadsOn := by
  intro call ledger sound
  have trace := (tracks_call plain sound call).2 ledger sound
  exact ⟨trace.sound, trace.grown, trace.active⟩

variable {loop : Int} {before middle after : Ledger} {count : Value}

/-- A loop that has a count in the end has it in a sound ledger that keeps everything that was
kept before. -/
theorem exists_settled (plain : nest.resolver.emitter = .symbolic) (sound : nest.IsSound before)
    {outcome : Except Fault Value}
    (asked : (nest.iterationCount (.integer loop)).outcome before = (outcome, middle))
    (onward : nest.LeadsOn middle ledger)
    (again : (nest.iterationCount (.integer loop)).outcome ledger = (.ok count, after)) :
    nest.IsSound after ∧ Within before after ∧ Within middle after ∧
      (nest.lookUp after .iterationCount (.integer loop)).Gives count := by
  obtain ⟨firstSound, grown, _⟩ :=
    keepsCalls_leadsOn plain (.iterationCount (.integer loop)) before sound
  rw [LoopCall.run, asked] at firstSound grown
  obtain ⟨ledgerSound, further, _⟩ := onward firstSound
  obtain ⟨lastSound, last, _⟩ :=
    keepsCalls_leadsOn plain (.iterationCount (.integer loop)) ledger ledgerSound
  rw [LoopCall.run, again] at lastSound last
  have trace := (tracks_call plain lastSound (.iterationCount (.integer loop))).2 ledger
    ledgerSound
  rw [LoopCall.run, again] at trace
  exact ⟨lastSound, (grown.trans further).trans last, further.trans last,
    trace.gives count rfl (fun _ => Register.isWithin_refl _)⟩

/-- What a loop is counted at some time is the same at any later time. Only a circular loop can
have a count after it had none. -/
theorem eq_or_isCircular (plain : nest.resolver.emitter = .symbolic)
    (sound : nest.IsSound before) (unmarked : before.active = []) {outcome : Except Fault Value}
    (asked : (nest.iterationCount (.integer loop)).outcome before = (outcome, middle))
    (onward : nest.LeadsOn middle ledger)
    (again : (nest.iterationCount (.integer loop)).outcome ledger = (.ok count, after)) :
    outcome = .ok count ∨ outcome.toOption = none ∧ nest.IsCircular (.integer loop) := by
  obtain ⟨finalSound, within, grown, given⟩ := exists_settled plain sound asked onward again
  cases outcome with
  | ok value =>
      have trace := (tracks_call plain finalSound (.iterationCount (.integer loop))).2 before sound
      rw [LoopCall.run, asked] at trace
      exact .inl (congrArg _ ((trace.gives value rfl grown).unique given))
  | error fault =>
      rcases (catches_iterationCount plain finalSound (.integer loop)).2 before sound unmarked
        within count given with circular | ⟨_, succeeded⟩
      · exact .inr ⟨rfl, circular⟩
      · rw [asked] at succeeded
        cases succeeded

theorem HasSurveyed.passes {related : Ledger → Ledger → Prop} (passage : IsPassage related)
    (kept : nest.KeepsCalls related) {start : Ledger} {loops : List Int}
    {counts : List (Int × Option Value)} (surveyed : nest.HasSurveyed start loops counts after) :
    related start after := by
  induction surveyed with
  | done => exact passage.refl _
  | @next ledger _ _ first _ _ _ asked _ _ ih =>
      have passed := kept (.iterationCount (.integer first)) ledger
      rw [LoopCall.run, asked] at passed
      exact passage.trans passed ih

/-- A loop was counted at some point of a survey, with the result that is reported. -/
theorem HasSurveyed.exists_turn {related : Ledger → Ledger → Prop} (passage : IsPassage related)
    (kept : nest.KeepsCalls related) {start : Ledger} {loops : List Int}
    {counts : List (Int × Option Value)} (surveyed : nest.HasSurveyed start loops counts after)
    (member : loop ∈ loops) :
    ∃ turn outcome next, related start turn ∧
      (nest.iterationCount (.integer loop)).outcome turn = (outcome, next) ∧
        related next after ∧ (loop, outcome.toOption) ∈ counts := by
  induction surveyed with
  | done => cases member
  | @next ledger middle _ first outcome _ _ asked _ others ih =>
      rcases List.mem_cons.mp member with rfl | later
      · exact ⟨ledger, outcome, middle, passage.refl _, asked, others.passes passage kept,
          List.mem_cons_self ..⟩
      · obtain ⟨turn, result, next, reached, found, left, among⟩ := ih later
        have passed := kept (.iterationCount (.integer first)) ledger
        rw [LoopCall.run, asked] at passed
        exact ⟨turn, result, next, passage.trans passed reached, found, left,
          List.mem_cons_of_mem _ among⟩

/-- Every loop of a walk was counted at some point of it. -/
theorem HasCounts.forall₂ {related : Ledger → Ledger → Prop} (passage : IsPassage related)
    (kept : nest.KeepsCalls related) {start : Ledger} {loops : List Int} {counts : List Value}
    {total result : Value} (counted : nest.HasCounts start total loops counts result after) :
    List.Forall₂ (fun loop count => ∃ turn next, related start turn ∧
      (nest.iterationCount (.integer loop)).outcome turn = (.ok count, next)) loops counts := by
  induction counted with
  | none => exact .nil
  | @next ledger middle last _ total count _ _ loop _ _ asked multiplied _ ih =>
      refine .cons ⟨ledger, middle, passage.refl _, asked⟩ (ih.imp ?_)
      rintro _ _ ⟨turn, next, reached, found⟩
      have passed := kept (.iterationCount (.integer loop)) ledger
      rw [LoopCall.run, asked] at passed
      have product := Emitter.keeps_combine passage nest.resolver.emitter .mul
        (total.promote .wide) (count.promote .wide) middle
      rw [multiplied] at product
      exact ⟨turn, next, passage.trans (passage.trans passed product) reached, found⟩

/-- What is reported about a loop agrees with a count that it has later: it is the same count,
or it is missing, and the loop is circular. -/
def Agrees (nest : LoopNest) (reported : List (Int × Option Value)) (loop : Int)
    (count : Value) : Prop :=
  (loop, some count) ∈ reported ∨ (loop, none) ∈ reported ∧ nest.IsCircular (.integer loop)

theorem HasSurveyed.agrees (plain : nest.resolver.emitter = .symbolic) {start : Ledger}
    (sound : nest.IsSound start) (unmarked : start.active = [])
    {reported : List (Int × Option Value)}
    (surveyed : nest.HasSurveyed start nest.order reported middle)
    (onward : nest.LeadsOn middle ledger)
    (counted : (nest.iterationCount (.integer loop)).outcome ledger = (.ok count, after)) :
    nest.Agrees reported loop count := by
  have passage := @isPassage_leadsOn nest plain
  obtain ⟨record, catalogued⟩ := exists_record_of_iterationCount counted
  have member : loop ∈ nest.order :=
    mem_order.mpr (List.mem_map_of_mem (Register.mem_of_find_eq_some catalogued))
  obtain ⟨turn, outcome, next, reached, asked, left, among⟩ :=
    surveyed.exists_turn passage (keepsCalls_leadsOn plain) member
  obtain ⟨turnSound, _, active⟩ := reached sound
  rcases eq_or_isCircular plain turnSound (active.trans unmarked) asked
    (passage.trans left onward) counted with rfl | ⟨missing, circular⟩
  · exact .inl among
  · rw [missing] at among
    exact .inr ⟨among, circular⟩

/-- Counts that are multiplied at the turn of an access agree with what is reported. -/
theorem IsTurn.agrees (plain : nest.resolver.emitter = .symbolic) {start turn : Progress}
    {estimator : Estimator} {access : AccessRecord} (reachable : nest.Reachable start.ledger)
    {reported : List (Int × Option Value)}
    (surveyed : nest.iterationCounts.outcome start.ledger = (.ok reported, middle))
    (comes : nest.IsTurn start estimator access turn) {loops : List Int} {counts : List Value}
    {total result : Value}
    (counted : nest.HasCounts turn.ledger total loops counts result after) :
    List.Forall₂ (nest.Agrees reported) loops counts := by
  have passage := @isPassage_leadsOn nest plain
  have kept := @keepsCalls_leadsOn nest plain
  obtain ⟨_, _, again, onward⟩ := comes.passes passage kept
  cases surveyed.symm.trans again
  refine (counted.forall₂ passage kept).imp ?_
  rintro loop count ⟨ledger, next, reached, asked⟩
  exact (hasSurveyed_of_iterationCounts surveyed).agrees plain (reachable.isSound plain)
    reachable.active_eq_nil (passage.trans onward reached) asked

/-- With the default emitter, an access that has an execution count is inside catalogued loops
each of which is reported with the count that the access is multiplied with. Only a loop whose
bounds or step lead back to a loop underway can be reported as incomputable all the same. -/
theorem agrees_of_estimateInvocation {catalogue : Catalogue} {settings : Settings}
    {resolver : Resolver} {kernel : KernelRecord} (plain : resolver.emitter = .symbolic)
    (catalogued : catalogue.find? resolver.invocation.kernel = .ok (some kernel))
    {start last : Progress} (reachable : Reachable ⟨kernel, resolver, settings⟩ start.ledger)
    {map : EstimateMap}
    (returned : (estimateInvocation catalogue settings resolver).outcome start =
      (.ok map, last)) :
    ∀ estimate ∈ map.estimates, estimate.executionCount.isSome →
      ∃ loops counts turn nested after, kernel.IsNest estimate.loop loops ∧ loops.Nodup ∧
        HasCounts ⟨kernel, resolver, settings⟩ turn 1 loops counts nested after ∧
          List.Forall₂ (Agrees ⟨kernel, resolver, settings⟩ map.loopIterations) loops counts := by
  rw [outcome_estimateInvocation catalogued] at returned
  obtain ⟨counted, surveyed⟩ := iterationCounts_of_estimateKernel returned
  obtain ⟨_, onEstimates⟩ := estimates_of_estimateKernel returned
  intro estimate member hasCount
  obtain ⟨access, _, estimator, turn, after, comesTo, comes⟩ := onEstimates estimate member
  cases comes with
  | unanalyzable => cases hasCount
  | incomputable => cases hasCount
  | @computable _ nested middle _ _ _ walked computed =>
      obtain ⟨computes⟩ := Estimator.computes_of_quantities computed
      rw [comesTo.nest_eq] at walked
      obtain ⟨loops, counts, isNest, distinct, counts'⟩ := nestedIterationCount_eq_ok.mp walked
      rw [computes.made]
      exact ⟨loops, counts, turn.ledger, nested, middle, isNest, distinct, counts',
        comesTo.agrees plain reachable surveyed counts'⟩

/-- A loop between the given trees. -/
def loopBetween (id parent : Int) (initial final : BinaryTree) : LoopRecord where
  kernel := .text "kernel"
  id := id
  parent := parent
  initial := some initial
  final := some final
  step := none
  knownCount := .null
  buildErrors := []

/-- The start of the loop that phi zero belongs to. -/
def startOfFirst : BinaryTree := .leaf (.text "PHI0") (.terminal (.phiTerm (some 0)))

/-- Two loops with an access in one of them. Phi zero belongs to the first loop. -/
def pairOfLoops (first second : LoopRecord) (loop : Int) : KernelRecord where
  name := .text "kernel"
  loops := [(1, first), (2, second)]
  accesses :=
    [(1, { kernel := .text "kernel", id := 1, allocationArg := 0, loop := loop, condition := 0
           conditionKind := .null
           expression := some (.leaf (.text "TIDX") (.terminal (.thread .x)))
           tree := none, buildErrors := [] })]
  phiLoops := [(0, 1)]

/-- A loop around another one that starts where the outer one starts, with an access inside. -/
def staggered : KernelRecord :=
  pairOfLoops (loopBetween 1 0 (.constant 0) (.constant 8))
    (loopBetween 2 1 startOfFirst (.constant 4)) 2

/-- The access of 256 threads is executed 8 times 4 times by each. -/
theorem agrees_of_estimateInvocation_staggered :
    ∃ map last, (estimateInvocation [(.text "kernel", staggered)] {}
        (.sample (.constant 128))).outcome { sink := .absent } = (.ok map, last) ∧
      map.loopIterations.map (fun entry => (entry.1, entry.2.bind Value.integer?)) =
        [(1, some 8), (2, some 4)] ∧
      map.estimates.map (fun estimate => estimate.executionCount.bind Value.integer?) =
        [some (256 * 32)] ∧
      ∀ estimate ∈ map.estimates, estimate.executionCount.isSome →
        ∃ loops counts turn nested after, staggered.IsNest estimate.loop loops ∧ loops.Nodup ∧
          HasCounts ⟨staggered, .sample (.constant 128), {}⟩ turn 1 loops counts nested after ∧
            List.Forall₂ (Agrees ⟨staggered, .sample (.constant 128), {}⟩ map.loopIterations)
              loops counts := by
  have results : ((estimateInvocation [(.text "kernel", staggered)] {}
      (.sample (.constant 128))).outcome { sink := .absent }).1.toOption.map (fun map =>
        (map.loopIterations.map (fun entry => (entry.1, entry.2.bind Value.integer?)),
          map.estimates.map (fun estimate => estimate.executionCount.bind Value.integer?))) =
      some ([(1, some 8), (2, some 4)], [some (256 * 32)]) := by decide +kernel
  rcases returned : (estimateInvocation [(.text "kernel", staggered)] {}
      (.sample (.constant 128))).outcome { sink := .absent } with ⟨fault | map, last⟩
  · rw [returned] at results
    cases results
  · rw [returned] at results
    obtain ⟨loops, estimates⟩ := Prod.ext_iff.mp (Option.some.inj results)
    exact ⟨map, last, rfl, loops, estimates,
      agrees_of_estimateInvocation rfl rfl (.fresh []) returned⟩

/-- Circular loops have to be left out: if a loop ends eight after its own start, and another
loop starts where it starts, then the first loop is reported as incomputable, and yet the
access in it has an execution count. -/
theorem executionCount_of_circular :
    ((estimateInvocation [(.text "kernel",
        pairOfLoops (loopBetween 1 0 (.constant 0) (.branch "ADD" .add startOfFirst (.constant 8)))
          (loopBetween 2 0 startOfFirst (.constant 8)) 1)] {}
      (.sample (.constant 128))).outcome { sink := .absent }).1.toOption.map (fun map =>
        (map.loopIterations.map (fun entry => (entry.1, entry.2.bind Value.integer?)),
          map.estimates.map (fun estimate =>
            (estimate.loop, estimate.executionCount.bind Value.integer?)))) =
      some ([(1, none), (2, some 8)], [(1, some (256 * 8))]) := by decide +kernel

end LoopNest

end KernelFootprint
