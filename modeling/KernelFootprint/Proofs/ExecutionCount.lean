import KernelFootprint.Proofs.Index
import KernelFootprint.Proofs.Quantity
import KernelFootprint.Proofs.Turns
import KernelFootprint.Proofs.Unbounded

/-!
# Execution counts

An access is executed once per thread and per iteration of all the loops around it. The
walk from its loop outward succeeds exactly if it leaves all loops without coming back to
one, goes through catalogued loops only and finds a count for each of them. Every
multiplication on the way wraps its result, which changes it by a multiple of the modulus
only. Hence the execution count is the exact product of all dimensions and counts, wrapped
once.
-/

namespace KernelFootprint

open Analysis

theorem Emitter.combine_mul_promote (emitter : Emitter) (first second : Int) :
    emitter.combine .mul ((Value.int first).promote .wide) ((Value.int second).promote .wide) =
      pure (.int (wrapWide (first * second))) := by
  change emitter.combine .mul (.int (wrapWide first)) (.int (wrapWide second)) = _
  rw [combine_of_fold emitter (WordOp.fold_mul _ _), wrapWide_mul]

/-- The number of threads is the product of all dimensions, up to wrapping. -/
theorem Invocation.countThreads_of_int {invocation : Invocation} {gridX gridY blockX blockY : Int}
    (grid : invocation.gridDim = ⟨.int gridX, .int gridY⟩)
    (block : invocation.blockDim = ⟨.int blockX, .int blockY⟩) (emitter : Emitter) :
    ∃ threads, invocation.countThreads emitter = pure (.int threads) ∧
      threads ≡ gridX * gridY * blockX * blockY [ZMOD 2 ^ 64] := by
  have multiply (total dimension : Int) :
      emitter.combine .mul (.int total) ((Value.int dimension).promote .wide) =
        pure (.int (wrapWide (total * wrapWide dimension))) :=
    Emitter.combine_of_fold emitter (WordOp.fold_mul _ _)
  have step {total exact : Int} (dimension : Int) (same : total ≡ exact [ZMOD 2 ^ 64]) :
      wrapWide (total * wrapWide dimension) ≡ exact * dimension [ZMOD 2 ^ 64] :=
    (wrapWide_modEq _).trans (same.mul (wrapWide_modEq dimension))
  have first : wrapWide (1 * wrapWide gridX) ≡ gridX [ZMOD 2 ^ 64] := by
    rw [Int.one_mul]
    exact (wrapWide_modEq _).trans (wrapWide_modEq gridX)
  refine ⟨_, ?_, step blockY (step blockX (step gridY first))⟩
  · rw [countThreads, grid, block]
    change List.foldlM
      (fun total (dimension : Value) => emitter.combine .mul total (dimension.promote .wide))
      (Value.int 1) [.int gridX, .int gridY, .int blockX, .int blockY] = _
    simp only [List.foldlM_cons, List.foldlM_nil, multiply, pure_bind, bind_pure]

/-- The loops around each other, from a loop outward until there is none around. -/
inductive KernelRecord.IsNest (kernel : KernelRecord) : Int → List Int → Prop
  | outside : IsNest kernel 0 []
  | inside {loop : Int} {record : LoopRecord} {loops : List Int} :
      loop ≠ 0 → Register.find loop kernel.loops = some record →
        IsNest kernel record.parent loops → IsNest kernel loop (loop :: loops)

theorem KernelRecord.IsNest.subset {kernel : KernelRecord} {loop : Int} {loops : List Int}
    (nested : kernel.IsNest loop loops) : loops ⊆ kernel.loops.map Prod.fst := by
  induction nested with
  | outside => exact List.nil_subset _
  | inside _ found _ ih =>
      exact List.cons_subset.mpr ⟨List.mem_map_of_mem (Register.mem_of_find_eq_some found), ih⟩

namespace LoopNest

variable {nest : LoopNest} {loop current : Int} {loops : List Int} {counts : List Value}
  {total result : Value} {ledger after : Ledger}

theorem record_integer_eq_ok {record : LoopRecord} :
    nest.record (.integer loop) = .ok record ↔
      Register.find loop nest.kernel.loops = some record := by
  have serves : (Datum.integer loop).isKey = true := rfl
  have numbered := Datum.findNumbered_integer loop nest.kernel.loops
  rw [Datum.findNumbered, Datum.findEntry, if_pos serves] at numbered
  rw [← Except.ok.inj numbered, record_eq_ok]
  simp [entry_eq_ok, serves]

/-- A loop with a count is catalogued. -/
theorem exists_record_of_iterationCount {count : Value}
    (counted : (nest.iterationCount (.integer loop)).outcome ledger = (.ok count, after)) :
    ∃ record, Register.find loop nest.kernel.loops = some record := by
  rcases named : nest.entry (.integer loop) with fault | ⟨number, record⟩
  · rw [iterationCount_eq, ask_of_error named] at counted
    cases counted
  · exact ⟨record, record_integer_eq_ok.mp (record_eq_ok.mpr ⟨number, named⟩)⟩

/-- The counts of loops one after the other, and the product they lead to. -/
inductive HasCounts (nest : LoopNest) :
    Ledger → Value → List Int → List Value → Value → Ledger → Prop
  | none {ledger : Ledger} {total : Value} : HasCounts nest ledger total [] [] total ledger
  | next {ledger counted multiplied after : Ledger} {total count product result : Value}
      {loop : Int} {loops : List Int} {counts : List Value} :
      (nest.iterationCount (.integer loop)).outcome ledger = (.ok count, counted) →
      (nest.resolver.emitter.combine .mul (total.promote .wide) (count.promote .wide)).outcome
        counted = (.ok product, multiplied) →
      HasCounts nest multiplied product loops counts result after →
        HasCounts nest ledger total (loop :: loops) (count :: counts) result after

theorem contains_map_integer (visited : List Int) :
    (visited.map Datum.integer).contains (.integer current) = visited.contains current := by
  induction visited with
  | nil => rfl
  | cons first rest ih =>
      rw [List.map_cons, List.contains_cons, List.contains_cons, ih, Datum.beq_integer]

/-- A walk that succeeds has gone outward through distinct loops with a count. -/
theorem hasCounts_of_nestedFrom (visited : List Int) {named : Datum} {steps : Nat}
    (walked : (nest.nestedFrom named steps (visited.map .integer) (.integer current)
      total).outcome ledger = (.ok result, after)) :
    ∃ loops counts, nest.kernel.IsNest current loops ∧ loops.Nodup ∧
      (∀ loop ∈ loops, loop ∉ visited) ∧
        nest.HasCounts ledger total loops counts result after := by
  induction steps generalizing visited current total ledger with
  | zero => cases walked
  | succ steps ih =>
      rw [nestedFrom, isOutsideLoops_integer, contains_map_integer] at walked
      by_cases outside : current = 0
      · subst outside
        cases walked
        exact ⟨[], [], .outside, List.nodup_nil, List.forall_mem_nil _, .none⟩
      rw [if_neg (by simpa using outside)] at walked
      by_cases seen : visited.contains current = true
      · rw [if_pos seen] at walked
        cases walked
      rw [if_neg seen] at walked
      obtain ⟨count, counted, onCount, walked⟩ := outcome_bind_eq_ok.mp walked
      obtain ⟨product, multiplied, onProduct, walked⟩ := outcome_bind_eq_ok.mp walked
      obtain ⟨record, found⟩ := exists_record_of_iterationCount onCount
      rw [record_integer_eq_ok.mpr found] at walked
      obtain ⟨loops, counts, nested, distinct, fresh, others⟩ := ih (current :: visited) walked
      have further : current ∉ loops := fun again => fresh current again (List.mem_cons_self ..)
      refine ⟨current :: loops, count :: counts, .inside outside found nested,
        List.nodup_cons.mpr ⟨further, distinct⟩, ?_, .next onCount onProduct others⟩
      refine List.forall_mem_cons.mpr ⟨by simpa using seen, ?_⟩
      exact fun loop member again => fresh loop member (List.mem_cons_of_mem _ again)

/-- A walk through distinct loops with a count succeeds if there are steps enough. -/
theorem nestedFrom_of_hasCounts (visited : List Int) {named : Datum} {steps : Nat}
    (nested : nest.kernel.IsNest current loops) (distinct : loops.Nodup)
    (fresh : ∀ loop ∈ loops, loop ∉ visited)
    (counted : nest.HasCounts ledger total loops counts result after)
    (enough : loops.length < steps) :
    (nest.nestedFrom named steps (visited.map .integer) (.integer current) total).outcome ledger =
      (.ok result, after) := by
  induction nested generalizing steps visited counts ledger total with
  | outside =>
      obtain ⟨steps, rfl⟩ : ∃ less, steps = less + 1 := ⟨steps - 1, by omega⟩
      cases counted
      rfl
  | @inside loop record loops inLoop found _ ih =>
      obtain ⟨steps, rfl⟩ : ∃ less, steps = less + 1 := ⟨steps - 1, by omega⟩
      obtain ⟨further, distinct⟩ := List.nodup_cons.mp distinct
      obtain ⟨unseen, fresh⟩ := List.forall_mem_cons.mp fresh
      cases counted with
      | next onCount onProduct others =>
          rw [nestedFrom, isOutsideLoops_integer, contains_map_integer,
            if_neg (by simpa using inLoop), if_neg (by simpa using unseen)]
          refine outcome_bind_eq_ok.mpr ⟨_, _, onCount, ?_⟩
          refine outcome_bind_eq_ok.mpr ⟨_, _, onProduct, ?_⟩
          rw [record_integer_eq_ok.mpr found]
          refine ih (loop :: visited) distinct ?_ others (by simpa using enough)
          intro other member again
          rcases List.mem_cons.mp again with rfl | seen
          · exact further member
          · exact fresh other member seen

/-- The nested count of a loop: when there is one, and how it comes about. -/
theorem nestedIterationCount_eq_ok :
    (nest.nestedIterationCount (.integer current)).outcome ledger = (.ok result, after) ↔
      ∃ loops counts, nest.kernel.IsNest current loops ∧ loops.Nodup ∧
        nest.HasCounts ledger 1 loops counts result after := by
  constructor
  · intro walked
    obtain ⟨loops, counts, nested, distinct, _, counted⟩ :=
      hasCounts_of_nestedFrom [] walked
    exact ⟨loops, counts, nested, distinct, counted⟩
  · rintro ⟨loops, counts, nested, distinct, counted⟩
    have fewer := distinct.length_le_of_subset nested.subset
    rw [List.length_map] at fewer
    exact nestedFrom_of_hasCounts [] nested distinct (by simp) counted
      (Nat.lt_succ_of_le fewer)

/-- Integer counts have an integer product that is exact up to wrapping. -/
theorem HasCounts.product_modEq {numbers : List Int} {start : Int}
    (counted : nest.HasCounts ledger (.int start) loops (numbers.map .int) result after) :
    ∃ product, result = .int product ∧ product ≡ start * numbers.prod [ZMOD 2 ^ 64] := by
  induction numbers generalizing ledger start loops with
  | nil =>
      cases counted
      exact ⟨start, rfl, by rw [List.prod_nil, Int.mul_one]⟩
  | cons number rest ih =>
      rcases counted with _ | ⟨_, multiplied, others⟩
      rw [Emitter.combine_mul_promote] at multiplied
      cases multiplied
      obtain ⟨product, rfl, same⟩ := ih others
      refine ⟨product, rfl, same.trans ?_⟩
      rw [List.prod_cons, ← Int.mul_assoc]
      exact (wrapWide_modEq _).mul_right _

end LoopNest

/-- An estimate that counts the executions of an access as far as there are counts. -/
structure Estimate.CountsExecutions (estimate : Estimate) (nest : LoopNest) (threads : Int)
    (loop : Int) (turn : Ledger) : Prop where
  counted : estimate.executionCount.isSome ↔ ∃ loops counts nested after,
    nest.kernel.IsNest loop loops ∧ loops.Nodup ∧ nest.HasCounts turn 1 loops counts nested after
  uncounted : estimate.executionCount = none →
    estimate.flags = [.incomputable] ∧ estimate.workingSet = none ∧ estimate.sensitivities = []
  exact : ∀ loops (numbers : List Int) nested after, nest.kernel.IsNest loop loops →
    loops.Nodup → nest.HasCounts turn 1 loops (numbers.map .int) nested after →
      estimate.executionCount = some (.int (wrapWide (threads * numbers.prod)))

namespace Estimator

variable {estimator : Estimator} {access : AccessRecord} {estimate : Estimate}
  {turn after : Progress}

theorem analyzable_eq_ok {expression : BinaryTree} :
    analyzable access = .ok expression ↔ access.expression = some expression ∧
      (AddressTree.binary expression).isPointerChase = false ∧
        (AddressTree.binary expression).isIncomplete = false := by
  rw [analyzable]
  cases access.expression with
  | none => simp
  | some found =>
      cases chased : (AddressTree.binary found).isPointerChase <;>
        cases partly : (AddressTree.binary found).isIncomplete <;>
          simp [AddressTree.obstacle?, chased, partly] <;> grind

/-- An access with an expression is counted at its turn, or not at all. -/
theorem Comes.countsExecutions (comes : estimator.Comes access turn estimate after)
    {expression : BinaryTree} (analyzed : analyzable access = .ok expression) {threads exact : Int}
    (threaded : estimator.threads = .int threads) (same : threads ≡ exact [ZMOD 2 ^ 64]) :
    estimate.CountsExecutions estimator.nest exact access.loop turn.ledger := by
  cases comes with
  | unanalyzable obstructed =>
      rw [analyzed] at obstructed
      cases obstructed
  | incomputable _ failed _ =>
      have absent : ¬ ∃ loops counts nested after, estimator.nest.kernel.IsNest access.loop loops ∧
          loops.Nodup ∧ estimator.nest.HasCounts turn.ledger 1 loops counts nested after := by
        rintro ⟨loops, counts, nested, last, onward⟩
        have succeeded := LoopNest.nestedIterationCount_eq_ok.mpr ⟨loops, counts, onward⟩
        rw [failed] at succeeded
        cases succeeded
      refine ⟨⟨nofun, fun counted => absurd counted absent⟩, fun _ => ⟨rfl, rfl, rfl⟩, ?_⟩
      intro loops numbers nested last isNest distinct counted
      exact absurd ⟨loops, _, nested, last, isNest, distinct, counted⟩ absent
  | @computable _ nested middle _ _ _ walked computed =>
      obtain ⟨computes⟩ := computes_of_quantities computed
      obtain ⟨loops, counts, onward⟩ := LoopNest.nestedIterationCount_eq_ok.mp walked
      have made : estimate.executionCount = some computes.executionCount  :=
        congrArg Estimate.executionCount computes.made
      refine ⟨?_, ?_, ?_⟩
      · rw [made]
        exact ⟨fun _ => ⟨loops, counts, nested, middle, onward⟩, fun _ => rfl⟩
      · rw [made]
        exact nofun
      · intro loops numbers other last isNest distinct counted
        have succeeded := LoopNest.nestedIterationCount_eq_ok.mpr
          ⟨loops, _, isNest, distinct, counted⟩
        rw [walked] at succeeded
        cases succeeded
        obtain ⟨product, rfl, exactly⟩ := counted.product_modEq
        have multiplied := computes.multiplied
        rw [threaded, Emitter.combine_mul_promote] at multiplied
        have value := Except.ok.inj (congrArg Prod.fst multiplied)
        rw [made, ← value, wrapWide_congr (same.mul exactly), Nat.cast_one, Int.one_mul]

end Estimator

namespace LoopNest

/-- An estimate of an access that counts executions, for an access with an expression. -/
def IsCounted (nest : LoopNest) (start : Progress) (threads : Int) (access : AccessRecord)
    (estimate : Estimate) : Prop :=
  ∃ estimator turn, nest.IsTurn start estimator access turn ∧
    estimate.key = estimator.key access ∧
      ∀ expression, access.expression = some expression →
        (AddressTree.binary expression).isPointerChase = false →
          (AddressTree.binary expression).isIncomplete = false →
            estimate.CountsExecutions nest threads access.loop turn.ledger

variable {nest : LoopNest} {access : AccessRecord} {estimate : Estimate} {start turn : Progress}

theorem IsTurn.threads_modEq {estimator : Estimator}
    (comes : nest.IsTurn start estimator access turn) {gridX gridY blockX blockY : Int}
    (grid : nest.resolver.invocation.gridDim = ⟨.int gridX, .int gridY⟩)
    (block : nest.resolver.invocation.blockDim = ⟨.int blockX, .int blockY⟩) :
    ∃ threads, estimator.threads = .int threads ∧
      threads ≡ gridX * gridY * blockX * blockY [ZMOD 2 ^ 64] := by
  obtain ⟨_, _, surveyed, _⟩ := comes
  obtain ⟨_, _, _, _, multiplied, _⟩ := survey_eq_ok surveyed
  obtain ⟨threads, counted, same⟩ := Invocation.countThreads_of_int grid block
    nest.resolver.emitter
  rw [counted] at multiplied
  exact ⟨threads, (Except.ok.inj (congrArg Prod.fst multiplied)).symm, same⟩

/-- An access inside distinct catalogued loops that leave the kernel's loops in the end, each
of which has a count when its turn comes, is executed as often as the exact product of all
dimensions and of all these counts says, up to wrapping. Any other access is incomputable and
has no estimates. -/
theorem isCounted_of_estimateInvocation {catalogue : Catalogue} {settings : Settings}
    {resolver : Resolver} {kernel : KernelRecord}
    (catalogued : catalogue.find? resolver.invocation.kernel = .ok (some kernel))
    {gridX gridY blockX blockY : Int}
    (grid : resolver.invocation.gridDim = ⟨.int gridX, .int gridY⟩)
    (block : resolver.invocation.blockDim = ⟨.int blockX, .int blockY⟩) {start last : Progress}
    {map : EstimateMap}
    (returned : (estimateInvocation catalogue settings resolver).outcome start =
      (.ok map, last)) :
    (∀ estimate ∈ map.estimates, ∃ entry ∈ kernel.accesses,
      IsCounted ⟨kernel, resolver, settings⟩ start (gridX * gridY * blockX * blockY) entry.2
        estimate) ∧
      ∀ entry ∈ kernel.accesses, ∃ estimate ∈ map.estimates,
        estimate.key.access = entry.2.id ∧
          ((∀ other ∈ kernel.accesses, other.2.id = entry.2.id → other.2 = entry.2) →
            IsCounted ⟨kernel, resolver, settings⟩ start (gridX * gridY * blockX * blockY)
              entry.2 estimate) := by
  rw [outcome_estimateInvocation catalogued] at returned
  obtain ⟨onAccesses, onEstimates⟩ := estimates_of_estimateKernel returned
  have counted : ∀ estimate ∈ map.estimates, ∃ entry ∈ kernel.accesses,
      IsCounted ⟨kernel, resolver, settings⟩ start (gridX * gridY * blockX * blockY) entry.2
        estimate := by
    intro estimate member
    obtain ⟨access, among, estimator, turn, after, comesTo, comes⟩ := onEstimates estimate member
    obtain ⟨number, inside⟩ := mem_accesses.mp among
    obtain ⟨threads, threaded, same⟩ := comesTo.threads_modEq grid block
    refine ⟨(number, access), inside, estimator, turn, comesTo, comes.key_eq, ?_⟩
    intro expression present unchased complete
    have counts := comes.countsExecutions
      (Estimator.analyzable_eq_ok.mpr ⟨present, unchased, complete⟩) threaded same
    rwa [comesTo.nest_eq] at counts
  refine ⟨counted, ?_⟩
  intro entry inside
  obtain ⟨estimate, member, named⟩ := onAccesses entry.2 (mem_accesses.mpr ⟨entry.1, inside⟩)
  refine ⟨estimate, member, named, ?_⟩
  intro only
  obtain ⟨other, otherInside, isCounted⟩ := counted estimate member
  have same : other.2.id = entry.2.id := by
    obtain ⟨_, _, _, keyed, _⟩ := isCounted
    rw [← named, keyed]
    rfl
  rwa [only other otherInside same] at isCounted

/-- A loop around another one of more than 2 ^ 60 iterations, with an access inside both of
them and one inside a loop that is not catalogued. -/
def towering : KernelRecord :=
  let indexed (id loop : Int) : AccessRecord :=
    { kernel := .text "kernel", id := id, allocationArg := 0, loop := loop, condition := 0
      conditionKind := .null, expression := some (.leaf (.text "TIDX") (.terminal (.thread .x)))
      tree := none, buildErrors := [] }
  { name := .text "kernel"
    loops :=
      [(1, { kernel := .text "kernel", id := 1, parent := 2, initial := none, final := none
             step := none, knownCount := .integer (2 ^ 60 + 1), buildErrors := [] }),
        (2, { kernel := .text "kernel", id := 2, parent := 0, initial := some (.constant 0)
              final := some (.constant 8), step := none, knownCount := .null
              buildErrors := [] })]
    accesses := [(1, indexed 1 1), (2, indexed 2 3)] }

/-- The product of 256 threads and both counts is 2 ^ 71 + 2 ^ 11. -/
theorem isCounted_towering :
    ∃ map last, (estimateInvocation [(.text "kernel", towering)] {}
        (.sample (.constant 128))).outcome { sink := .absent } = (.ok map, last) ∧
      map.estimates.map (fun estimate => estimate.executionCount.bind Value.integer?) =
        [some (2 ^ 11), none] ∧
      ∀ estimate ∈ map.estimates, ∃ entry ∈ towering.accesses,
        IsCounted ⟨towering, .sample (.constant 128), {}⟩ { sink := .absent } (4 * 1 * 32 * 2)
          entry.2 estimate := by
  have counts : ((estimateInvocation [(.text "kernel", towering)] {}
      (.sample (.constant 128))).outcome { sink := .absent }).1.toOption.map (fun map =>
        map.estimates.map (fun estimate => estimate.executionCount.bind Value.integer?)) =
      some [some (2 ^ 11), none] := by decide +kernel
  rcases returned : (estimateInvocation [(.text "kernel", towering)] {}
      (.sample (.constant 128))).outcome { sink := .absent } with ⟨fault | map, last⟩
  · rw [returned] at counts
    cases counts
  · rw [returned] at counts
    exact ⟨map, last, rfl, Option.some.inj counts,
      (isCounted_of_estimateInvocation rfl rfl rfl returned).1⟩

end LoopNest

end KernelFootprint
