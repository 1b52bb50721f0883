import KernelFootprint.Proofs.Index
import KernelFootprint.Proofs.Quantity

/-!
# The nesting of evaluations

Evaluating a bound can lead to the lower bounds of other loops and so to further
evaluations inside the first one. Here a limit is set to the evaluations that are
nested, and the loops underway are written down explicitly instead of being read off
the ledger. The limit is the number of catalogued loops: as the loops underway are
distinct, an evaluation at the limit is one of a loop underway, which fails before it
starts. A walk outward through enclosing loops ends for the same reason. So limited
evaluations never come to the point where they would be cut off, and they
do what unlimited ones do. What is marked as active is unmarked on every way out.
-/

namespace KernelFootprint

open Analysis

namespace LoopNest

variable {nest : LoopNest}

/-- The numbers that the catalogued loops have in their records. -/
def numbers (nest : LoopNest) : List Int := nest.kernel.loops.map (fun entry => entry.2.id)

/-- Loops that can be in evaluation at one time. -/
structure AreUnderway (nest : LoopNest) (underway : List Int) : Prop where
  distinct : underway.Nodup
  catalogued : underway ⊆ nest.numbers

theorem areUnderway_nil (nest : LoopNest) : nest.AreUnderway [] := ⟨List.nodup_nil, nofun⟩

theorem AreUnderway.cons {underway : List Int} (before : nest.AreUnderway underway) {loop : Int}
    (catalogued : loop ∈ nest.numbers) (further : loop ∉ underway) :
    nest.AreUnderway (loop :: underway) :=
  ⟨List.nodup_cons.mpr ⟨further, before.distinct⟩,
    List.cons_subset.mpr ⟨catalogued, before.catalogued⟩⟩

theorem AreUnderway.length_le {underway : List Int} (before : nest.AreUnderway underway) :
    underway.length ≤ nest.kernel.loops.length := by
  have fewer := before.distinct.length_le_of_subset before.catalogued
  rwa [numbers, List.length_map] at fewer

theorem id_mem_numbers {loop : Datum} {number : Int} {record : LoopRecord}
    (named : nest.entry loop = .ok (number, record)) : record.id ∈ nest.numbers :=
  List.mem_map.mpr ⟨(number, record), (mem_loops_of_entry named).1, rfl⟩

/-- Evaluates with at most `room` evaluations nested in each other, all of loops that are
not underway. An evaluation beyond that comes to `overrun` instead. -/
def evaluateWithin (nest : LoopNest) (overrun : Analysis Value) :
    Nat → List Int → BoundEvaluation
  | 0, _, record, quantity, _ => unlessActive record quantity overrun
  | room + 1, underway, record, quantity, tree =>
      unlessActive record quantity
        (if underway.contains record.id then overrun
        else
          let nested := nest.evaluateWithin overrun room (record.id :: underway)
          ExceptT.adapt (asObstacle record quantity)
            (whileActive record.id
              ((nest.boundContext (nest.ask nested (.bound .initial)) record).ofBinary tree)))

end LoopNest

/-- A call with a limit to the evaluations that are nested and to the loops walked through. -/
def LoopCall.runWithin (nest : LoopNest) (overrun : Analysis Value) (depth : Nat) :
    LoopCall → Analysis Value
  | .lowerBound loop => nest.ask (nest.evaluateWithin overrun depth []) (.bound .initial) loop
  | .upperBound loop => nest.ask (nest.evaluateWithin overrun depth []) (.bound .final) loop
  | .iterationCount loop => nest.ask (nest.evaluateWithin overrun depth []) .iterationCount loop
  | .nestedIterationCount loop =>
      nest.nestedBy overrun (nest.ask (nest.evaluateWithin overrun depth []) .iterationCount) loop
        (depth + 1) [] loop 1

namespace LoopNest

def countsWithin (nest : LoopNest) (overrun : Analysis Value) (depth : Nat) :
    Analysis (List (Int × Option Value)) :=
  nest.countsBy (nest.ask (nest.evaluateWithin overrun depth []) .iterationCount)

/-- Two analyses do the same while certain loops are active, and leave these active. -/
def Alike (active : List Int) (Result : Type) (first second : Analysis Result) : Prop :=
  ∀ ledger : Ledger, ledger.active = active →
    first.outcome ledger = second.outcome ledger ∧ (second.outcome ledger).2.active = active

variable {nest : LoopNest} {active : List Int}

theorem isExtensible_alike (emitter : Emitter) (active : List Int) :
    IsExtensible emitter (Alike active) where
  value _ ledger marked := ⟨rfl, marked⟩
  fault _ ledger marked := ⟨rfl, marked⟩
  request request ledger marked := by
    refine ⟨rfl, ?_⟩
    rw [Emitter.outcome_emit]
    cases emitter.respond ledger.requests request <;> exact marked
  sequence := by
    intro First Second first other next otherNext onFirst onNext ledger marked
    obtain ⟨same, after⟩ := onFirst ledger marked
    rw [outcome_bind, outcome_bind, same]
    rcases found : other.outcome ledger with ⟨fault | value, middle⟩
    · rw [found] at after
      exact ⟨rfl, after⟩
    · rw [found] at after
      exact onNext value middle after

theorem alike_unlessActive {record : LoopRecord} {quantity : LoopQuantity}
    {first second : Analysis Value}
    (rest : record.id ∉ active → Alike active Value first second) :
    Alike active Value (unlessActive record quantity first)
      (unlessActive record quantity second) := by
  intro ledger marked
  rw [outcome_unlessActive, outcome_unlessActive, marked]
  split
  · exact ⟨rfl, marked⟩
  · next further => exact rest (by simpa using further) ledger marked

/-- Whatever the outcome, the loop is no longer marked afterwards. -/
theorem alike_whileActive {loop : Int} {first second : Analysis Value}
    (nested : Alike (loop :: active) Value first second) :
    Alike active Value (whileActive loop first) (whileActive loop second) := by
  intro ledger marked
  obtain ⟨same, after⟩ := nested { ledger with active := loop :: ledger.active }
    (congrArg (loop :: ·) marked)
  rcases found : second.outcome { ledger with active := loop :: ledger.active } with
    ⟨outcome, last⟩
  rw [found] at same after
  rw [outcome_whileActive same, outcome_whileActive found]
  refine ⟨rfl, ?_⟩
  change last.active.erase loop = active
  rw [after, List.erase_cons_head]

theorem alike_adapt {first second : Analysis Value} (same : Alike active Value first second)
    (change : Fault → Fault) :
    Alike active Value (ExceptT.adapt change first) (ExceptT.adapt change second) := by
  intro ledger marked
  obtain ⟨equal, after⟩ := same ledger marked
  rw [outcome_adapt, outcome_adapt, equal]
  exact ⟨rfl, after⟩

theorem alike_remember (quantity : LoopQuantity) (loop : Int) {first second : Analysis Value}
    (same : Alike active Value first second) :
    Alike active Value (remember (Ledger.kept quantity) (Ledger.keep quantity) loop first)
      (remember (Ledger.kept quantity) (Ledger.keep quantity) loop second) := by
  intro ledger marked
  rw [outcome_remember, outcome_remember]
  cases Register.find loop (ledger.kept quantity) with
  | some value => exact ⟨rfl, marked⟩
  | none =>
      obtain ⟨equal, after⟩ := same ledger marked
      rw [equal]
      rcases found : second.outcome ledger with ⟨fault | value, last⟩
      · rw [found] at after
        exact ⟨rfl, after⟩
      · rw [found] at after
        exact ⟨rfl, (Ledger.active_keep quantity _ last).trans after⟩

theorem alike_ask {evaluate other : BoundEvaluation}
    (same : ∀ record, record.id ∈ nest.numbers → ∀ quantity tree,
      Alike active Value (evaluate record quantity tree) (other record quantity tree))
    (quantity : LoopQuantity) (loop : Datum) :
    Alike active Value (nest.ask evaluate quantity loop) (nest.ask other quantity loop) := by
  rcases named : nest.entry loop with fault | ⟨number, record⟩
  · rw [ask_of_error named, ask_of_error named]
    exact (isExtensible_alike nest.resolver.emitter active).fault fault
  · rw [ask_of_entry named, ask_of_entry named]
    exact alike_remember quantity number
      (related_compute (isExtensible_alike _ _) (same record (id_mem_numbers named)) quantity loop)

/-- With room for all loops that are not underway, no evaluation is cut off. -/
theorem alike_evaluateWithin (overrun : Analysis Value) {room budget : Nat}
    {underway : List Int} (before : nest.AreUnderway underway)
    (enough : nest.kernel.loops.length ≤ room + underway.length)
    (budgeted : nest.kernel.loops.length ≤ budget + underway.length)
    {record : LoopRecord} (catalogued : record.id ∈ nest.numbers) (quantity : LoopQuantity)
    (tree : BinaryTree) :
    Alike underway Value (nest.evaluateWithin overrun room underway record quantity tree)
      (nest.evaluateBound (nest.lowerBoundWithin budget) record quantity tree) := by
  induction room generalizing budget underway record quantity tree with
  | zero =>
      refine alike_unlessActive (fun further => ?_)
      have more := (before.cons catalogued further).length_le
      rw [List.length_cons] at more
      omega
  | succ room ih =>
      rw [evaluateBound_eq, evaluateWithin]
      refine alike_unlessActive (fun further => ?_)
      have onward := before.cons catalogued further
      have more := onward.length_le
      rw [List.length_cons] at more
      rw [if_neg (by simpa using further)]
      refine alike_adapt (alike_whileActive ?_) _
      refine related_boundContext (isExtensible_alike _ _) ?_ record tree
      intro loop
      obtain ⟨budget, rfl⟩ : ∃ less, budget = less + 1 := ⟨budget - 1, by omega⟩
      rw [lowerBoundWithin_succ]
      refine alike_ask (fun other member quantity tree => ?_) _ loop
      exact ih onward (by rw [List.length_cons]; omega) (by rw [List.length_cons]; omega) member
        quantity tree

theorem alike_ask_evaluateWithin (overrun : Analysis Value) {depth budget : Nat}
    (enough : nest.kernel.loops.length ≤ depth) (budgeted : nest.kernel.loops.length ≤ budget)
    (quantity : LoopQuantity) (loop : Datum) :
    Alike [] Value (nest.ask (nest.evaluateWithin overrun depth []) quantity loop)
      (nest.ask (nest.evaluateBound (nest.lowerBoundWithin budget)) quantity loop) :=
  alike_ask (fun _ catalogued quantity tree =>
    alike_evaluateWithin overrun nest.areUnderway_nil enough budgeted catalogued quantity tree)
    quantity loop

/-- The loops that a walk has gone through, each under the number it is catalogued by. -/
structure AreWalked (nest : LoopNest) (keys : List Int) (seen : List Datum) : Prop where
  distinct : keys.Nodup
  catalogued : keys ⊆ nest.kernel.loops.map Prod.fst
  named : ∀ key ∈ keys, ∃ loop ∈ seen, (Datum.integer key == loop) = true

theorem AreWalked.length_le {keys : List Int} {seen : List Datum}
    (before : nest.AreWalked keys seen) : keys.length ≤ nest.kernel.loops.length := by
  have fewer := before.distinct.length_le_of_subset before.catalogued
  rwa [List.length_map] at fewer

theorem AreWalked.cons {keys : List Int} {seen : List Datum} (before : nest.AreWalked keys seen)
    {current : Datum} {record : LoopRecord} (named : nest.record current = .ok record)
    (unseen : seen.contains current = false) :
    ∃ key, nest.AreWalked (key :: keys) (current :: seen) := by
  obtain ⟨key, found⟩ := record_eq_ok.mp named
  obtain ⟨member, spelled⟩ := mem_loops_of_entry found
  refine ⟨key, List.nodup_cons.mpr ⟨?_, before.distinct⟩, ?_, ?_⟩
  · intro walked
    obtain ⟨loop, inSeen, same⟩ := before.named key walked
    have found : seen.contains current = true :=
      List.contains_iff_exists_mem_beq.mpr
        ⟨loop, inSeen, Datum.beq_of_integer_beq spelled same⟩
    rw [unseen] at found
    cases found
  · exact List.cons_subset.mpr
      ⟨List.mem_map.mpr ⟨(key, record), member, rfl⟩, before.catalogued⟩
  · refine List.forall_mem_cons.mpr ⟨⟨current, List.mem_cons_self .., spelled⟩, ?_⟩
    intro other walked
    obtain ⟨loop, inSeen, same⟩ := before.named other walked
    exact ⟨loop, List.mem_cons_of_mem _ inSeen, same⟩

/-- With steps for all loops that have not been walked through, no walk is cut off. -/
theorem alike_nestedBy {overrun otherOverrun : Analysis Value}
    {count other : Datum → Analysis Value}
    (same : ∀ loop, Alike active Value (count loop) (other loop)) (loop : Datum)
    {steps otherSteps : Nat} {keys : List Int} {seen : List Datum}
    (walked : nest.AreWalked keys seen)
    (enough : nest.kernel.loops.length < steps + keys.length)
    (otherEnough : nest.kernel.loops.length < otherSteps + keys.length)
    (current : Datum) (total : Value) :
    Alike active Value (nest.nestedBy overrun count loop steps seen current total)
      (nest.nestedBy otherOverrun other loop otherSteps seen current total) := by
  have extensible := isExtensible_alike nest.resolver.emitter active
  have fewer := walked.length_le
  induction steps generalizing otherSteps keys seen current total with
  | zero => omega
  | succ steps ih =>
      obtain ⟨otherSteps, rfl⟩ : ∃ less, otherSteps = less + 1 := ⟨otherSteps - 1, by omega⟩
      rw [nestedBy, nestedBy]
      by_cases outside : isOutsideLoops current = true
      · rw [if_pos outside, if_pos outside]
        exact extensible.value total
      rw [if_neg outside, if_neg outside]
      by_cases again : seen.contains current = true
      · rw [if_pos again, if_pos again]
        exact extensible.fault _
      rw [if_neg again, if_neg again]
      refine extensible.sequence (same current) ?_
      intro counted
      refine extensible.sequence (extensible.combine _ _ _) ?_
      intro total
      cases named : nest.record current with
      | error fault => exact extensible.fault fault
      | ok record =>
          obtain ⟨key, onward⟩ := walked.cons named (by simpa using again)
          exact ih onward (by rw [List.length_cons]; omega) (by rw [List.length_cons]; omega)
            (.integer record.parent) total onward.length_le

theorem alike_nestedIterationCount (overrun : Analysis Value) {depth : Nat}
    (enough : nest.kernel.loops.length ≤ depth) (loop : Datum) :
    Alike [] Value ((LoopCall.nestedIterationCount loop).runWithin nest overrun depth)
      (nest.nestedIterationCount loop) := by
  rw [nestedIterationCount, nestedFrom_eq]
  refine alike_nestedBy (fun current => ?_) loop ⟨List.nodup_nil, nofun, nofun⟩
    (Nat.lt_succ_of_le enough) (Nat.lt_succ_self _) loop 1
  exact alike_ask_evaluateWithin overrun enough (Nat.le_succ _) _ current

theorem alike_call (overrun : Analysis Value) {depth : Nat}
    (enough : nest.kernel.loops.length ≤ depth) (call : LoopCall) :
    Alike [] Value (call.runWithin nest overrun depth) (call.run nest) := by
  cases call with
  | lowerBound loop =>
      rw [LoopCall.run, lowerBound_eq]
      exact alike_ask_evaluateWithin overrun enough (Nat.le_refl _) _ loop
  | upperBound loop =>
      rw [LoopCall.run, upperBound_eq]
      exact alike_ask_evaluateWithin overrun enough (Nat.le_succ _) _ loop
  | iterationCount loop =>
      rw [LoopCall.run, iterationCount_eq]
      exact alike_ask_evaluateWithin overrun enough (Nat.le_succ _) _ loop
  | nestedIterationCount loop => exact alike_nestedIterationCount overrun enough loop

theorem alike_tryCatch {Result : Type} {first second : Analysis Result}
    (same : Alike active Result first second) {handler : Fault → Analysis Result}
    (handled : ∀ fault, Alike active Result (handler fault) (handler fault)) :
    Alike active Result (tryCatch first handler) (tryCatch second handler) := by
  intro ledger marked
  obtain ⟨equal, after⟩ := same ledger marked
  rw [outcome_tryCatch, outcome_tryCatch, equal]
  rcases found : second.outcome ledger with ⟨fault | value, last⟩
  · rw [found] at after
    exact handled fault last after
  · rw [found] at after
    exact ⟨rfl, after⟩

theorem alike_counts (overrun : Analysis Value) {depth : Nat}
    (enough : nest.kernel.loops.length ≤ depth) :
    Alike [] _ (nest.countsWithin overrun depth) nest.iterationCounts := by
  rw [iterationCounts_eq]
  exact related_countsBy (isExtensible_alike _ _) (fun same handled => alike_tryCatch same handled)
    (fun loop => alike_call overrun enough (.iterationCount loop))

/-- In every ledger that calls lead to no loop is active. -/
theorem Reachable.active_eq_nil {ledger : Ledger} (reachable : nest.Reachable ledger) :
    ledger.active = [] := by
  induction reachable with
  | fresh requests => rfl
  | call call before unmarked =>
      exact (alike_call (Analysis.fail Misuse.unfinished) (Nat.le_refl _) call _ unmarked).2
  | counts before unmarked =>
      exact (alike_counts (Analysis.fail Misuse.unfinished) (Nat.le_refl _) _ unmarked).2

/-- Loop accounting comes to an end: a call does the same when at most as many evaluations
of bounds are nested as there are catalogued loops, all of distinct loops, and when a walk
goes through at most as many loops. After a call, failing or not, the same loops are
active as before. -/
theorem runWithin_eq (overrun : Analysis Value) {ledger : Ledger}
    (reachable : nest.Reachable ledger) {depth : Nat}
    (enough : nest.kernel.loops.length ≤ depth) :
    (∀ call : LoopCall,
      (call.runWithin nest overrun depth).outcome ledger = (call.run nest).outcome ledger ∧
        ((call.run nest).outcome ledger).2.active = ledger.active) ∧
      (nest.countsWithin overrun depth).outcome ledger = nest.iterationCounts.outcome ledger ∧
        (nest.iterationCounts.outcome ledger).2.active = ledger.active := by
  have unmarked := reachable.active_eq_nil
  rw [unmarked]
  exact ⟨fun call => alike_call overrun enough call ledger unmarked,
    alike_counts overrun enough ledger unmarked⟩

/-- A loop that starts where another one starts, inside that loop. -/
def entangledRecord (id other : Int) (phi : Nat) : LoopRecord where
  kernel := .text "kernel"
  id := id
  parent := other
  initial := some (.leaf (.text "PHI") (.terminal (.phiTerm (some phi))))
  final := some (.constant 8)
  step := none
  knownCount := .null
  buildErrors := []

/-- Two loops around each other, each of which starts where the other one starts. -/
def entangled : LoopNest where
  kernel :=
    { name := .text "kernel"
      loops := [(1, entangledRecord 1 2 0), (2, entangledRecord 2 1 1)]
      phiLoops := [(0, 2), (1, 1)] }
  resolver := .sample (.constant 128)
  settings := {}

/-- Two evaluations are nested, and the third one fails before it starts. -/
theorem runWithin_entangled :
    ((LoopCall.lowerBound (.integer 1)).runWithin entangled (Analysis.fail Misuse.unfinished)
      2).outcome {} =
        (.error (obstructed (entangledRecord 1 2 0) (.dependsOnItself (.bound .initial))), {}) ∧
      ((LoopCall.nestedIterationCount (.integer 2)).run entangled |>.outcome {}).2.active = [] := by
  obtain ⟨calls, _⟩ := @runWithin_eq entangled (Analysis.fail Misuse.unfinished) {} (.fresh []) 2
    (Nat.le_refl 2)
  refine ⟨?_, (calls (.nestedIterationCount (.integer 2))).2⟩
  rw [(calls (.lowerBound (.integer 1))).1]
  rfl

end LoopNest

end KernelFootprint
