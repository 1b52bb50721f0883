import KernelFootprint.Proofs.Memo
import KernelFootprint.Proofs.SideBySide

/-!
# Quantities of loops

The bounds and the iteration count of a loop are all asked for in one way: what the
ledger keeps is given back, and anything else is computed from the trees of the loop
and kept. They differ in where the ledger keeps them and in how their trees are made.
The way trees are evaluated is left open here, so that it can be changed while
everything around it stays the same.
-/

namespace KernelFootprint

namespace Ledger

/-- The values that are kept for a quantity of loops. -/
def kept : LoopQuantity → Ledger → List (Int × Value)
  | .bound .initial, ledger => ledger.lowerBounds
  | .bound .final, ledger => ledger.upperBounds
  | .iterationCount, ledger => ledger.iterationCounts

def keep : LoopQuantity → List (Int × Value) → Ledger → Ledger
  | .bound .initial, values, ledger => { ledger with lowerBounds := values }
  | .bound .final, values, ledger => { ledger with upperBounds := values }
  | .iterationCount, values, ledger => { ledger with iterationCounts := values }

@[simp] theorem active_keep (quantity : LoopQuantity) (values : List (Int × Value))
    (ledger : Ledger) : (ledger.keep quantity values).active = ledger.active := by
  rcases quantity with ⟨_ | _⟩ | _ <;> rfl

@[simp] theorem kept_keep (quantity : LoopQuantity) (values : List (Int × Value))
    (ledger : Ledger) : (ledger.keep quantity values).kept quantity = values := by
  rcases quantity with ⟨_ | _⟩ | _ <;> rfl

theorem kept_keep_of_ne {quantity other : LoopQuantity} (different : other ≠ quantity)
    (values : List (Int × Value)) (ledger : Ledger) :
    (ledger.keep quantity values).kept other = ledger.kept other := by
  rcases quantity with ⟨_ | _⟩ | _ <;> rcases other with ⟨_ | _⟩ | _ <;>
    first | rfl | exact absurd rfl different

/-- Keeps one more value of a quantity. -/
def enter (quantity : LoopQuantity) (number : Int) (value : Value) (ledger : Ledger) : Ledger :=
  ledger.keep quantity (Register.insert number value (ledger.kept quantity))

variable {quantity : LoopQuantity} {number : Int} {value : Value} {ledger : Ledger}

@[simp] theorem active_enter : (ledger.enter quantity number value).active = ledger.active :=
  active_keep quantity _ ledger

@[simp] theorem kept_enter : (ledger.enter quantity number value).kept quantity =
    Register.insert number value (ledger.kept quantity) :=
  kept_keep quantity _ ledger

theorem kept_enter_of_ne {other : LoopQuantity} (different : other ≠ quantity) :
    (ledger.enter quantity number value).kept other = ledger.kept other :=
  kept_keep_of_ne different _ ledger

end Ledger

namespace Datum

theorem number?_of_integer_beq {number : Int} {loop : Datum}
    (same : (Datum.integer number == loop) = true) : loop.number? = some (.finite number) := by
  cases loop <;> simp_all [BEq.beq, Datum.same, number?]

/-- Two data that are equal to the same integer are equal. -/
theorem beq_of_integer_beq {number : Int} {first second : Datum}
    (onFirst : (Datum.integer number == first) = true)
    (onSecond : (Datum.integer number == second) = true) : (first == second) = true := by
  cases first <;> cases second <;> simp_all [BEq.beq, same, number?]

/-- Two integers that are equal to the same datum are equal. -/
theorem eq_of_integer_beq {first second : Int} {loop : Datum}
    (onFirst : (Datum.integer first == loop) = true)
    (onSecond : (Datum.integer second == loop) = true) : first = second := by
  have same := (number?_of_integer_beq onFirst).symm.trans (number?_of_integer_beq onSecond)
  exact Rat.intCast_inj.mp (Number.Extended.finite.inj (Option.some.inj same))

end Datum

/-- A way to evaluate the trees of a loop for one of its quantities. -/
abbrev BoundEvaluation := LoopRecord → LoopQuantity → BinaryTree → Analysis Value

namespace LoopNest

variable {nest : LoopNest} {evaluate : BoundEvaluation}

/-- An entry is that of the first loop that the datum names. -/
theorem entry_eq_ok {loop : Datum} {entry : Int × LoopRecord} :
    nest.entry loop = .ok entry ↔
      loop.isKey = true ∧ nest.kernel.loops.find?
        (fun entry => Datum.integer entry.1 == loop) = some entry := by
  rw [LoopNest.entry, Datum.findEntry]
  by_cases serves : loop.isKey = true
  · rw [if_pos serves]
    cases nest.kernel.loops.find? (fun entry => Datum.integer entry.1 == loop) with
    | none => simp [serves]
    | some found => simp [serves]
  · rw [if_neg serves]
    simp [serves]

theorem record_eq_ok {loop : Datum} {record : LoopRecord} :
    nest.record loop = .ok record ↔ ∃ number, nest.entry loop = .ok (number, record) := by
  rw [LoopNest.record]
  cases nest.entry loop with
  | error fault => simp [Except.map]
  | ok entry =>
      obtain ⟨number, other⟩ := entry
      simp [Except.map]

theorem mem_loops_of_entry {loop : Datum} {number : Int} {record : LoopRecord}
    (named : nest.entry loop = .ok (number, record)) :
    (number, record) ∈ nest.kernel.loops ∧ (Datum.integer number == loop) = true := by
  obtain ⟨_, first⟩ := entry_eq_ok.mp named
  exact ⟨List.mem_of_find?_eq_some first, by simpa using List.find?_some first⟩

/-- Loops are told apart by their numbers. -/
theorem entry_unique {loop other : Datum} {number : Int} {record otherRecord : LoopRecord}
    (named : nest.entry loop = .ok (number, record))
    (otherNamed : nest.entry other = .ok (number, otherRecord)) : record = otherRecord := by
  have searches {loop : Datum} (same : (Datum.integer number == loop) = true) :
      (fun entry : Int × LoopRecord => Datum.integer entry.1 == loop) =
        fun entry => decide (entry.1 = number) := by
    funext entry
    rw [Bool.eq_iff_iff, decide_eq_true_iff]
    constructor
    · exact fun spelled => Datum.eq_of_integer_beq spelled same
    · rintro rfl
      exact same
  have first := (entry_eq_ok.mp named).2
  have second := (entry_eq_ok.mp otherNamed).2
  rw [searches (mem_loops_of_entry named).2] at first
  rw [searches (mem_loops_of_entry otherNamed).2, first] at second
  cases second
  rfl

/-- A quantity of a loop for which no value is kept. -/
def compute (nest : LoopNest) (evaluate : BoundEvaluation) (quantity : LoopQuantity)
    (loop : Datum) (record : LoopRecord) : Analysis Value :=
  match quantity with
  | .bound which => do
      let tree ← Analysis.ofExcept (boundTree record which)
      evaluate record (.bound which) tree
  | .iterationCount => do
      match record.knownCount with
      | .null =>
          let tree ← Analysis.ofExcept (nest.iterationTree loop)
          return nest.clamp (← evaluate record .iterationCount tree)
      | known => return .int (← Analysis.ofExcept (known.toInteger.mapError Fault.misuse))

def ask (nest : LoopNest) (evaluate : BoundEvaluation) (quantity : LoopQuantity)
    (loop : Datum) : Analysis Value := do
  let (number, record) ← Analysis.ofExcept (nest.entry loop)
  remember (Ledger.kept quantity) (Ledger.keep quantity) number
    (nest.compute evaluate quantity loop record)

theorem lowerBoundWithin_succ (nest : LoopNest) (budget : Nat) (loop : Datum) :
    nest.lowerBoundWithin (budget + 1) loop =
      nest.ask (nest.evaluateBound (nest.lowerBoundWithin budget)) (.bound .initial) loop := rfl

theorem lowerBound_eq (nest : LoopNest) (loop : Datum) :
    nest.lowerBound loop =
      nest.ask (nest.evaluateBound (nest.lowerBoundWithin nest.kernel.loops.length))
        (.bound .initial) loop := rfl

theorem upperBound_eq (nest : LoopNest) (loop : Datum) :
    nest.upperBound loop =
      nest.ask (nest.evaluateBound nest.lowerBound) (.bound .final) loop := rfl

theorem iterationCount_eq (nest : LoopNest) (loop : Datum) :
    nest.iterationCount loop =
      nest.ask (nest.evaluateBound nest.lowerBound) .iterationCount loop := rfl

/-- The tree that a quantity of a loop is computed from, unless it is known. -/
def treeOf (nest : LoopNest) (loop : Datum) (record : LoopRecord) :
    LoopQuantity → Except Fault BinaryTree
  | .bound which => boundTree record which
  | .iterationCount => nest.iterationTree loop

/-- What holds between two values of the tree of a quantity holds between what they lead to. -/
theorem related_compute_of_tree
    {related : (Result : Type) → Analysis Result → Analysis Result → Prop}
    (extensible : IsExtensible nest.resolver.emitter related) {other : BoundEvaluation}
    {record : LoopRecord} {quantity : LoopQuantity} {loop : Datum}
    (same : ∀ tree, nest.treeOf loop record quantity = .ok tree →
      related Value (evaluate record quantity tree) (other record quantity tree)) :
    related Value (nest.compute evaluate quantity loop record)
      (nest.compute other quantity loop record) := by
  cases quantity with
  | bound which =>
      cases built : boundTree record which with
      | error fault =>
          rw [compute, compute, built]
          exact extensible.fault fault
      | ok tree =>
          rw [compute, compute, built]
          exact same tree built
  | iterationCount =>
      simp only [compute]
      split
      · cases built : nest.iterationTree loop with
        | error fault => exact extensible.fault fault
        | ok tree =>
            rw [Analysis.ofExcept_ok, pure_bind, pure_bind]
            exact extensible.sequence (same tree built) (fun _ => extensible.value _)
      · exact extensible.sequence (extensible.ofExcept _) (fun _ => extensible.value _)

/-- What holds between two ways to evaluate trees holds between what they compute. -/
theorem related_compute
    {related : (Result : Type) → Analysis Result → Analysis Result → Prop}
    (extensible : IsExtensible nest.resolver.emitter related) {other : BoundEvaluation}
    {record : LoopRecord}
    (same : ∀ quantity tree,
      related Value (evaluate record quantity tree) (other record quantity tree))
    (quantity : LoopQuantity) (loop : Datum) :
    related Value (nest.compute evaluate quantity loop record)
      (nest.compute other quantity loop record) :=
  related_compute_of_tree extensible (fun tree _ => same quantity tree)

theorem keeps_compute {related : Ledger → Ledger → Prop} (passage : Analysis.IsPassage related)
    {record : LoopRecord}
    (evaluated : ∀ quantity tree, Analysis.Keeps related (evaluate record quantity tree))
    (quantity : LoopQuantity) (loop : Datum) :
    Analysis.Keeps related (nest.compute evaluate quantity loop record) :=
  @related_compute nest evaluate _ (Emitter.isExtensible_keeps passage _) evaluate record evaluated
    quantity loop

theorem ask_of_entry {loop : Datum} {number : Int} {record : LoopRecord}
    (named : nest.entry loop = .ok (number, record)) (quantity : LoopQuantity) :
    nest.ask evaluate quantity loop =
      remember (Ledger.kept quantity) (Ledger.keep quantity) number
        (nest.compute evaluate quantity loop record) := by
  rw [ask, named]
  rfl

/-- What is kept is given back. -/
theorem outcome_ask_kept {loop : Datum} {number : Int} {record : LoopRecord}
    (named : nest.entry loop = .ok (number, record)) {quantity : LoopQuantity} {ledger : Ledger}
    {value : Value} (kept : Register.find number (ledger.kept quantity) = some value) :
    (nest.ask evaluate quantity loop).outcome ledger = (.ok value, ledger) := by
  rw [ask_of_entry named, outcome_remember, kept]

/-- What is not kept is computed, and kept if there is a value. -/
theorem outcome_ask_missing {loop : Datum} {number : Int} {record : LoopRecord}
    (named : nest.entry loop = .ok (number, record)) {quantity : LoopQuantity} {ledger : Ledger}
    (missing : Register.find number (ledger.kept quantity) = none) :
    (nest.ask evaluate quantity loop).outcome ledger =
      match (nest.compute evaluate quantity loop record).outcome ledger with
      | (.ok value, after) => (.ok value, after.enter quantity number value)
      | (.error fault, after) => (.error fault, after) := by
  rw [ask_of_entry named, outcome_remember, missing]
  rfl

theorem ask_of_error {loop : Datum} {fault : Fault} (unnamed : nest.entry loop = .error fault)
    (quantity : LoopQuantity) : nest.ask evaluate quantity loop = Analysis.fail fault := by
  rw [ask, unnamed]
  rfl

/-- The rest of an evaluation, unless its loop is in evaluation already. -/
def unlessActive (record : LoopRecord) (quantity : LoopQuantity) (rest : Analysis Value) :
    Analysis Value := do
  if (← get).active.contains record.id then
    Analysis.fail (obstructed record (.dependsOnItself quantity))
  else rest

theorem evaluateBound_eq (nest : LoopNest) (lowerBound : Datum → Analysis Value)
    (record : LoopRecord) (quantity : LoopQuantity) (tree : BinaryTree) :
    nest.evaluateBound lowerBound record quantity tree =
      unlessActive record quantity
        (ExceptT.adapt (asObstacle record quantity)
          (whileActive record.id ((nest.boundContext lowerBound record).ofBinary tree))) := rfl

theorem outcome_unlessActive (record : LoopRecord) (quantity : LoopQuantity)
    (rest : Analysis Value) (ledger : Ledger) :
    (unlessActive record quantity rest).outcome ledger =
      if ledger.active.contains record.id then
        (.error (obstructed record (.dependsOnItself quantity)), ledger)
      else rest.outcome ledger := by
  rw [unlessActive, Analysis.outcome_bind]
  change (ite (ledger.active.contains record.id = true) _ _ : Analysis Value).outcome ledger = _
  split <;> rfl

/-- The loop is marked as active during the evaluation only. -/
theorem outcome_whileActive {loop : Int} {evaluation : Analysis Value} {ledger after : Ledger}
    {outcome : Except Fault Value}
    (evaluated : evaluation.outcome { ledger with active := loop :: ledger.active } =
      (outcome, after)) :
    (whileActive loop evaluation).outcome ledger =
      (outcome, { after with active := after.active.erase loop }) := by
  have lifted : Analysis.outcome (ExceptT.lift evaluation.run : Analysis (Except Fault Value))
      { ledger with active := loop :: ledger.active } = (.ok outcome, after) :=
    congrArg (fun pair => (Except.ok pair.1, pair.2)) evaluated
  rw [whileActive, Analysis.outcome_bind]
  change Analysis.outcome ((ExceptT.lift evaluation.run : Analysis (Except Fault Value)) >>= _)
    { ledger with active := loop :: ledger.active } = _
  rw [Analysis.outcome_bind, lifted]
  exact Analysis.outcome_ofExcept outcome _

/-- Multiplies counts from `current` outward, with a limit to the number of loops. -/
def nestedBy (nest : LoopNest) (overrun : Analysis Value) (count : Datum → Analysis Value)
    (loop : Datum) : Nat → List Datum → Datum → Value → Analysis Value
  | 0, _, _, _ => overrun
  | steps + 1, seen, current, total =>
      if isOutsideLoops current then return total
      else if seen.contains current then
        Analysis.fail (incomputable loop.describe (.ok .cyclicNest))
      else do
        let counted ← count current
        let total ←
          nest.resolver.emitter.combine .mul (total.promote .wide) (counted.promote .wide)
        let record ← Analysis.ofExcept (nest.record current)
        nest.nestedBy overrun count loop steps (current :: seen) (.integer record.parent) total

theorem nestedFrom_eq (nest : LoopNest) (loop : Datum) (steps : Nat) (seen : List Datum)
    (current : Datum) (total : Value) :
    nest.nestedFrom loop steps seen current total =
      nest.nestedBy (Analysis.fail Misuse.unfinished) nest.iterationCount loop steps seen current
        total := by
  induction steps generalizing seen current total with
  | zero => rfl
  | succ steps ih =>
      rw [nestedFrom, nestedBy]
      simp only [ih]

theorem related_nestedBy
    {related : (Result : Type) → Analysis Result → Analysis Result → Prop}
    (extensible : IsExtensible nest.resolver.emitter related)
    {overrun otherOverrun : Analysis Value} (cut : related Value overrun otherOverrun)
    {count other : Datum → Analysis Value}
    (counts : ∀ loop, related Value (count loop) (other loop)) (loop : Datum) (steps : Nat)
    (seen : List Datum) (current : Datum) (total : Value) :
    related Value (nest.nestedBy overrun count loop steps seen current total)
      (nest.nestedBy otherOverrun other loop steps seen current total) := by
  induction steps generalizing seen current total with
  | zero => exact cut
  | succ steps ih =>
      rw [nestedBy, nestedBy]
      split
      · exact extensible.value total
      · split
        · exact extensible.fault _
        · refine extensible.sequence (counts current) ?_
          intro counted
          refine extensible.sequence (extensible.combine _ _ _) ?_
          intro total
          refine extensible.sequence (extensible.ofExcept _) ?_
          intro record
          exact ih _ _ _

/-- All counts by ascending number, missing for incomputable loops. -/
def countsBy (nest : LoopNest) (count : Datum → Analysis Value) :
    Analysis (List (Int × Option Value)) :=
  (Register.sort (fun first second => first ≤ second) (nest.kernel.loops.map Prod.fst)).mapM
    (fun loop => do
      return (loop, ← tryCatch (do return some (← count (.integer loop))) (fun fault =>
        if isIncomputable fault then pure none else throw fault)))

theorem related_countsBy
    {related : (Result : Type) → Analysis Result → Analysis Result → Prop}
    (extensible : IsExtensible nest.resolver.emitter related)
    (caught : ∀ {first second : Analysis (Option Value)}
      {handler : Fault → Analysis (Option Value)}, related _ first second →
        (∀ fault, related _ (handler fault) (handler fault)) →
          related _ (tryCatch first handler) (tryCatch second handler))
    {count other : Datum → Analysis Value}
    (counts : ∀ loop, related Value (count loop) (other loop)) :
    related _ (nest.countsBy count) (nest.countsBy other) := by
  unfold countsBy
  induction Register.sort (fun first second => decide (first ≤ second))
      (nest.kernel.loops.map Prod.fst) with
  | nil => exact extensible.value _
  | cons loop rest ih =>
      have single : related (Option Value) (do return some (← count (.integer loop)))
          (do return some (← other (.integer loop))) :=
        extensible.sequence (counts _) (fun _ => extensible.value _)
      rw [List.mapM_cons, List.mapM_cons]
      refine extensible.sequence (extensible.sequence (caught single ?_) ?_) ?_
      · intro fault
        split
        · exact extensible.value none
        · exact extensible.fault fault
      · intro counted
        exact extensible.value _
      · intro entry
        exact extensible.sequence ih (fun _ => extensible.value _)

theorem iterationCounts_eq (nest : LoopNest) :
    nest.iterationCounts = nest.countsBy nest.iterationCount := rfl

theorem keeps_iterationCounts {related : Ledger → Ledger → Prop}
    (passage : Analysis.IsPassage related)
    (counts : ∀ loop, Analysis.Keeps related (nest.iterationCount loop)) :
    Analysis.Keeps related nest.iterationCounts :=
  @related_countsBy nest _ (Emitter.isExtensible_keeps passage _)
    (fun kept handled => kept.tryCatch passage handled) nest.iterationCount nest.iterationCount
    counts

end LoopNest

/-- What a single value is asked for. -/
inductive LoopCall
  | lowerBound (loop : Datum)
  | upperBound (loop : Datum)
  | iterationCount (loop : Datum)
  | nestedIterationCount (loop : Datum)

def LoopCall.run (nest : LoopNest) : LoopCall → Analysis Value
  | .lowerBound loop => nest.lowerBound loop
  | .upperBound loop => nest.upperBound loop
  | .iterationCount loop => nest.iterationCount loop
  | .nestedIterationCount loop => nest.nestedIterationCount loop

/-- The ledgers that calls lead to, failing ones included. -/
inductive LoopNest.Reachable (nest : LoopNest) : Ledger → Prop
  | fresh (requests : List Request) : Reachable nest { requests := requests }
  | call {ledger : Ledger} (call : LoopCall) (before : Reachable nest ledger) :
      Reachable nest ((call.run nest).outcome ledger).2
  | counts {ledger : Ledger} (before : Reachable nest ledger) :
      Reachable nest (nest.iterationCounts.outcome ledger).2

end KernelFootprint
