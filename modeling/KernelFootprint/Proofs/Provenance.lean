import KernelFootprint.Proofs.History

/-!
# Where kept values come from

What a ledger keeps it keeps for good, whatever is asked for later on and whether that fails
or not. Nothing is kept twice, because a loop in evaluation is not evaluated again. Hence
every kept value was computed at some time, and the lower bounds that it was computed with
are kept as well.
-/

namespace KernelFootprint

open Analysis

namespace LoopNest

variable {nest : LoopNest} {ledger before after : Ledger} {quantity : LoopQuantity}
  {loop : Datum} {number : Int} {record : LoopRecord} {value : Value} {budget : Nat}

/-- A value was computed for a loop, with lower bounds that a ledger keeps. -/
def HasOrigin (nest : LoopNest) (ledger : Ledger) (quantity : LoopQuantity) (number : Int)
    (value : Value) : Prop :=
  ∃ loop record budget start last, nest.entry loop = .ok (number, record) ∧
    (nest.compute (nest.evaluateBound (nest.lowerBoundWithin budget)) quantity loop
      record).outcome start = (.ok value, last) ∧
    Register.IsWithin last.lowerBounds ledger.lowerBounds

theorem HasOrigin.mono (origin : nest.HasOrigin before quantity number value)
    (within : Register.IsWithin before.lowerBounds after.lowerBounds) :
    nest.HasOrigin after quantity number value := by
  obtain ⟨loop, record, budget, start, last, named, computed, known⟩ := origin
  exact ⟨loop, record, budget, start, last, named, computed, known.trans within⟩

/-- All kept values have an origin. -/
def IsTraceable (nest : LoopNest) (ledger : Ledger) : Prop :=
  ∀ quantity number value, Register.find number (ledger.kept quantity) = some value →
    nest.HasOrigin ledger quantity number value

theorem IsTraceable.of_same (traceable : nest.IsTraceable before)
    (same : ∀ quantity, after.kept quantity = before.kept quantity) : nest.IsTraceable after := by
  intro quantity number value found
  rw [same] at found
  exact (traceable quantity number value found).mono (within_of_same same (.bound .initial))

/-- What becomes of a ledger: the same loops are active, all kept values stay, loops that are
active get no lower bound, and origins are not lost. -/
structure Advances (nest : LoopNest) (before after : Ledger) : Prop where
  active : after.active = before.active
  within : Within before after
  guarded : ∀ loop number record, nest.entry loop = .ok (number, record) →
    record.id ∈ before.active →
      Register.find number after.lowerBounds = Register.find number before.lowerBounds
  traceable : nest.IsTraceable before → nest.IsTraceable after

theorem isPassage_advances (nest : LoopNest) : IsPassage nest.Advances where
  refl ledger := ⟨rfl, within_of_same (fun _ => rfl), fun _ _ _ _ _ => rfl, id⟩
  trans first second :=
    { active := second.active.trans first.active
      within := first.within.trans second.within
      guarded := by
        intro loop number record named active
        rw [second.guarded loop number record named (first.active ▸ active),
          first.guarded loop number record named active]
      traceable := fun traceable => second.traceable (first.traceable traceable) }
  requests ledger requests :=
    { active := rfl
      within := within_of_same (kept_requests ledger requests)
      guarded := fun _ _ _ _ _ => rfl
      traceable := fun traceable => traceable.of_same (kept_requests ledger requests) }

/-- The evaluation of a tree with its loop marked as active. -/
def evaluateMarked (nest : LoopNest) (lowerBound : Datum → Analysis Value) (record : LoopRecord)
    (tree : BinaryTree) (ledger : Ledger) : Except Fault Value × Ledger :=
  ((nest.boundContext lowerBound record).ofBinary tree).outcome
    { ledger with active := record.id :: ledger.active }

/-- A bound is evaluated with its loop marked, unless the loop is marked already. -/
theorem outcome_evaluateBound (lowerBound : Datum → Analysis Value) (record : LoopRecord)
    (quantity : LoopQuantity) (tree : BinaryTree) (ledger : Ledger) :
    (nest.evaluateBound lowerBound record quantity tree).outcome ledger =
      if ledger.active.contains record.id then
        (.error (obstructed record (.dependsOnItself quantity)), ledger)
      else
        ((nest.evaluateMarked lowerBound record tree ledger).1.mapError
            (asObstacle record quantity),
          { (nest.evaluateMarked lowerBound record tree ledger).2 with
            active := (nest.evaluateMarked lowerBound record tree ledger).2.active.erase
              record.id }) := by
  have marked : (whileActive record.id
      ((nest.boundContext lowerBound record).ofBinary tree)).outcome ledger =
        ((nest.evaluateMarked lowerBound record tree ledger).1,
          { (nest.evaluateMarked lowerBound record tree ledger).2 with
            active := (nest.evaluateMarked lowerBound record tree ledger).2.active.erase
              record.id }) := outcome_whileActive rfl
  rw [evaluateBound_eq, outcome_unlessActive, outcome_adapt, marked]

variable {lowerBound : Datum → Analysis Value}

theorem advances_evaluateMarked (bounds : ∀ loop, Keeps nest.Advances (lowerBound loop))
    (record : LoopRecord) (tree : BinaryTree) (ledger : Ledger) :
    nest.Advances { ledger with active := record.id :: ledger.active }
      (nest.evaluateMarked lowerBound record tree ledger).2 :=
  keeps_boundContext nest.isPassage_advances bounds record tree _

theorem keeps_advances_evaluateBound (bounds : ∀ loop, Keeps nest.Advances (lowerBound loop))
    (record : LoopRecord) (quantity : LoopQuantity) (tree : BinaryTree) :
    Keeps nest.Advances (nest.evaluateBound lowerBound record quantity tree) := by
  intro ledger
  have onward := advances_evaluateMarked bounds record tree ledger
  rw [outcome_evaluateBound]
  generalize nest.evaluateMarked lowerBound record tree ledger = marked at onward ⊢
  split
  · exact nest.isPassage_advances.refl ledger
  · have unmarked := kept_active marked.2 (marked.2.active.erase record.id)
    refine ⟨?_, ?_, ?_, ?_⟩
    · change marked.2.active.erase record.id = ledger.active
      rw [onward.active, List.erase_cons_head]
    · intro quantity
      rw [unmarked, ← kept_active ledger (record.id :: ledger.active)]
      exact onward.within quantity
    · intro loop number other named active
      exact onward.guarded loop number other named (List.mem_cons_of_mem _ active)
    · intro traceable
      exact (onward.traceable (traceable.of_same (kept_active ledger _))).of_same unmarked

/-- A loop gets no lower bound while it is in evaluation. -/
theorem find_lowerBounds_evaluateBound (bounds : ∀ loop, Keeps nest.Advances (lowerBound loop))
    (named : nest.entry loop = .ok (number, record)) (quantity : LoopQuantity)
    (tree : BinaryTree) :
    Keeps (fun before after =>
        Register.find number after.lowerBounds = Register.find number before.lowerBounds)
      (nest.evaluateBound lowerBound record quantity tree) := by
  intro ledger
  rw [outcome_evaluateBound]
  split
  · rfl
  · exact (advances_evaluateMarked bounds record tree ledger).guarded loop number record named
      (List.mem_cons_self ..)

/-- Evaluating bounds keeps lower bounds only. -/
theorem isApart_kept (different : quantity ≠ .bound .initial) :
    IsApart (fun before after => after.kept quantity = before.kept quantity) := by
  rcases quantity with ⟨_ | _⟩ | _
  · exact absurd rfl different
  all_goals
    exact
      { refl := fun _ => rfl
        trans := fun first second => second.trans first
        requests := fun _ _ => rfl
        lowerBounds := fun _ _ => rfl
        active := fun _ _ => rfl }

/-- Computing a quantity of a loop does not keep it. -/
theorem find_kept_compute (bounds : ∀ loop, Keeps nest.Advances (nest.lowerBoundWithin budget loop))
    (named : nest.entry loop = .ok (number, record)) (quantity : LoopQuantity) (ledger : Ledger) :
    Register.find number (((nest.compute (nest.evaluateBound (nest.lowerBoundWithin budget))
        quantity loop record).outcome ledger).2.kept quantity) =
      Register.find number (ledger.kept quantity) := by
  by_cases isLower : quantity = .bound .initial
  · subst isLower
    refine keeps_compute ?_ (find_lowerBounds_evaluateBound bounds named) _ loop ledger
    exact ⟨fun _ => rfl, fun first second => second.trans first, fun _ _ => rfl⟩
  · have apart := isApart_kept isLower
    exact congrArg (Register.find number) (keeps_compute apart.toIsPassage
      (keeps_evaluateBound apart (keeps_lowerBoundWithin apart budget) record) quantity loop ledger)

/-- A loop that is active has no bound computed. -/
theorem not_active_of_compute {evaluate : Datum → Analysis Value} {which : Bound}
    (computed : (nest.compute (nest.evaluateBound evaluate) (.bound which) loop record).outcome
      ledger = (.ok value, after)) : record.id ∉ ledger.active := by
  intro active
  obtain ⟨tree, middle, built, evaluated⟩ := outcome_bind_eq_ok.mp computed
  rw [outcome_ofExcept] at built
  cases (Prod.mk.inj built).2
  rw [outcome_evaluateBound, if_pos (by simpa using active)] at evaluated
  cases evaluated

theorem keeps_advances_compute
    (bounds : ∀ loop, Keeps nest.Advances (nest.lowerBoundWithin budget loop))
    (record : LoopRecord) (quantity : LoopQuantity) (loop : Datum) :
    Keeps nest.Advances
      (nest.compute (nest.evaluateBound (nest.lowerBoundWithin budget)) quantity loop record) :=
  keeps_compute nest.isPassage_advances (keeps_advances_evaluateBound bounds record) quantity loop

/-- A computed value can be kept. -/
theorem advances_enter (bounds : ∀ loop, Keeps nest.Advances (nest.lowerBoundWithin budget loop))
    (named : nest.entry loop = .ok (number, record))
    (missing : Register.find number (ledger.kept quantity) = none)
    (computed : (nest.compute (nest.evaluateBound (nest.lowerBoundWithin budget)) quantity loop
      record).outcome ledger = (.ok value, after)) :
    nest.Advances ledger (after.enter quantity number value) := by
  have onward : nest.Advances ledger after := by
    have kept := keeps_advances_compute bounds record quantity loop ledger
    rwa [computed] at kept
  have stillMissing : Register.find number (after.kept quantity) = none := by
    have same := find_kept_compute bounds named quantity ledger
    rwa [computed, missing] at same
  have entered : Within after (after.enter quantity number value) := by
    refine within_enter (fun other found => ?_)
    rw [stillMissing] at found
    cases found
  refine ⟨?_, onward.within.trans entered, ?_, ?_⟩
  · rw [Ledger.active_enter, onward.active]
  · intro other otherNumber otherRecord otherNamed active
    rw [← onward.guarded other otherNumber otherRecord otherNamed active]
    by_cases isLower : quantity = .bound .initial
    · subst isLower
      refine Register.find_insert_of_ne ?_ _ _
      rintro rfl
      cases entry_unique named otherNamed
      exact not_active_of_compute computed active
    · exact congrArg (Register.find otherNumber) (Ledger.kept_enter_of_ne (Ne.symm isLower))
  · intro traceable asked key entry found
    have lowers := entered (.bound .initial)
    rcases eq_or_find_of_find_enter found with ⟨rfl, rfl, rfl⟩ | before
    · exact ⟨loop, record, budget, ledger, after, named, computed, lowers⟩
    · exact (onward.traceable traceable asked key entry before).mono lowers

theorem keeps_advances_ask
    (bounds : ∀ loop, Keeps nest.Advances (nest.lowerBoundWithin budget loop))
    (quantity : LoopQuantity) (loop : Datum) :
    Keeps nest.Advances
      (nest.ask (nest.evaluateBound (nest.lowerBoundWithin budget)) quantity loop) := by
  intro ledger
  rcases named : nest.entry loop with fault | ⟨number, record⟩
  · rw [ask_of_error named]
    exact nest.isPassage_advances.refl ledger
  cases kept : Register.find number (ledger.kept quantity) with
  | some value =>
      rw [outcome_ask_kept named kept]
      exact nest.isPassage_advances.refl ledger
  | none =>
      have onward := keeps_advances_compute bounds record quantity loop ledger
      rw [outcome_ask_missing named kept]
      rcases computed : (nest.compute (nest.evaluateBound (nest.lowerBoundWithin budget))
          quantity loop record).outcome ledger with ⟨fault | value, after⟩
      · rwa [computed] at onward
      · exact advances_enter bounds named kept computed

theorem keeps_advances_lowerBoundWithin (budget : Nat) (loop : Datum) :
    Keeps nest.Advances (nest.lowerBoundWithin budget loop) := by
  induction budget generalizing loop with
  | zero => exact nest.isPassage_advances.refl
  | succ budget ih =>
      rw [lowerBoundWithin_succ]
      exact keeps_advances_ask ih _ loop

/-- Calls keep what is kept, whether they fail or not. -/
theorem keeps_advances_call (call : LoopCall) : Keeps nest.Advances (call.run nest) := by
  have asked (budget : Nat) (quantity : LoopQuantity) (loop : Datum) :
      Keeps nest.Advances
        (nest.ask (nest.evaluateBound (nest.lowerBoundWithin budget)) quantity loop) :=
    keeps_advances_ask (keeps_advances_lowerBoundWithin budget) quantity loop
  cases call with
  | lowerBound loop => exact asked nest.kernel.loops.length (.bound .initial) loop
  | upperBound loop => exact asked (nest.kernel.loops.length + 1) (.bound .final) loop
  | iterationCount loop => exact asked (nest.kernel.loops.length + 1) .iterationCount loop
  | nestedIterationCount loop =>
      have extensible := Emitter.isExtensible_keeps nest.isPassage_advances nest.resolver.emitter
      rw [LoopCall.run, nestedIterationCount, nestedFrom_eq]
      exact @related_nestedBy nest _ extensible (Analysis.fail Misuse.unfinished)
        (Analysis.fail Misuse.unfinished) (keeps_fail nest.isPassage_advances _)
        nest.iterationCount nest.iterationCount
        (asked (nest.kernel.loops.length + 1) .iterationCount) loop _ [] loop 1

theorem keeps_advances_iterationCounts : Keeps nest.Advances nest.iterationCounts :=
  keeps_iterationCounts nest.isPassage_advances
    (fun loop => keeps_advances_call (.iterationCount loop))

theorem Reachable.isTraceable (reachable : nest.Reachable ledger) : nest.IsTraceable ledger := by
  induction reachable with
  | fresh requests =>
      intro quantity number value found
      rw [kept_fresh] at found
      cases found
  | call call before traceable => exact (keeps_advances_call call _).traceable traceable
  | counts before traceable => exact (keeps_advances_iterationCounts _).traceable traceable

end LoopNest

/-- The ledgers after a call that has returned a value, with any calls after it. -/
inductive LoopNest.HasReturned (nest : LoopNest) (call : LoopCall) (value : Value) :
    Ledger → Prop
  | now {ledger after : Ledger} (before : nest.Reachable ledger)
      (returned : (call.run nest).outcome ledger = (.ok value, after)) :
      HasReturned nest call value after
  | call {ledger : Ledger} (other : LoopCall) (before : HasReturned nest call value ledger) :
      HasReturned nest call value ((other.run nest).outcome ledger).2
  | counts {ledger : Ledger} (before : HasReturned nest call value ledger) :
      HasReturned nest call value (nest.iterationCounts.outcome ledger).2

namespace LoopNest

variable {nest : LoopNest} {ledger after : Ledger} {quantity : LoopQuantity} {loop : Datum}
  {number : Int} {record : LoopRecord} {value : Value}

theorem HasReturned.reachable {call : LoopCall} (returned : nest.HasReturned call value ledger) :
    nest.Reachable ledger := by
  induction returned with
  | @now ledger after before returned =>
      have reached : nest.Reachable ((call.run nest).outcome ledger).2 := .call call before
      rwa [returned] at reached
  | call other _ ih => exact .call other ih
  | counts _ ih => exact .counts ih

/-- What has been asked for is kept. -/
theorem find_of_ask {evaluate : BoundEvaluation} (named : nest.entry loop = .ok (number, record))
    (returned : (nest.ask evaluate quantity loop).outcome ledger = (.ok value, after)) :
    Register.find number (after.kept quantity) = some value := by
  rw [ask_of_entry named] at returned
  exact find_of_remember (Ledger.kept_keep quantity) returned

/-- A value that a call has returned is kept from then on. -/
theorem HasReturned.find {call : LoopCall} {evaluate : BoundEvaluation}
    (returned : nest.HasReturned call value ledger)
    (named : nest.entry loop = .ok (number, record))
    (asks : call.run nest = nest.ask evaluate quantity loop) :
    Register.find number (ledger.kept quantity) = some value := by
  induction returned with
  | now _ returned =>
      rw [asks] at returned
      exact find_of_ask named returned
  | call other _ ih => exact (keeps_advances_call other _).within quantity number value ih
  | counts _ ih => exact (keeps_advances_iterationCounts _).within quantity number value ih

end LoopNest

end KernelFootprint
