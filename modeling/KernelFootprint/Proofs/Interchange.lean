import KernelFootprint.Proofs.Quantity
import KernelFootprint.Proofs.Steady

/-!
# Analyses that can be interchanged

A request is added to the requests in the ledger and changes nothing else, and a
forgetful emitter answers it in the same way whatever was requested before. Two analyses
that differ only in the order of their requests therefore return the same value or
none at all. Which fault they come to is left open, as it can depend on the order. In
particular combining values can be put off until further values are known.
-/

namespace KernelFootprint

/-- The ledger with its requests forgotten. -/
def Ledger.bare (ledger : Ledger) : Ledger := { ledger with requests := [] }

namespace Analysis

variable {First Second Result : Type}

/-- Two outcomes with the same value, and the same in the ledger up to requests, or two
faults of any kind. -/
inductive ReturnsAlike : Except Fault Result × Ledger → Except Fault Result × Ledger → Prop
  | value {value : Result} {after otherAfter : Ledger} (same : after.bare = otherAfter.bare) :
      ReturnsAlike (.ok value, after) (.ok value, otherAfter)
  | fault {fault otherFault : Fault} {after otherAfter : Ledger} :
      ReturnsAlike (.error fault, after) (.error otherFault, otherAfter)

variable {outcome other third : Except Fault Result × Ledger}

theorem ReturnsAlike.symm (returned : ReturnsAlike outcome other) :
    ReturnsAlike other outcome := by
  cases returned with
  | value same => exact .value same.symm
  | fault => exact .fault

theorem ReturnsAlike.trans (returned : ReturnsAlike outcome other)
    (further : ReturnsAlike other third) : ReturnsAlike outcome third := by
  cases returned with
  | value same =>
      cases further with
      | value onward => exact .value (same.trans onward)
  | fault =>
      cases further with
      | fault => exact .fault

theorem ReturnsAlike.eq_ok (returned : ReturnsAlike outcome other) (value : Result) :
    outcome.1 = .ok value ↔ other.1 = .ok value := by
  cases returned with
  | value same => exact Iff.rfl
  | fault => exact ⟨nofun, nofun⟩

/-- Two analyses that return alike in ledgers which are the same up to requests. -/
def Interchangeable (Result : Type) (first second : Analysis Result) : Prop :=
  ∀ ledger other, ledger.bare = other.bare →
    ReturnsAlike (first.outcome ledger) (second.outcome other)

theorem Interchangeable.symm {first second : Analysis Result}
    (same : Interchangeable Result first second) : Interchangeable Result second first :=
  fun ledger other alike => (same other ledger alike.symm).symm

theorem Interchangeable.trans {first second third : Analysis Result}
    (onFirst : Interchangeable Result first second)
    (onSecond : Interchangeable Result second third) :
    Interchangeable Result first third :=
  fun ledger other alike => (onFirst ledger other alike).trans (onSecond other other rfl)

/-- An analysis that can be interchanged with another one does not depend on requests. -/
theorem Interchangeable.left {first second : Analysis Result}
    (same : Interchangeable Result first second) : Interchangeable Result first first :=
  same.trans same.symm

theorem Interchangeable.right {first second : Analysis Result}
    (same : Interchangeable Result first second) : Interchangeable Result second second :=
  same.symm.trans same

/-- Analyses that succeed in the same way can be interchanged, whatever their faults are. -/
theorem Interchangeable.of_succeeds {first second : Analysis Result}
    (same : Interchangeable Result second second)
    (succeeds : ∀ {ledger value after}, first.outcome ledger = (.ok value, after) ↔
      second.outcome ledger = (.ok value, after)) :
    Interchangeable Result first second := by
  intro ledger other alike
  have returned := same ledger other alike
  rcases found : first.outcome ledger with ⟨fault | value, after⟩
  · rcases again : second.outcome ledger with ⟨otherFault | value, last⟩
    · rw [again] at returned
      exact ReturnsAlike.fault.trans returned
    · rw [succeeds.mpr again] at found
      cases found
  · rw [succeeds.mp found] at returned
    exact returned

theorem Interchangeable.bind {first other : Analysis First}
    {next otherNext : First → Analysis Second} (onFirst : Interchangeable First first other)
    (onNext : ∀ value, Interchangeable Second (next value) (otherNext value)) :
    Interchangeable Second (first >>= next) (other >>= otherNext) := by
  intro ledger otherLedger alike
  have returned := onFirst ledger otherLedger alike
  rw [outcome_bind, outcome_bind]
  generalize first.outcome ledger = outcome, other.outcome otherLedger = otherOutcome
    at returned ⊢
  cases returned with
  | value same => exact onNext _ _ _ same
  | fault => exact .fault

/-- What fails in the end fails, whatever comes before. -/
theorem interchangeable_fail_of_bind {first : Analysis First} {next : First → Analysis Second}
    {fault : Fault} (fails : ∀ value, Interchangeable Second (next value) (fail fault)) :
    Interchangeable Second (first >>= next) (fail fault) := by
  intro ledger other _
  rw [outcome_bind]
  rcases first.outcome ledger with ⟨otherFault | value, middle⟩
  · exact .fault
  · exact (fails value middle middle rfl).trans .fault

/-- Whether two ledgers are the same up to requests. -/
def SameBare (before after : Ledger) : Prop := after.bare = before.bare

theorem isPassage_sameBare : IsPassage SameBare where
  refl _ := rfl
  trans onFirst onSecond := onSecond.trans onFirst
  requests _ _ := rfl

/-- An analysis that comes to the same in all ledgers and changes nothing but requests. -/
structure IsPassive (analysis : Analysis Result) : Prop where
  steady : analysis.IsSteady
  unmoved : Keeps SameBare analysis

theorem isExtensible_passive {emitter : Emitter} (forgetful : emitter.IsForgetful) :
    IsExtensible emitter (fun _ analysis _ => IsPassive analysis) where
  value value :=
    ⟨(isExtensible_steady_of forgetful).value value, keeps_pure isPassage_sameBare value⟩
  fault fault :=
    ⟨(isExtensible_steady_of forgetful).fault fault, keeps_fail isPassage_sameBare fault⟩
  request request :=
    ⟨(isExtensible_steady_of forgetful).request request,
      Emitter.keeps_emit isPassage_sameBare emitter request⟩
  sequence onFirst onNext :=
    ⟨onFirst.steady.bind (fun value => (onNext value).steady),
      onFirst.unmoved.bind isPassage_sameBare (fun value => (onNext value).unmoved)⟩

/-- What a passive analysis comes to once, it comes to again. -/
theorem IsPassive.again {analysis : Analysis Result} (passive : analysis.IsPassive)
    {outcome : Except Fault Result} {ledger after : Ledger}
    (found : analysis.outcome ledger = (outcome, after)) (other : Ledger) :
    ∃ last, analysis.outcome other = (outcome, last) ∧ last.bare = other.bare := by
  have same := passive.steady other ledger
  have unmoved := passive.unmoved other
  rw [found] at same
  generalize analysis.outcome other = again at same unmoved ⊢
  obtain ⟨_, last⟩ := again
  cases same
  exact ⟨last, rfl, unmoved⟩

theorem IsPassive.interchangeable {analysis : Analysis Result} (passive : analysis.IsPassive) :
    Interchangeable Result analysis analysis := by
  intro ledger other alike
  have unmoved := passive.unmoved ledger
  rcases found : analysis.outcome ledger with ⟨fault | value, after⟩
  · obtain ⟨last, again, _⟩ := passive.again found other
    rw [again]
    exact .fault
  · obtain ⟨last, again, same⟩ := passive.again found other
    rw [found] at unmoved
    rw [again]
    exact .value (unmoved.trans (alike.trans same.symm))

theorem interchangeable_pure (value : Result) :
    Interchangeable Result (pure value) (pure value) := fun _ _ alike => .value alike

theorem interchangeable_fail (fault otherFault : Fault) :
    Interchangeable Result (fail fault) (fail otherFault) := fun _ _ _ => .fault

theorem isExtensible_interchangeable {emitter : Emitter} (forgetful : emitter.IsForgetful) :
    IsExtensible emitter Interchangeable where
  value := interchangeable_pure
  fault fault := interchangeable_fail fault fault
  request request := ((isExtensible_passive forgetful).request request).interchangeable
  sequence := Interchangeable.bind

/-- A passive analysis can be put off. -/
theorem IsPassive.swap {first : Analysis First} {second : Analysis Second}
    {next : First → Second → Analysis Result} (passive : first.IsPassive)
    (onSecond : Interchangeable Second second second)
    (onNext : ∀ value other, Interchangeable Result (next value other) (next value other)) :
    Interchangeable Result (first >>= fun value => second >>= fun other => next value other)
      (second >>= fun other => first >>= fun value => next value other) := by
  intro ledger otherLedger alike
  have unmoved := passive.unmoved ledger
  rw [outcome_bind, outcome_bind]
  rcases found : first.outcome ledger with ⟨fault | value, middle⟩
  · rcases second.outcome otherLedger with ⟨otherFault | other, after⟩
    · exact .fault
    · obtain ⟨last, again, _⟩ := passive.again found after
      simp only [outcome_bind, again]
      exact .fault
  · rw [found] at unmoved
    have returned := onSecond middle otherLedger (unmoved.trans alike)
    simp only [outcome_bind]
    generalize second.outcome middle = outcome, second.outcome otherLedger = otherOutcome
      at returned ⊢
    cases returned with
    | fault => exact .fault
    | @value other after otherAfter same =>
        obtain ⟨last, again, stayed⟩ := passive.again found otherAfter
        simp only [again]
        exact onNext value other after last (same.trans stayed.symm)

end Analysis

open Analysis

namespace LoopNest

variable {first second : Analysis Value}

theorem interchangeable_unlessActive (same : Interchangeable Value first second)
    (record : LoopRecord) (quantity : LoopQuantity) :
    Interchangeable Value (unlessActive record quantity first)
      (unlessActive record quantity second) := by
  intro ledger other alike
  have marked := congrArg Ledger.active alike
  change ledger.active = other.active at marked
  rw [outcome_unlessActive, outcome_unlessActive, marked]
  split
  · exact .fault
  · exact same ledger other alike

theorem interchangeable_whileActive (same : Interchangeable Value first second) (loop : Int) :
    Interchangeable Value (whileActive loop first) (whileActive loop second) := by
  intro ledger other alike
  have returned := same { ledger with active := loop :: ledger.active }
    { other with active := loop :: other.active }
    (congrArg (fun rest : Ledger => { rest with active := loop :: rest.active }) alike)
  rcases found : first.outcome { ledger with active := loop :: ledger.active } with
    ⟨outcome, after⟩
  rcases otherFound : second.outcome { other with active := loop :: other.active } with
    ⟨otherOutcome, otherAfter⟩
  rw [found, otherFound] at returned
  rw [outcome_whileActive found, outcome_whileActive otherFound]
  cases returned with
  | fault => exact .fault
  | value same =>
      exact .value
        (congrArg (fun rest : Ledger => { rest with active := rest.active.erase loop }) same)

theorem interchangeable_adapt (same : Interchangeable Value first second)
    (change otherChange : Fault → Fault) :
    Interchangeable Value (ExceptT.adapt change first) (ExceptT.adapt otherChange second) := by
  intro ledger other alike
  have returned := same ledger other alike
  rw [outcome_adapt, outcome_adapt]
  generalize first.outcome ledger = outcome, second.outcome other = otherOutcome at returned ⊢
  cases returned with
  | fault => exact .fault
  | value same => exact .value same

theorem kept_of_bare_eq {ledger other : Ledger} (alike : ledger.bare = other.bare)
    (quantity : LoopQuantity) : ledger.kept quantity = other.kept quantity := by
  have same := congrArg (Ledger.kept quantity) alike
  rcases quantity with ⟨_ | _⟩ | _ <;> exact same

theorem bare_enter {ledger other : Ledger} (alike : ledger.bare = other.bare)
    (quantity : LoopQuantity) (number : Int) (value : Value) :
    (ledger.enter quantity number value).bare = (other.enter quantity number value).bare := by
  have same := congrArg (Ledger.enter quantity number value) alike
  rcases quantity with ⟨_ | _⟩ | _ <;> exact same

theorem interchangeable_remember (same : Interchangeable Value first second)
    (quantity : LoopQuantity) (loop : Int) :
    Interchangeable Value (remember (Ledger.kept quantity) (Ledger.keep quantity) loop first)
      (remember (Ledger.kept quantity) (Ledger.keep quantity) loop second) := by
  intro ledger other alike
  rw [outcome_remember, outcome_remember, kept_of_bare_eq alike]
  cases Register.find loop (other.kept quantity) with
  | some value => exact .value alike
  | none =>
      have returned := same ledger other alike
      generalize first.outcome ledger = outcome, second.outcome other = otherOutcome
        at returned ⊢
      cases returned with
      | fault => exact .fault
      | value same => exact .value (bare_enter same quantity loop _)

variable {nest : LoopNest}

theorem interchangeable_ask (forgetful : nest.resolver.emitter.IsForgetful)
    {lowerBound : Datum → Analysis Value}
    (bounds : ∀ loop, Interchangeable Value (lowerBound loop) (lowerBound loop))
    (quantity : LoopQuantity) (loop : Datum) :
    Interchangeable Value (nest.ask (nest.evaluateBound lowerBound) quantity loop)
      (nest.ask (nest.evaluateBound lowerBound) quantity loop) := by
  have extensible := isExtensible_interchangeable forgetful
  rcases named : nest.entry loop with fault | ⟨number, record⟩
  · rw [ask_of_error named]
    exact extensible.fault fault
  · rw [ask_of_entry named]
    refine interchangeable_remember (related_compute extensible ?_ quantity loop) quantity number
    intro quantity tree
    rw [evaluateBound_eq]
    exact interchangeable_unlessActive (interchangeable_adapt (interchangeable_whileActive
      (related_boundContext extensible bounds record tree) record.id) _ _) record quantity

theorem interchangeable_lowerBoundWithin (forgetful : nest.resolver.emitter.IsForgetful)
    (budget : Nat) (loop : Datum) :
    Interchangeable Value (nest.lowerBoundWithin budget loop)
      (nest.lowerBoundWithin budget loop) := by
  induction budget generalizing loop with
  | zero => exact interchangeable_fail _ _
  | succ budget ih => exact interchangeable_ask forgetful ih (.bound .initial) loop

/-- The bounds of loops do not depend on requests. -/
theorem interchangeable_bound (forgetful : nest.resolver.emitter.IsForgetful) (mode : Mode)
    (loop : Datum) :
    Interchangeable Value ((nest.view.phis mode).bound loop)
      ((nest.view.phis mode).bound loop) := by
  have lower := interchangeable_lowerBoundWithin forgetful (nest.kernel.loops.length + 1)
  cases mode with
  | least => exact lower loop
  | greatest => exact interchangeable_ask forgetful lower (.bound .final) loop

end LoopNest

end KernelFootprint
