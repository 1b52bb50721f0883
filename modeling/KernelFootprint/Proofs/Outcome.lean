import KernelFootprint.Emission

/-!
# Outcomes of analyses

What an analysis comes to is read off its outcome. A sequence succeeds exactly
if its parts do, one after the other. An analysis is immediate if it comes to a
known integer or to a fault without looking at the ledger or changing it.
-/

namespace KernelFootprint.Analysis

variable {First Second : Type}

@[simp] theorem outcome_pure (value : First) (ledger : Ledger) :
    (pure value : Analysis First).outcome ledger = (.ok value, ledger) := rfl

@[simp] theorem outcome_fail (fault : Fault) (ledger : Ledger) :
    (fail fault : Analysis First).outcome ledger = (.error fault, ledger) := rfl

@[simp] theorem ofExcept_ok (value : First) : ofExcept (.ok value) = pure value := rfl

@[simp] theorem ofExcept_error (fault : Fault) :
    (ofExcept (.error fault) : Analysis First) = fail fault := rfl

@[simp] theorem outcome_ofExcept (outcome : Except Fault First) (ledger : Ledger) :
    (ofExcept outcome).outcome ledger = (outcome, ledger) := by
  cases outcome <;> rfl

@[simp] theorem fail_bind (fault : Fault) (next : First → Analysis Second) :
    fail fault >>= next = fail fault := rfl

theorem outcome_bind (first : Analysis First) (next : First → Analysis Second)
    (ledger : Ledger) :
    (first >>= next).outcome ledger =
      match first.outcome ledger with
      | (.ok value, after) => (next value).outcome after
      | (.error fault, after) => (.error fault, after) := by
  change ((first >>= next).run.run ledger) = _
  unfold outcome
  rw [ExceptT.run_bind, StateT.run_bind]
  change (match first.run.run ledger with | (value, after) => _) = _
  obtain ⟨result, after⟩ := first.run.run ledger
  cases result <;> rfl

theorem outcome_tryCatch (analysis : Analysis First)
    (handler : Fault → Analysis First) (ledger : Ledger) :
    Analysis.outcome (tryCatch analysis handler) ledger =
      match analysis.outcome ledger with
      | (.ok value, after) => (.ok value, after)
      | (.error fault, after) => (handler fault).outcome after := by
  change (ExceptT.tryCatch analysis handler).run.run ledger = _
  unfold ExceptT.tryCatch
  rw [ExceptT.run_mk, StateT.run_bind]
  rcases found : analysis.outcome ledger with ⟨result, after⟩
  have ran : StateT.run analysis ledger = (result, after) := found
  rw [ran]
  cases result <;> rfl

/-- A sequence succeeds exactly if its parts do. -/
theorem outcome_bind_eq_ok {first : Analysis First} {next : First → Analysis Second}
    {ledger after : Ledger} {result : Second} :
    (first >>= next).outcome ledger = (.ok result, after) ↔
      ∃ value middle, first.outcome ledger = (.ok value, middle) ∧
        (next value).outcome middle = (.ok result, after) := by
  rw [outcome_bind]
  constructor
  · intro succeeded
    rcases found : first.outcome ledger with ⟨value | value, middle⟩
    · rw [found] at succeeded
      cases succeeded
    · rw [found] at succeeded
      exact ⟨value, middle, rfl, succeeded⟩
  · rintro ⟨value, middle, found, rest⟩
    rw [found]
    exact rest

/-- A list of analyses succeeds only if each of them does at its turn. -/
theorem outcome_of_mapM {analyses : List (Analysis First)} {ledger after : Ledger}
    {results : List First} (returned : (analyses.mapM id).outcome ledger = (.ok results, after))
    {analysis : Analysis First} (member : analysis ∈ analyses) :
    ∃ before result next, analysis.outcome before = (.ok result, next) := by
  induction analyses generalizing ledger after results with
  | nil => cases member
  | cons first rest ih =>
      rw [List.mapM_cons] at returned
      obtain ⟨value, middle, firstReturned, restReturned⟩ := outcome_bind_eq_ok.mp returned
      obtain ⟨values, last, valuesReturned, _⟩ := outcome_bind_eq_ok.mp restReturned
      rcases List.mem_cons.mp member with rfl | inRest
      · exact ⟨ledger, value, middle, firstReturned⟩
      · exact ih valuesReturned inRest

theorem pure_int_injective {first second : Int}
    (same : (pure (.int first) : Analysis Value) = pure (.int second)) : first = second := by
  have outcomes : (Except.ok (Value.int first), ({} : Ledger)) = (.ok (.int second), {}) :=
    congrFun same {}
  cases outcomes
  rfl

/-- A known integer or a fault, whatever the ledger holds, and none of it is changed. -/
def IsImmediate (analysis : Analysis Value) : Prop :=
  ∃ outcome : Except Fault Int, analysis = ofExcept (outcome.map .int)

theorem isImmediate_pure (value : Int) : IsImmediate (pure (.int value)) := ⟨.ok value, rfl⟩

theorem isImmediate_fail (fault : Fault) : IsImmediate (fail fault) := ⟨.error fault, rfl⟩

/-- A successful immediate analysis is nothing but its integer. -/
theorem IsImmediate.eq_pure {analysis : Analysis Value} (immediate : analysis.IsImmediate)
    {ledger after : Ledger} {result : Value}
    (succeeded : analysis.outcome ledger = (.ok result, after)) :
    ∃ value : Int, result = .int value ∧ after = ledger ∧ analysis = pure (.int value) := by
  obtain ⟨outcome, rfl⟩ := immediate
  rw [outcome_ofExcept] at succeeded
  cases outcome with
  | ok value =>
      cases succeeded
      exact ⟨value, rfl, rfl, rfl⟩
  | error fault => cases succeeded

end KernelFootprint.Analysis

namespace KernelFootprint.Emitter

theorem combine_int (emitter : Emitter) (op : WordOp) (first second : Int) :
    emitter.combine op (.int first) (.int second) =
      Analysis.ofExcept ((op.fold .wide first second).map .int) := rfl

theorem isImmediate_combine (emitter : Emitter) (op : WordOp) (first second : Int) :
    (emitter.combine op (.int first) (.int second)).IsImmediate := ⟨_, rfl⟩

theorem combine_of_fold (emitter : Emitter) {op : WordOp} {first second result : Int}
    (folded : op.fold .wide first second = .ok result) :
    emitter.combine op (.int first) (.int second) = pure (.int result) := by
  rw [combine_int, folded]
  rfl

theorem fold_of_combine {emitter : Emitter} {op : WordOp} {first second : Int} {result : Value}
    {ledger after : Ledger}
    (combined : (emitter.combine op (.int first) (.int second)).outcome ledger =
      (.ok result, after)) :
    ∃ value, op.fold .wide first second = .ok value ∧ result = .int value ∧ after = ledger := by
  rw [combine_int, Analysis.outcome_ofExcept] at combined
  cases folded : op.fold .wide first second with
  | ok value =>
      rw [folded] at combined
      cases combined
      exact ⟨value, rfl, rfl, rfl⟩
  | error fault =>
      rw [folded] at combined
      cases combined

/-- The answer to a requested operation is deferred, never a known integer. -/
def IsDeferring (emitter : Emitter) : Prop :=
  ∀ before op first second value,
    emitter.respond before (.operation op first second) = .ok value → value.integer? = none

theorem isDeferring_symbolic : symbolic.IsDeferring := by
  intro before op first second value answered
  cases answered
  cases op <;> rfl

theorem isDeferring_numbered : numbered.IsDeferring := by
  intro before op first second value answered
  cases answered
  rfl

/-- A request leaves the ledger alone if it fails, and is added to it if it is answered. -/
theorem outcome_emit (emitter : Emitter) (request : Request) (ledger : Ledger) :
    (emitter.emit request).outcome ledger =
      match emitter.respond ledger.requests request with
      | .ok value => (.ok value, { ledger with requests := request :: ledger.requests })
      | .error fault => (.error fault, ledger) := by
  rw [emit, Analysis.outcome_bind]
  change ((Analysis.ofExcept (emitter.respond ledger.requests request)) >>= _).outcome ledger = _
  rw [Analysis.outcome_bind, Analysis.outcome_ofExcept]
  cases emitter.respond ledger.requests request with
  | ok value => rfl
  | error fault => rfl

theorem respond_of_emit {emitter : Emitter} {request : Request} {ledger after : Ledger}
    {result : Value} (emitted : (emitter.emit request).outcome ledger = (.ok result, after)) :
    emitter.respond ledger.requests request = .ok result := by
  rw [outcome_emit] at emitted
  cases answered : emitter.respond ledger.requests request with
  | ok value =>
      rw [answered] at emitted
      cases emitted
      rfl
  | error fault =>
      rw [answered] at emitted
      cases emitted

/-- A deferring emitter leads to a known integer from known integers only. -/
theorem combine_eq_int {emitter : Emitter} (deferring : emitter.IsDeferring) {op : WordOp}
    {first second : Value} {result : Int} {ledger after : Ledger}
    (combined : (emitter.combine op first second).outcome ledger = (.ok (.int result), after)) :
    ∃ left right, first = .int left ∧ second = .int right ∧
      op.fold .wide left right = .ok result := by
  have requested {left right : Value}
      (emitted : (do
        let first ← emitter.lift left
        let second ← emitter.lift right
        emitter.emit (.operation op first second) : Analysis Value).outcome ledger =
          (.ok (.int result), after)) : False := by
    obtain ⟨first, middle, _, rest⟩ := Analysis.outcome_bind_eq_ok.mp emitted
    obtain ⟨second, last, _, answered⟩ := Analysis.outcome_bind_eq_ok.mp rest
    cases deferring _ _ _ _ _ (respond_of_emit answered)
  cases first with
  | int left =>
      cases second with
      | int right =>
          obtain ⟨value, folded, same, _⟩ := fold_of_combine combined
          cases same
          exact ⟨left, right, rfl, rfl, folded⟩
      | _ => exact absurd combined requested
  | _ => exact absurd combined requested

end KernelFootprint.Emitter
