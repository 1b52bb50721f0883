import KernelFootprint.Estimate
import KernelFootprint.Proofs.Frame

/-!
# Outcomes of estimations

An estimation runs analyses on the ledger, issues warnings and delivers to a sink. What
it comes to is read off its outcome, which has the progress made also where it fails.
Warnings and deliveries leave the ledger alone, so that whatever the analyses of an
estimation do to the ledger is all that happens to it.
-/

namespace KernelFootprint.Estimation

open Analysis

variable {First Second : Type}

/-- The outcome of an estimation and the progress after it. -/
def outcome (estimation : Estimation First) (progress : Progress) :
    Except Fault First × Progress :=
  estimation.run.run progress

@[simp] theorem outcome_pure (value : First) (progress : Progress) :
    (pure value : Estimation First).outcome progress = (.ok value, progress) := rfl

@[simp] theorem outcome_throw (fault : Fault) (progress : Progress) :
    Estimation.outcome (throw fault : Estimation First) progress = (.error fault, progress) := rfl

theorem outcome_bind (first : Estimation First) (next : First → Estimation Second)
    (progress : Progress) :
    (first >>= next).outcome progress =
      match first.outcome progress with
      | (.ok value, after) => (next value).outcome after
      | (.error fault, after) => (.error fault, after) := by
  change ((first >>= next).run.run progress) = _
  unfold outcome
  rw [ExceptT.run_bind, StateT.run_bind]
  change (match first.run.run progress with | (value, after) => _) = _
  obtain ⟨result, after⟩ := first.run.run progress
  cases result <;> rfl

/-- A sequence succeeds exactly if its parts do. -/
theorem outcome_bind_eq_ok {first : Estimation First} {next : First → Estimation Second}
    {progress after : Progress} {result : Second} :
    (first >>= next).outcome progress = (.ok result, after) ↔
      ∃ value middle, first.outcome progress = (.ok value, middle) ∧
        (next value).outcome middle = (.ok result, after) := by
  rw [outcome_bind]
  constructor
  · intro succeeded
    rcases found : first.outcome progress with ⟨fault | value, middle⟩
    · rw [found] at succeeded
      cases succeeded
    · rw [found] at succeeded
      exact ⟨value, middle, rfl, succeeded⟩
  · rintro ⟨value, middle, found, rest⟩
    rw [found]
    exact rest

theorem outcome_ofExcept (result : Except Fault First) (progress : Progress) :
    (ofExcept result).outcome progress = (result, progress) := by
  cases result <;> rfl

theorem outcome_attempt (analysis : Analysis First) (progress : Progress) :
    (attempt analysis).outcome progress =
      (.ok (analysis.outcome progress.ledger).1,
        { progress with ledger := (analysis.outcome progress.ledger).2 }) := rfl

theorem outcome_ofAnalysis (analysis : Analysis First) (progress : Progress) :
    (ofAnalysis analysis).outcome progress =
      ((analysis.outcome progress.ledger).1,
        { progress with ledger := (analysis.outcome progress.ledger).2 }) := by
  rw [ofAnalysis, outcome_bind, outcome_attempt]
  exact outcome_ofExcept _ _

theorem outcome_ofAnalysis_eq_ok {analysis : Analysis First} {progress after : Progress}
    {result : First} :
    (ofAnalysis analysis).outcome progress = (.ok result, after) ↔
      ∃ last, analysis.outcome progress.ledger = (.ok result, last) ∧
        after = { progress with ledger := last } := by
  rw [outcome_ofAnalysis]
  constructor
  · intro succeeded
    obtain ⟨found, rfl⟩ := Prod.ext_iff.mp succeeded
    exact ⟨_, Prod.ext found rfl, rfl⟩
  · rintro ⟨last, found, rfl⟩
    rw [found]

/-- An attempted analysis gives its result or its analysis error, and fails otherwise. -/
theorem outcome_attemptAnalysis (analysis : Analysis First) (progress : Progress) :
    (attemptAnalysis analysis).outcome progress =
      ((match (analysis.outcome progress.ledger).1 with
        | .ok result => .ok (.ok result)
        | .error (.analysis error) => .ok (.error error)
        | .error (.misuse cause) => .error (.misuse cause)),
        { progress with ledger := (analysis.outcome progress.ledger).2 }) := by
  rw [attemptAnalysis, outcome_bind, outcome_attempt]
  rcases (analysis.outcome progress.ledger).1 with (error | cause) | result <;> rfl

/-- An estimation that keeps a relation to the ledger before it, whether it fails or not. -/
def Leaves (related : Ledger → Ledger → Prop) (estimation : Estimation First) : Prop :=
  ∀ progress, related progress.ledger (estimation.outcome progress).2.ledger

variable {related : Ledger → Ledger → Prop}

theorem leaves_pure (passage : IsPassage related) (value : First) :
    Leaves related (pure value : Estimation First) := fun progress => passage.refl progress.ledger

theorem leaves_throw (passage : IsPassage related) (fault : Fault) :
    Leaves related (throw fault : Estimation First) :=
  fun progress => passage.refl progress.ledger

theorem Leaves.bind (passage : IsPassage related) {first : Estimation First}
    {next : First → Estimation Second} (onFirst : Leaves related first)
    (onNext : ∀ value, Leaves related (next value)) : Leaves related (first >>= next) := by
  intro progress
  have before := onFirst progress
  rw [outcome_bind]
  rcases found : first.outcome progress with ⟨fault | value, middle⟩
  · rw [found] at before
    exact before
  · rw [found] at before
    exact passage.trans before (onNext value middle)

theorem leaves_ofExcept (passage : IsPassage related) (result : Except Fault First) :
    Leaves related (ofExcept result) := by
  intro progress
  rw [outcome_ofExcept]
  exact passage.refl _

theorem leaves_attempt {analysis : Analysis First} (kept : Keeps related analysis) :
    Leaves related (attempt analysis) := fun progress => kept progress.ledger

theorem leaves_ofAnalysis {analysis : Analysis First} (kept : Keeps related analysis) :
    Leaves related (ofAnalysis analysis) := by
  intro progress
  rw [outcome_ofAnalysis]
  exact kept progress.ledger

theorem leaves_attemptAnalysis {analysis : Analysis First} (kept : Keeps related analysis) :
    Leaves related (attemptAnalysis analysis) := by
  intro progress
  rw [outcome_attemptAnalysis]
  exact kept progress.ledger

theorem leaves_warn (passage : IsPassage related) (patterns : Datum) (kernel id text : String)
    (category : WarningCategory) : Leaves related (warn patterns kernel id text category) := by
  refine (leaves_ofExcept passage _).bind passage ?_
  intro issued
  cases issued with
  | none => exact leaves_pure passage _
  | some warning => exact fun progress => passage.refl progress.ledger

theorem leaves_deliver (passage : IsPassage related) (delivery : Delivery) :
    Leaves related (deliver delivery) := by
  intro progress
  have received : (deliver delivery).outcome progress =
      match progress.sink.receive delivery with
      | .ok sink => (.ok (), { progress with sink := sink })
      | .error fault => (.error fault, progress) := by
    rw [deliver, outcome_bind]
    change ((ofExcept (progress.sink.receive delivery) >>= _).outcome progress) = _
    rw [outcome_bind, outcome_ofExcept]
    cases progress.sink.receive delivery <;> rfl
  rw [received]
  cases progress.sink.receive delivery <;> exact passage.refl _

end KernelFootprint.Estimation
