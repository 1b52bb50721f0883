import KernelFootprint.Proofs.Frame

/-!
# Steady analyses

An analysis is steady if it comes to the same value or fault whatever the ledger
holds. A forgetful emitter, such as the default one, answers a request without looking
at the requests before it, so that everything built from its requests alone is steady.
Of a steady sequence that has a value every part has one.
-/

namespace KernelFootprint

/-- An emitter that answers a request without looking at the requests before it. -/
def Emitter.IsForgetful (emitter : Emitter) : Prop :=
  ∀ before request, emitter.respond before request = emitter.respond [] request

theorem Emitter.isForgetful_symbolic : symbolic.IsForgetful := fun _ _ => rfl

namespace Analysis

variable {First Second : Type}

/-- An analysis has a value, whatever the ledger holds. -/
def Gives (analysis : Analysis First) (value : First) : Prop :=
  ∀ ledger, (analysis.outcome ledger).1 = .ok value

/-- An analysis comes to the same in all ledgers. -/
def IsSteady (analysis : Analysis First) : Prop :=
  ∀ ledger other, (analysis.outcome ledger).1 = (analysis.outcome other).1

theorem Gives.unique {analysis : Analysis First} {value other : First}
    (first : analysis.Gives value) (second : analysis.Gives other) : value = other :=
  Except.ok.inj ((first {}).symm.trans (second {}))

theorem IsSteady.gives {analysis : Analysis First} (steady : analysis.IsSteady) {value : First}
    {ledger : Ledger} (succeeded : (analysis.outcome ledger).1 = .ok value) :
    analysis.Gives value :=
  fun other => (steady other ledger).trans succeeded

theorem Gives.bind {first : Analysis First} {next : First → Analysis Second} {value : First}
    {result : Second} (onFirst : first.Gives value) (onNext : (next value).Gives result) :
    (first >>= next).Gives result := by
  intro ledger
  have given := onFirst ledger
  rw [outcome_bind]
  rcases found : first.outcome ledger with ⟨outcome, middle⟩
  rw [found] at given
  cases given
  exact onNext middle

theorem IsSteady.bind {first : Analysis First} {next : First → Analysis Second}
    (onFirst : first.IsSteady) (onNext : ∀ value, (next value).IsSteady) :
    (first >>= next).IsSteady := by
  intro ledger other
  have same := onFirst ledger other
  rw [outcome_bind, outcome_bind]
  rcases found : first.outcome ledger with ⟨outcome, middle⟩
  rcases otherFound : first.outcome other with ⟨otherOutcome, otherMiddle⟩
  rw [found, otherFound] at same
  cases same
  cases outcome with
  | error fault => rfl
  | ok value => exact onNext value middle otherMiddle

/-- A steady sequence gives a value only if its parts do. -/
theorem Gives.of_bind {first : Analysis First} {next : First → Analysis Second} {result : Second}
    (given : (first >>= next).Gives result) (onFirst : first.IsSteady)
    (onNext : ∀ value, (next value).IsSteady) :
    ∃ value, first.Gives value ∧ (next value).Gives result := by
  have succeeded := given {}
  rw [outcome_bind] at succeeded
  rcases found : first.outcome {} with ⟨fault | value, middle⟩
  · rw [found] at succeeded
    cases succeeded
  · rw [found] at succeeded
    exact ⟨value, onFirst.gives (congrArg Prod.fst found), (onNext value).gives succeeded⟩

theorem gives_adapt {analysis : Analysis First} {change : Fault → Fault} {value : First} :
    Analysis.Gives (ExceptT.adapt change analysis) value ↔ analysis.Gives value := by
  have mapped (outcome : Except Fault First) :
      outcome.mapError change = .ok value ↔ outcome = .ok value := by
    cases outcome with
    | error fault => exact ⟨nofun, nofun⟩
    | ok result => exact Iff.rfl
  simp only [Gives, outcome_adapt, mapped]

theorem IsSteady.adapt {analysis : Analysis First} (steady : analysis.IsSteady)
    (change : Fault → Fault) : Analysis.IsSteady (ExceptT.adapt change analysis) := by
  intro ledger other
  rw [outcome_adapt, outcome_adapt, steady ledger other]

/-- Requests to a forgetful emitter are answered alike in all ledgers. -/
theorem isExtensible_steady_of {emitter : Emitter} (forgetful : emitter.IsForgetful) :
    IsExtensible emitter (fun _ analysis _ => IsSteady analysis) where
  value _ _ _ := rfl
  fault _ _ _ := rfl
  request request ledger other := by
    have answered (ledger : Ledger) : ((emitter.emit request).outcome ledger).1 =
        emitter.respond [] request := by
      rw [Emitter.outcome_emit, forgetful]
      cases emitter.respond [] request <;> rfl
    rw [answered, answered]
  sequence onFirst onNext := onFirst.bind onNext

theorem isExtensible_steady :
    IsExtensible .symbolic (fun _ analysis _ => IsSteady analysis) :=
  isExtensible_steady_of Emitter.isForgetful_symbolic

/-- What the first analysis gives, the second one gives. -/
def Grows (Result : Type) (first second : Analysis Result) : Prop :=
  first.IsSteady ∧ ∀ value, first.Gives value → second.Gives value

theorem isExtensible_grows : IsExtensible .symbolic Grows where
  value value := ⟨isExtensible_steady.value value, fun _ given => given⟩
  fault fault := ⟨isExtensible_steady.fault fault, fun _ given => given⟩
  request request := ⟨isExtensible_steady.request request, fun _ given => given⟩
  sequence := by
    intro First Second first other next otherNext onFirst onNext
    refine ⟨onFirst.1.bind (fun value => (onNext value).1), ?_⟩
    intro result given
    obtain ⟨value, before, after⟩ := given.of_bind onFirst.1 (fun value => (onNext value).1)
    exact (onFirst.2 value before).bind ((onNext value).2 result after)

end Analysis

end KernelFootprint
