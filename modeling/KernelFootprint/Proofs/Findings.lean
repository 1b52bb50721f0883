import KernelFootprint.Proofs.Delivery

/-!
# Findings about an access

The quantities of an access are computed one after the other on one ledger, and those that
end with an analysis error are what is found about the access. The findings can be told from
the ledger at the turn of the access alone. The errors of an estimate are the build errors
of its access, its findings in their order, and the reason why its tree was not built.
-/

namespace KernelFootprint

open Analysis Estimation

/-- A quantity that could not be computed, with the error that it ended with. -/
structure Finding where
  quantity : String
  error : AnalysisError

namespace Finding

def text (finding : Finding) : String := finding.quantity ++ ": " ++ finding.error.message

/-- Whether the error is about the shape of a tree. -/
def isMisshapen (finding : Finding) : Bool :=
  match finding.error with
  | .misshapen _ => true
  | _ => false

end Finding

/-- A quantity with its computation. -/
abbrev Question := String × Analysis Value

/-- What is found if computations are tried one after the other. -/
def findingsAmong : List Question → Ledger → List Finding
  | [], _ => []
  | (quantity, compute) :: rest, ledger =>
      match compute.outcome ledger with
      | (.error (.analysis error), after) => ⟨quantity, error⟩ :: findingsAmong rest after
      | (_, after) => findingsAmong rest after

/-- The ledger after computations were tried one after the other. -/
def ledgerAfter (questions : List Question) (ledger : Ledger) : Ledger :=
  questions.foldl (fun ledger question => (question.2.outcome ledger).2) ledger

theorem findingsAmong_append (first second : List Question) (ledger : Ledger) :
    findingsAmong (first ++ second) ledger =
      findingsAmong first ledger ++ findingsAmong second (ledgerAfter first ledger) := by
  induction first generalizing ledger with
  | nil => rfl
  | cons question rest ih =>
      obtain ⟨quantity, compute⟩ := question
      rw [List.cons_append, findingsAmong, findingsAmong, ledgerAfter, List.foldl_cons]
      rcases compute.outcome ledger with ⟨(error | cause) | value, after⟩
      · exact congrArg (⟨quantity, error⟩ :: ·) (ih after)
      · exact ih after
      · exact ih after

/-- The working set, the flags and the errors that a tree has without any computation. -/
def AddressTree.settled? (tree : AddressTree) :
    Option (Option Value × List Flag × List String) :=
  match tree.obstacle? "address tree" with
  | some (flag, reason) => some (none, [flag], [reason])
  | none =>
      if tree.isIndirect then some (none, [.indirect], [])
      else if tree.isTrivial then some (some 1, [], [])
      else none

/-- The errors of a tree that settles its working set. -/
def AddressTree.reasons (tree : AddressTree) : List String :=
  match tree.settled? with
  | some found => found.2.2
  | none => []

namespace Estimator

variable (estimator : Estimator) (access : AccessRecord) (expression : BinaryTree)

def axisQuestion (axis : SensitivityAxis × Analysis Value) : Question :=
  (axis.1.name ++ " sensitivity", axis.2)

/-- The working set is computed of trees that do not settle it. -/
def spreadQuestions : List Question :=
  match (addressTree access expression).settled? with
  | some _ => []
  | none =>
      [("working set", workingSetSize estimator.resolver (some estimator.nest.view)
        (.integer access.loop) (addressTree access expression))]

def questions : List Question :=
  (estimator.sensitivityAxes expression).map axisQuestion ++
    estimator.spreadQuestions access expression

/-- What is found about an access if its turn comes with the given ledger. -/
def findings (ledger : Ledger) : List Finding :=
  match analyzable access with
  | .error _ => []
  | .ok expression =>
      match (estimator.nest.nestedIterationCount (.integer access.loop)).outcome ledger with
      | (.ok nested, middle) =>
          let count := estimator.emitter.combine .mul (estimator.threads.promote .wide)
            (nested.promote .wide)
          findingsAmong (estimator.questions access expression) (count.outcome middle).2
      | _ => []

/-- The first error about the shape of a tree that is found about an access. -/
def misshapen? (ledger : Ledger) : Option Finding :=
  (estimator.findings access ledger).find? Finding.isMisshapen

variable {estimator access expression} {start last : Progress}

theorem recordFailure_eq_ok {what text : String} {error : AnalysisError}
    (recorded : (estimator.recordFailure access what error).outcome start = (.ok text, last)) :
    text = (⟨what, error⟩ : Finding).text ∧ last.ledger = start.ledger :=
  ⟨(ends_recordFailure_named what error).returned recorded,
    (preserves_recordFailure (fun _ _ => rfl) what error).eq recorded⟩

theorem findings_of_sensitivities {axes : List (SensitivityAxis × Analysis Value)}
    {found : List (SensitivityAxis × Value) × List String}
    (surveyed : (estimator.sensitivities access axes).outcome start = (.ok found, last)) :
    found.2 = (findingsAmong (axes.map axisQuestion) start.ledger).map Finding.text ∧
      last.ledger = ledgerAfter (axes.map axisQuestion) start.ledger := by
  induction axes generalizing start found with
  | nil =>
      cases surveyed
      exact ⟨rfl, rfl⟩
  | cons first rest ih =>
      obtain ⟨axis, compute⟩ := first
      obtain ⟨outcome, middle, attempted, onward⟩ := outcome_bind_eq_ok.mp surveyed
      rw [outcome_attemptAnalysis] at attempted
      rw [List.map_cons, findingsAmong, ledgerAfter, List.foldl_cons]
      rcases computed : compute.outcome start.ledger with ⟨(error | cause) | value, after⟩
      · rw [computed] at attempted
        cases attempted
        obtain ⟨text, recorded, noted, onward⟩ := outcome_bind_eq_ok.mp onward
        obtain ⟨others, _, onRest, same⟩ := outcome_bind_eq_ok.mp onward
        cases same
        obtain ⟨rfl, still⟩ := recordFailure_eq_ok noted
        obtain ⟨errors, ledgers⟩ := ih onRest
        rw [still] at errors ledgers
        simp only [axisQuestion, computed]
        exact ⟨congrArg (_ :: ·) errors, ledgers⟩
      · rw [computed] at attempted
        cases attempted
      · rw [computed] at attempted
        cases attempted
        obtain ⟨others, _, onRest, same⟩ := outcome_bind_eq_ok.mp onward
        cases same
        simp only [axisQuestion, computed]
        exact ih onRest

/-- The working set that a computation comes to, or what explains that there is none. -/
def spreadOf (estimator : Estimator) (access : AccessRecord) (compute : Analysis Value) :
    Estimation (Option Value × List Flag × List String) := do
  match ← attemptAnalysis compute with
  | .ok value => return (some (value.promote .wide), [], [])
  | .error (.incomputable loop obstacle) =>
      let error := AnalysisError.incomputable loop obstacle
      return (none, [.incomputable], ["working set: " ++ error.message])
  | .error error =>
      return (none, [], [← estimator.recordFailure access "working set" error])

/-- A working set is computed only of a tree that does not settle it. -/
theorem spread_eq :
    estimator.spread access expression =
      match (addressTree access expression).settled? with
      | some found => pure found
      | none =>
          estimator.spreadOf access (workingSetSize estimator.resolver (some estimator.nest.view)
            (.integer access.loop) (addressTree access expression)) := by
  unfold Estimator.spread workingSet AddressTree.settled?
  rcases (addressTree access expression).obstacle? "address tree" with _ | ⟨flag, reason⟩
  · dsimp only
    cases (addressTree access expression).isIndirect with
    | true => rfl
    | false => cases (addressTree access expression).isTrivial <;> rfl
  · rfl

theorem findings_of_spread {found : Option Value × List Flag × List String}
    (spread : (estimator.spread access expression).outcome start = (.ok found, last)) :
    found.2.2 =
      (findingsAmong (estimator.spreadQuestions access expression) start.ledger).map
        Finding.text ++ (addressTree access expression).reasons := by
  rw [spread_eq] at spread
  rw [spreadQuestions, AddressTree.reasons]
  rcases settles : (addressTree access expression).settled? with _ | settled
  · rw [settles] at spread
    obtain ⟨outcome, middle, attempted, onward⟩ := outcome_bind_eq_ok.mp spread
    rw [outcome_attemptAnalysis] at attempted
    simp only [findingsAmong, List.append_nil]
    rcases computed : (workingSetSize estimator.resolver (some estimator.nest.view)
        (.integer access.loop) (addressTree access expression)).outcome start.ledger with
      ⟨(error | cause) | value, after⟩
    · rw [computed] at attempted
      cases attempted
      cases error with
      | incomputable loop obstacle =>
          cases onward
          rfl
      | _ =>
          obtain ⟨text, _, noted, same⟩ := outcome_bind_eq_ok.mp onward
          cases same
          rw [(recordFailure_eq_ok noted).1]
          rfl
    · rw [computed] at attempted
      cases attempted
    · rw [computed] at attempted
      cases attempted
      cases onward
      rfl
  · rw [settles] at spread
    cases spread
    rfl

/-- An access with quantities records everything that was found about it. -/
theorem Computes.errors_eq {estimate : Estimate} {nested : Value}
    (computes : estimator.Computes access expression nested start estimate last) :
    estimate.errors = access.buildErrors ++
      (findingsAmong (estimator.questions access expression) computes.counted).map Finding.text ++
        (addressTree access expression).reasons := by
  obtain ⟨errors, moved⟩ := findings_of_sensitivities computes.axes
  have remarks := findings_of_spread computes.spread
  rw [moved] at remarks
  refine (congrArg Estimate.errors computes.made).trans ?_
  dsimp only at errors remarks ⊢
  rw [errors, remarks, questions, findingsAmong_append, List.map_append, List.append_assoc,
    List.append_assoc, List.append_assoc]

/-- Whatever is found about an access is among the errors of its estimate. -/
theorem Comes.text_mem {estimate : Estimate}
    (comes : estimator.Comes access start estimate last) {finding : Finding}
    (found : finding ∈ estimator.findings access start.ledger) :
    finding.text ∈ estimate.errors := by
  rw [findings] at found
  cases comes with
  | unanalyzable unbuilt =>
      rw [unbuilt] at found
      cases found
  | incomputable built counted _ =>
      rw [built] at found
      simp only [counted] at found
      cases found
  | computable built counted computed =>
      obtain ⟨computes⟩ := computes_of_quantities computed
      rw [built] at found
      simp only [counted, computes.multiplied] at found
      rw [computes.errors_eq]
      exact List.mem_append_left _ (List.mem_append_right _ (List.mem_map_of_mem found))

end Estimator

end KernelFootprint
