import KernelFootprint.Proofs.Distance
import KernelFootprint.Proofs.Sensitivity
import KernelFootprint.Proofs.Steady

/-!
# Addresses pinned by given values

A value given for a token takes precedence in every evaluation. An address whose indices
and phi terms all have one is pinned: its least, its greatest and its concrete value are
computed alike, so that they are one value, or fail with errors of one class. An address
that is pinned to an integer has no extent.
-/

namespace KernelFootprint

/-- The classes that analysis errors belong to. -/
inductive ErrorClass
  | malformed
  | unresolved
  | outsideDomain
  | irreducible
  | unsupportedOperator
  | unsupportedRecurrence
  | notAffine
  | incomputable
  deriving DecidableEq

def Misshape.errorClass : Misshape → ErrorClass
  | .irreducibleOperand _ _ | .irreducible _ | .noOperands _ => .irreducible
  | .noIntegerValue _ | .noRange _ _ => .unsupportedOperator
  | .noEntryValue _ | .brokenRecurrence _ _ | .termNotBelow _ => .unsupportedRecurrence

def AnalysisError.errorClass : AnalysisError → ErrorClass
  | .malformed _ => .malformed
  | .indeterminate cause => if cause.isDomainError then .outsideDomain else .unresolved
  | .misshapen cause => cause.errorClass
  | .notAffine _ => .notAffine
  | .incomputable _ _ => .incomputable

/-- Analysis errors of one class, or the same misuse. -/
def Fault.SameClass : Fault → Fault → Prop
  | .analysis error, .analysis other => error.errorClass = other.errorClass
  | .misuse cause, .misuse other => cause = other
  | _, _ => False

theorem Fault.sameClass_refl (fault : Fault) : fault.SameClass fault := by
  cases fault <;> rfl

namespace Analysis

variable {Result : Type}

/-- The same value, or two faults of one class, with the same ledger in the end. -/
inductive EndsAlike : Except Fault Result × Ledger → Except Fault Result × Ledger → Prop
  | value (value : Result) (after : Ledger) : EndsAlike (.ok value, after) (.ok value, after)
  | fault {fault other : Fault} (same : fault.SameClass other) (after : Ledger) :
      EndsAlike (.error fault, after) (.error other, after)

theorem endsAlike_refl (outcome : Except Fault Result × Ledger) : EndsAlike outcome outcome := by
  obtain ⟨fault | value, after⟩ := outcome
  · exact .fault fault.sameClass_refl after
  · exact .value value after

theorem EndsAlike.eq_ok {outcome other : Except Fault Result × Ledger}
    (alike : EndsAlike outcome other) {value : Result} {after : Ledger}
    (succeeded : other = (.ok value, after)) : outcome = (.ok value, after) := by
  cases alike with
  | value _ _ => exact succeeded
  | fault _ _ => cases succeeded

/-- Two analyses that end alike whatever the ledger holds. -/
def AreAlike (Result : Type) (first second : Analysis Result) : Prop :=
  ∀ ledger, EndsAlike (first.outcome ledger) (second.outcome ledger)

theorem isExtensible_areAlike (emitter : Emitter) : IsExtensible emitter AreAlike where
  value _ _ := endsAlike_refl _
  fault _ _ := endsAlike_refl _
  request _ _ := endsAlike_refl _
  sequence := by
    intro First Second first other next otherNext onFirst onNext ledger
    have alike := onFirst ledger
    rw [outcome_bind, outcome_bind]
    generalize first.outcome ledger = outcome, other.outcome ledger = otherOutcome at alike ⊢
    cases alike with
    | value value after => exact onNext value after
    | fault same after => exact .fault same after

end Analysis

open Analysis

/-- Whether the extreme values of a terminal may differ: it is an index or a phi term. -/
def Terminal.Ranges : Terminal → Prop
  | .thread _ | .block _ | .phiTerm _ => True
  | _ => False

namespace BinaryTree

/-- Every index and every phi term has a value given for its token. -/
def IsPinned (resolver : Resolver) (tree : BinaryTree) : Prop :=
  ∀ text node, (text, node) ∈ tree.terminals → node.Ranges →
    ∃ value, resolver.unknown? text = .ok (some value)

end BinaryTree

namespace RangeContext

variable {context : RangeContext}

/-- Outside of indices and phi terms a terminal is worth what it resolves to, and an
incomplete one is unresolved either way. -/
theorem areAlike_terminal {text : Datum} {node : Terminal}
    (pinned : node.Ranges → ∃ value, context.resolver.unknown? text = .ok (some value)) :
    AreAlike Value (context.terminal text node)
      (Analysis.ofExcept (context.resolver.resolve text (.terminal node))) := by
  rcases given : context.resolver.unknown? text with fault | _ | value
  · rw [terminal_of_error given, Resolver.resolve, given]
    exact fun ledger => endsAlike_refl _
  · have resolved : context.resolver.resolve text (.terminal node) =
        context.resolver.intrinsic text (.terminal node) := by
      rw [Resolver.resolve, given]
      rfl
    rw [terminal_of_not_given given]
    cases node with
    | constant _ | argument _ | blockSize _ => exact fun ledger => endsAlike_refl _
    | incomplete =>
        have unresolved : (Fault.analysis (.indeterminate .incompleteExpression)).SameClass
            (context.resolver.noValue text) := rfl
        rw [resolved]
        exact fun ledger => .fault unresolved ledger
    | thread _ | block _ | phiTerm _ =>
        obtain ⟨value, found⟩ := pinned trivial
        rw [given] at found
        cases found
  · rw [terminal_of_given given, Resolver.resolve_of_unknown given]
    exact fun ledger => endsAlike_refl _

/-- The valuation of a range with the merges of a concrete evaluation. -/
def withConcreteMerges (context : RangeContext) : BinaryTree.Valuation :=
  { context.valuation with merge := context.resolver.concrete.merge }

/-- The extreme values of a pinned address and its concrete value are computed alike. -/
theorem areAlike_ofBinary {tree : BinaryTree} (mergeless : .phi ∉ tree.operations)
    (pinned : tree.IsPinned context.resolver) :
    AreAlike Value (context.ofBinary tree) (context.resolver.evaluate tree) := by
  -- The evaluations treat merges differently, but reach none.
  have unreached : context.ofBinary tree = tree.evaluateWith context.withConcreteMerges :=
    BinaryTree.evaluateWith_congr rfl (fun _ _ _ => rfl) (fun member => absurd member mergeless)
  rw [unreached]
  exact @BinaryTree.related_evaluateWith AreAlike context.withConcreteMerges
    context.resolver.concrete (isExtensible_areAlike context.resolver.emitter) rfl tree
    (fun text node member => areAlike_terminal (pinned text node member))
    (fun _ _ _ ledger => endsAlike_refl _)

end RangeContext

/-- Concrete values rest on requests to the emitter alone. -/
theorem Resolver.isSteady_evaluate {resolver : Resolver}
    (forgetful : resolver.emitter.IsForgetful) (tree : BinaryTree) :
    (resolver.evaluate tree).IsSteady := by
  have extensible := isExtensible_steady_of forgetful
  exact @BinaryTree.related_evaluateWith _ resolver.concrete resolver.concrete extensible rfl tree
    (fun _ _ _ => extensible.ofExcept _) (fun _ _ _ => extensible.fault _)

/-- An address that comes to one integer twice in a row has no extent. -/
theorem workingSetSize_eq_zero {resolver : Resolver} {view : Option LoopView} {loop : Datum}
    {tree : AddressTree} {ledger middle after : Ledger} {value : Int}
    (greatest : (tree.extremeValue (.of resolver .greatest view loop)).outcome ledger =
      (.ok (.int value), middle))
    (least : (tree.extremeValue (.of resolver .least view loop)).outcome middle =
      (.ok (.int value), after)) :
    (workingSetSize resolver view loop tree).outcome ledger = (.ok 0, after) := by
  rw [outcome_workingSetSize greatest least, Int.sub_self, abs_zero]
  rfl

/-- The least, the greatest and the concrete value of a pinned address are the same value, or
fail with errors of the same class, whatever is known about loops and whatever the ledger
holds. If the value is an integer, the working set is empty. One evaluation tells that it is,
unless the emitter answers with integers of its own that depend on earlier requests. -/
theorem workingSetSize_of_isPinned {resolver : Resolver} {tree : BinaryTree}
    (mergeless : .phi ∉ tree.operations) (pinned : tree.IsPinned resolver)
    (view : Option LoopView) (loop : Datum) :
    (∀ mode ledger,
      EndsAlike (((AddressTree.binary tree).extremeValue (.of resolver mode view loop)).outcome
        ledger) ((resolver.evaluate tree).outcome ledger)) ∧
      (∀ value : Int, (resolver.evaluate tree).Gives (.int value) →
        (workingSetSize resolver view loop (.binary tree)).Gives 0) ∧
      (resolver.emitter.IsForgetful ∨ resolver.emitter.IsDeferring →
        ∀ (value : Int) (ledger after : Ledger),
          (resolver.evaluate tree).outcome ledger = (.ok (.int value), after) →
            (resolver.evaluate tree).Gives (.int value)) := by
  have alike (mode : Mode) (ledger : Ledger) :
      EndsAlike (((AddressTree.binary tree).extremeValue (.of resolver mode view loop)).outcome
        ledger) ((resolver.evaluate tree).outcome ledger) :=
    @RangeContext.areAlike_ofBinary (RangeSetting.of resolver mode view loop).context tree
      mergeless pinned ledger
  refine ⟨alike, ?_, ?_⟩
  · intro value gives ledger
    have valued (mode : Mode) (ledger : Ledger) :
        ((AddressTree.binary tree).extremeValue (.of resolver mode view loop)).outcome ledger =
          (.ok (.int value), ((resolver.evaluate tree).outcome ledger).2) :=
      (alike mode ledger).eq_ok (Prod.ext (gives ledger) rfl)
    rw [workingSetSize_eq_zero (valued .greatest ledger) (valued .least _)]
  · rintro (forgetful | deferring) value ledger after returned
    · exact (Resolver.isSteady_evaluate forgetful tree).gives (congrArg Prod.fst returned)
    · rw [BinaryTree.evaluate_eq_pure deferring returned]
      exact fun _ => rfl

/-- The carried value of a recurrence and four bytes for every thread. -/
def BinaryTree.carriedRow : BinaryTree :=
  .branch "ADD" .add (.leaf (.text "PHI0") (.terminal (.phiTerm (some 0))))
    (.branch "MUL" .mul (.leaf (.text "TIDX") (.terminal (.thread .x)))
      (.leaf (.text "4") (.terminal (.constant 4))))

/-- A launch with values for a phi term, for a thread index, and for a literal. -/
def Resolver.pinning : Resolver :=
  (Resolver.sample (.constant 128)).given [(.text "PHI0", 3), (.text "TIDX", 5), (.text "4", 9)]

/-- Given values pin an address inside a loop that nothing is known about. -/
theorem workingSetSize_carriedRow :
    .phi ∉ BinaryTree.carriedRow.operations ∧ BinaryTree.carriedRow.IsPinned .pinning ∧
      (Resolver.pinning.evaluate BinaryTree.carriedRow).Gives 48 ∧
      (workingSetSize .pinning none (.integer 1) (.binary BinaryTree.carriedRow)).Gives 0 := by
  have pinned : BinaryTree.carriedRow.IsPinned .pinning := by
    intro text node member ranges
    have listed : (text, node) ∈ [(Datum.text "PHI0", Terminal.phiTerm (some 0)),
      (.text "TIDX", .thread .x), (.text "4", .constant 4)] := member
    simp only [List.mem_cons, List.not_mem_nil, or_false] at listed
    rcases listed with same | same | same
    · cases same
      exact ⟨3, rfl⟩
    · cases same
      exact ⟨5, rfl⟩
    · cases same
      exact ranges.elim
  have mergeless : .phi ∉ BinaryTree.carriedRow.operations := by decide
  obtain ⟨_, empty, reproduced⟩ := workingSetSize_of_isPinned mergeless pinned none (.integer 1)
  have gives := reproduced (.inl Emitter.isForgetful_symbolic) 48 {} {} (by cbv)
  exact ⟨mergeless, pinned, gives, empty 48 gives⟩

end KernelFootprint
