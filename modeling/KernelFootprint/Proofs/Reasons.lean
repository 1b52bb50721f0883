import KernelFootprint.Proofs.Containment
import KernelFootprint.Proofs.Unbounded

/-!
# Reasons for what is missing

An estimate has at most one flag. Without an execution count it has nothing but its flag
and an error. With one, every axis has its sensitivity or an error under its name, and the
working set is there without a flag, or missing with a flag or an error of its own. Known
integers among the quantities are those of wide words. All this holds in strict mode as
well: an error that ends the estimation leaves no estimate behind.
-/

namespace KernelFootprint

open Analysis Estimation

/-- A value that, if it is known, can be held by a wide word. -/
def Value.IsWide (value : Value) : Prop :=
  ∀ number, value = .int number → -2 ^ 63 ≤ number ∧ number < 2 ^ 63

theorem Value.isWide_wrapWide (number : Int) : (Value.int (wrapWide number)).IsWide := by
  intro other same
  cases same
  exact ⟨Width.wide.format.lowest_le_wrap number, wrapWide_lt number⟩

theorem Value.isWide_promote (value : Value) : (value.promote .wide).IsWide := by
  cases value with
  | int number => exact isWide_wrapWide number
  | _ => nofun

/-- What a deferring emitter combines two values to. -/
theorem Emitter.isWide_of_combine {emitter : Emitter} (deferring : emitter.IsDeferring)
    {op : WordOp} {first second result : Value} {ledger after : Ledger}
    (combined : (emitter.combine op first second).outcome ledger = (.ok result, after)) :
    result.IsWide := by
  intro number known
  subst known
  obtain ⟨left, right, _, _, folded⟩ := combine_eq_int deferring combined
  rw [WordOp.fold] at folded
  cases computed : op.exact .wide left right with
  | ok exact =>
      rw [computed] at folded
      cases folded
      exact Value.isWide_wrapWide exact _ rfl
  | error fault =>
      rw [computed] at folded
      cases folded

/-- An argument is bound directly to the variable of a host loop. -/
def Invocation.HasHostLoop (invocation : Invocation) : Prop :=
  ∃ formal name initial final step,
    (formal, Binding.loopVariable name initial final step) ∈ invocation.bindings

theorem Invocation.hostLoops_ne_nil {invocation : Invocation} (bound : invocation.HasHostLoop) :
    invocation.hostLoops ≠ [] := by
  obtain ⟨formal, name, initial, final, step, member⟩ := bound
  have among : (formal, .loopVariable name initial final step) ∈ invocation.loopBindings :=
    List.mem_filter.mpr ⟨member, rfl⟩
  exact List.ne_nil_of_mem (Register.mem_sort.mpr among)

/-- The axes that an estimate has to say something about. -/
theorem Invocation.mem_axes {invocation : Invocation} {axis : SensitivityAxis}
    (counts : axis = .hostLoop → invocation.HasHostLoop) : axis ∈ invocation.axes := by
  cases axis with
  | hostLoop =>
      rw [axes, if_neg]
      · decide
      · rw [List.isEmpty_iff]
        exact hostLoops_ne_nil (counts rfl)
  | _ => exact List.mem_append_left _ (by decide)

/-- A quantity is named by one of the errors. -/
def Blames (what : String) (errors : List String) : Prop :=
  ∃ message, what ++ ": " ++ message ∈ errors

theorem Blames.mono {what : String} {errors more : List String} (blames : Blames what errors)
    (contained : errors ⊆ more) : Blames what more := by
  obtain ⟨message, member⟩ := blames
  exact ⟨message, contained member⟩

/-- Every axis has a sensitivity or is named by an error. -/
structure IsSurveyed (axes : List SensitivityAxis)
    (found : List (SensitivityAxis × Value) × List String) : Prop where
  onAxes : ∀ axis ∈ axes,
    (∃ value, (axis, value) ∈ found.1) ∨ Blames (axis.name ++ " sensitivity") found.2
  isWide : ∀ entry ∈ found.1, entry.2.IsWide

/-- A working set that is there has no flag, and one that is missing has a flag or is named
by an error. -/
structure IsSpread (found : Option Value × List Flag × List String) : Prop where
  flags_length : found.2.1.length ≤ 1
  reason : (found.1.isSome ∧ found.2.1 = []) ∨
    (found.1 = none ∧ (found.2.1 ≠ [] ∨ Blames "working set" found.2.2))
  isWide : ∀ value, found.1 = some value → value.IsWide

theorem isSpread_flagged (flag : Flag) (errors : List String) :
    IsSpread (none, [flag], errors) where
  flags_length := Nat.le_refl 1
  reason := .inr ⟨rfl, .inl (List.cons_ne_nil _ _)⟩
  isWide := nofun

theorem isSpread_known {value : Value} (wide : value.IsWide) : IsSpread (some value, [], []) where
  flags_length := Nat.zero_le 1
  reason := .inl ⟨rfl, rfl⟩
  isWide := by
    intro other same
    cases same
    exact wide

theorem isSpread_blamed {errors : List String} (blames : Blames "working set" errors) :
    IsSpread (none, [], errors) where
  flags_length := Nat.zero_le 1
  reason := .inr ⟨rfl, .inr blames⟩
  isWide := nofun

/-- What an estimate says about everything that is missing from it. -/
structure Estimate.IsAccountedFor (invocation : Invocation) (estimate : Estimate) : Prop where
  flags_length : estimate.flags.length ≤ 1
  onAbsence : estimate.executionCount = none →
    estimate.flags.length = 1 ∧ estimate.errors ≠ [] ∧ estimate.workingSet = none ∧
      estimate.sensitivities = []
  onAxes : estimate.executionCount.isSome → ∀ axis : SensitivityAxis,
    (axis = .hostLoop → invocation.HasHostLoop) →
      (∃ value, (axis, value) ∈ estimate.sensitivities) ∨
        Blames (axis.name ++ " sensitivity") estimate.errors
  onSpread : estimate.executionCount.isSome →
    (estimate.workingSet.isSome ∧ estimate.flags = []) ∨
      (estimate.workingSet = none ∧
        (estimate.flags ≠ [] ∨ Blames "working set" estimate.errors))
  isWide : ∀ value, estimate.executionCount = some value ∨ estimate.workingSet = some value ∨
    (∃ axis, (axis, value) ∈ estimate.sensitivities) → value.IsWide

/-- An estimate without any quantity, with its flag and an error. -/
theorem Estimate.isAccountedFor_flagged (invocation : Invocation) (key : AccessKey) (loop : Int)
    (flag : Flag) {errors : List String} (explained : errors ≠ []) :
    IsAccountedFor invocation { key := key, loop := loop, flags := [flag], errors := errors } where
  flags_length := Nat.le_refl 1
  onAbsence := fun _ => ⟨rfl, explained, rfl, rfl⟩
  onAxes := nofun
  onSpread := nofun
  isWide := by
    rintro value (counted | spread | ⟨axis, member⟩)
    · cases counted
    · cases spread
    · cases member

theorem Ends.returned {First : Type} {returned : First → Prop} {raised : AnalysisError → Prop}
    {estimation : Estimation First} (ends : Ends returned raised estimation)
    {result : First} {start last : Progress}
    (found : estimation.outcome start = (.ok result, last)) : returned result := by
  have fits := ends start
  rw [show estimation.run.run start = _ from found] at fits
  exact fits

namespace Estimator

variable {estimator : Estimator} {access : AccessRecord} {estimate : Estimate}
  {turn after : Progress} {raised : AnalysisError → Prop}

theorem withReason_ne_nil (errors : List String) (reason : String) :
    withReason errors reason ≠ [] := by
  rw [withReason]
  split
  · next known =>
      rintro rfl
      cases known
  · exact List.append_ne_nil_of_right_ne_nil _ (List.cons_ne_nil _ _)

/-- A recorded failure names its quantity. -/
theorem ends_recordFailure_named (what : String) (error : AnalysisError) :
    Ends (fun text => text = what ++ ": " ++ error.message) (fun _ => True)
      (estimator.recordFailure access what error) := by
  cases error with
  | misshapen cause =>
      rw [recordFailure]
      cases estimator.settings.strict.holds with
      | true => exact ends_throw trivial
      | false => exact (ends_warn _ _ _ _ _).bind (fun _ _ => ends_pure rfl)
  | _ => exact ends_pure rfl

theorem ends_sensitivities_surveyed (axes : List (SensitivityAxis × Analysis Value)) :
    Ends (IsSurveyed (axes.map Prod.fst)) (fun _ => True)
      (estimator.sensitivities access axes) := by
  induction axes with
  | nil => exact ends_pure ⟨nofun, nofun⟩
  | cons first rest ih =>
      obtain ⟨axis, compute⟩ := first
      refine (ends_attemptAnalysis compute).bind (fun outcome _ => ?_)
      cases outcome with
      | ok value =>
          refine ih.bind (fun found surveyed => ends_pure ⟨?_, ?_⟩)
          · refine List.forall_mem_cons.mpr ⟨.inl ⟨_, List.mem_cons_self ..⟩, ?_⟩
            intro other member
            refine (surveyed.onAxes other member).imp_left ?_
            rintro ⟨known, inside⟩
            exact ⟨known, List.mem_cons_of_mem _ inside⟩
          · exact List.forall_mem_cons.mpr ⟨value.isWide_promote, surveyed.isWide⟩
      | error error =>
          refine (ends_recordFailure_named _ error).bind (fun text named => ?_)
          subst named
          refine ih.bind (fun found surveyed => ends_pure ⟨?_, surveyed.isWide⟩)
          refine List.forall_mem_cons.mpr ⟨.inr ⟨error.message, List.mem_cons_self ..⟩, ?_⟩
          intro other member
          exact (surveyed.onAxes other member).imp_right
            (fun blames => blames.mono (List.subset_cons_self _ _))

theorem ends_workingSet_spread (tree : AddressTree) :
    Ends IsSpread (fun _ => True) (estimator.workingSet access tree) := by
  rw [workingSet]
  split
  · exact ends_pure (isSpread_flagged .indirect [])
  split
  · exact ends_pure (isSpread_known (Value.isWide_promote 1))
  refine (ends_attemptAnalysis _).bind (fun outcome _ => ?_)
  rcases outcome with error | value
  · have recorded : Ends (fun text => text = "working set" ++ ": " ++ error.message)
        (fun _ => True) (estimator.recordFailure access "working set" error) :=
      ends_recordFailure_named _ error
    cases error with
    | incomputable loop obstacle => exact ends_pure (isSpread_flagged .incomputable _)
    | _ =>
        refine recorded.bind (fun text named => ends_pure (isSpread_blamed ?_))
        subst named
        exact ⟨_, List.mem_singleton_self _⟩
  · exact ends_pure (isSpread_known value.isWide_promote)

theorem ends_spread (expression : BinaryTree) :
    Ends IsSpread (fun _ => True) (estimator.spread access expression) := by
  rw [spread]
  split
  · exact ends_pure (isSpread_flagged _ _)
  · exact ends_workingSet_spread _

theorem Computes.isAccountedFor {expression : BinaryTree} {nested : Value}
    (deferring : estimator.emitter.IsDeferring)
    (computes : estimator.Computes access expression nested turn estimate after) :
    estimate.IsAccountedFor estimator.resolver.invocation := by
  have surveyed := ends_sensitivities_surveyed _ |>.returned computes.axes
  have spread := ends_spread expression |>.returned computes.spread
  have counted := Emitter.isWide_of_combine deferring computes.multiplied
  rw [map_fst_sensitivityAxes] at surveyed
  rw [computes.made]
  exact
    { flags_length := spread.flags_length
      onAbsence := nofun
      onAxes := by
        intro _ axis counts
        refine (surveyed.onAxes axis (Invocation.mem_axes counts)).imp_right ?_
        refine fun blames => blames.mono ?_
        exact List.Subset.trans (List.subset_append_right _ _) (List.subset_append_left _ _)
      onSpread := by
        intro _
        refine spread.reason.imp_right (fun missing => ⟨missing.1, missing.2.imp_right ?_⟩)
        exact fun blames => blames.mono (List.subset_append_right _ _)
      isWide := by
        rintro value (same | found | ⟨axis, member⟩)
        · cases same
          exact counted
        · exact spread.isWide value found
        · exact surveyed.isWide (axis, value) member }

theorem Comes.flags_length (comes : estimator.Comes access turn estimate after) :
    estimate.flags.length ≤ 1 := by
  cases comes with
  | unanalyzable _ => exact Nat.le_refl 1
  | incomputable _ _ _ => exact Nat.le_refl 1
  | computable _ _ computed =>
      obtain ⟨computes⟩ := computes_of_quantities computed
      rw [computes.made]
      exact (ends_spread _ |>.returned computes.spread).flags_length

/-- Whatever way an access takes at its turn, its estimate is accounted for. -/
theorem Comes.isAccountedFor (deferring : estimator.emitter.IsDeferring)
    (comes : estimator.Comes access turn estimate after) :
    estimate.IsAccountedFor estimator.resolver.invocation := by
  cases comes with
  | unanalyzable _ =>
      exact Estimate.isAccountedFor_flagged _ _ _ _ (withReason_ne_nil _ _)
  | incomputable _ _ _ =>
      exact Estimate.isAccountedFor_flagged _ _ _ _
        (List.append_ne_nil_of_right_ne_nil _ (List.cons_ne_nil _ _))
  | computable _ _ computed =>
      obtain ⟨computes⟩ := computes_of_quantities computed
      exact computes.isAccountedFor deferring

end Estimator

/-- Every estimate that is returned has at most one flag, and gives a reason for every
quantity that is missing from it. -/
theorem isAccountedFor_of_estimateInvocation {catalogue : Catalogue} {settings : Settings}
    {resolver : Resolver} (deferring : resolver.emitter.IsDeferring) {start last : Progress}
    {map : EstimateMap} (returned : (estimateInvocation catalogue settings resolver).outcome start =
      (.ok map, last)) :
    ∀ estimate ∈ map.estimates, estimate.IsAccountedFor resolver.invocation := by
  rcases found : catalogue.find? resolver.invocation.kernel with cause | _ | kernel
  · rw [estimateInvocation, found] at returned
    cases returned
  · rw [estimateInvocation, found] at returned
    cases returned
    exact List.forall_mem_nil _
  · rw [outcome_estimateInvocation found] at returned
    intro estimate member
    obtain ⟨_, onEstimates⟩ := LoopNest.estimates_of_estimateKernel returned
    obtain ⟨access, _, estimator, turn, after, isTurn, comes⟩ := onEstimates estimate member
    have launched : estimator.resolver = resolver :=
      congrArg LoopNest.resolver isTurn.nest_eq
    subst launched
    exact comes.isAccountedFor deferring

/-- With its argument bound to a host loop, the launch of the faulty kernel has an access
without any quantity and another one without a working set, each with a reason. -/
theorem isAccountedFor_faulty :
    ∃ map last, (estimateInvocation [(.text "kernel", LoopNest.faulty)] {}
        (.sample (.loopVariable "i" 0 none 1))).outcome { sink := .absent } = (.ok map, last) ∧
      map.estimates.map (fun estimate =>
          (estimate.flags, estimate.executionCount.isSome, estimate.workingSet.isSome,
            estimate.sensitivities.map Prod.fst)) =
        [([.incomputable], false, false, []),
          ([], true, false, [.blockX, .blockY, .loop, .hostLoop])] ∧
      ∀ estimate ∈ map.estimates,
        estimate.IsAccountedFor (Resolver.sample (.loopVariable "i" 0 none 1)).invocation := by
  have results : ((estimateInvocation [(.text "kernel", LoopNest.faulty)] {}
      (.sample (.loopVariable "i" 0 none 1))).outcome { sink := .absent }).1.toOption.map
        (fun map => map.estimates.map (fun estimate =>
          (estimate.flags, estimate.executionCount.isSome, estimate.workingSet.isSome,
            estimate.sensitivities.map Prod.fst))) =
      some [([.incomputable], false, false, []),
        ([], true, false, [.blockX, .blockY, .loop, .hostLoop])] := by decide +kernel
  rcases returned : (estimateInvocation [(.text "kernel", LoopNest.faulty)] {}
      (.sample (.loopVariable "i" 0 none 1))).outcome { sink := .absent } with ⟨fault | map, last⟩
  · rw [returned] at results
    cases results
  · rw [returned] at results
    exact ⟨map, last, rfl, Option.some.inj results,
      isAccountedFor_of_estimateInvocation Emitter.isDeferring_symbolic returned⟩

end KernelFootprint
