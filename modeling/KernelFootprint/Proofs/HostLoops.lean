import KernelFootprint.Proofs.Displacement
import KernelFootprint.Proofs.ExecutionCount

/-!
# Sensitivities along host loops

A launch inside a host loop has an argument bound to the variable of the loop. An address of
sums and products that never multiplies this argument by itself moves by a fixed multiple of
what the variable moves by. The sensitivity along the host loop is this multiple: what the
address moves by when the variable moves by one. What it moves by from one iteration to the
next is the sensitivity times the step of the loop, which the sensitivity does not tell.
-/

namespace KernelFootprint

open Estimation

namespace Register

variable {Key Entry : Type} [BEq Key] [LawfulBEq Key] {key : Key} {entry : Entry}
  {entries : List (Key × Entry)}

/-- The only entry of a key. -/
theorem filter_eq_singleton_of_find (distinct : IsRegister entries)
    (found : find key entries = some entry) :
    entries.filter (fun other => other.1 == key) = [(key, entry)] := by
  induction entries with
  | nil => cases found
  | cons first rest ih =>
      obtain ⟨onFirst, onRest⟩ := List.pairwise_cons.mp distinct
      rw [find] at found
      split at found
      · next same =>
          cases eq_of_beq same
          cases found
          have none : rest.filter (fun other => other.1 == first.1) = [] := by
            rw [List.filter_eq_nil_iff]
            intro other member again
            have apart := onFirst other member
            rw [eq_of_beq again, beq_self_eq_true] at apart
            cases apart
          rw [List.filter_cons, if_pos same, none]
      · next different => rw [List.filter_cons, if_neg different, ih onRest found]

end Register

namespace Invocation

/-- A launch inside one host loop: an argument is bound to the variable of the loop, and all
others are bound to integers. -/
structure LoopsOver (invocation : Invocation) (formal : Int) (name : String) (initial : Int)
    (final : Option Value) (step : Int) : Prop where
  distinct : Register.IsRegister invocation.bindings
  bound : Register.find formal invocation.bindings =
    some (.loopVariable name (.int initial) final (.int step))
  others : ∀ entry ∈ invocation.bindings, entry.1 ≠ formal →
    ∃ value, entry.2 = .constant (.int value)

/-- The launch with another binding of an argument. -/
def rebind (invocation : Invocation) (formal : Int) (binding : Binding) : Invocation :=
  { invocation with bindings := Register.insert formal binding invocation.bindings }

variable {invocation : Invocation} {formal initial step : Int} {name : String}
  {final : Option Value}

theorem LoopsOver.hostLoops_eq (looped : invocation.LoopsOver formal name initial final step) :
    invocation.hostLoops = [(formal, .loopVariable name (.int initial) final (.int step))] := by
  have alone : invocation.loopBindings =
      [(formal, .loopVariable name (.int initial) final (.int step))] := by
    rw [← Register.filter_eq_singleton_of_find looped.distinct looped.bound, loopBindings]
    refine List.filter_congr (fun entry member => ?_)
    by_cases same : entry.1 = formal
    · have only := Register.filter_eq_singleton_of_find looped.distinct looped.bound
      have among : entry ∈ invocation.bindings.filter (fun other => other.1 == formal) :=
        List.mem_filter.mpr ⟨member, beq_iff_eq.mpr same⟩
      rw [only] at among
      rw [List.mem_singleton.mp among, beq_self_eq_true]
    · obtain ⟨value, constant⟩ := looped.others entry member same
      rw [constant, beq_eq_false_iff_ne.mpr same]
  rw [hostLoops, alone]
  rfl

end Invocation

namespace Resolver

/-- The launch with an argument bound to an integer. -/
def withArgument (resolver : Resolver) (formal x : Int) : Resolver :=
  { resolver with invocation := resolver.invocation.rebind formal (.constant (.int x)) }

/-- What is given for a token, if anything, is an integer. -/
def GivesInteger (resolver : Resolver) (text : Datum) : Prop :=
  ∃ given, resolver.unknown? text = .ok given ∧ ∀ value ∈ given, ∃ number, value = .int number

variable {resolver : Resolver} {formal : Int} {text : Datum}

theorem resolve_withArgument_self {number : Nat} (same : (number : Int) = formal)
    (free : resolver.unknown? text = .ok none) (x : Int) :
    (resolver.withArgument formal x).resolve text (.terminal (.argument number)) =
      .ok (.int x) := by
  have unread : (resolver.withArgument formal x).unknown? text = .ok none := free
  have bound : Register.find (number : Int)
      (resolver.withArgument formal x).invocation.bindings = some (.constant (.int x)) := by
    subst same
    exact Register.find_insert_self _ _ _
  rw [resolve, unread]
  change resolveArgument _ (.integer number) = _
  rw [resolveArgument, Datum.findNumbered_integer, bound]
  rfl

theorem resolveArgument_withArgument_of_ne {number : Nat} (different : (number : Int) ≠ formal)
    (x : Int) :
    (resolver.withArgument formal x).resolveArgument (.integer number) =
      resolver.resolveArgument (.integer number) := by
  have unmoved : Register.find (number : Int)
      (resolver.withArgument formal x).invocation.bindings =
        Register.find (number : Int) resolver.invocation.bindings :=
    Register.find_insert_of_ne different _ _
  rw [resolveArgument, resolveArgument, Datum.findNumbered_integer, Datum.findNumbered_integer,
    unmoved]
  rfl

/-- A node has an integer if what is given for its token is one, or else what it is worth
by itself. -/
theorem exists_resolve (given : resolver.GivesInteger text) {node : Terminal} {value : Int}
    (own : resolver.intrinsic text (.terminal node) = .ok (.int value)) :
    ∃ number, resolver.resolve text (.terminal node) = .ok (.int number) := by
  obtain ⟨given, found, integers⟩ := given
  cases given with
  | none =>
      refine ⟨value, ?_⟩
      rw [resolve, found]
      exact own
  | some other =>
      obtain ⟨number, rfl⟩ := integers other rfl
      exact ⟨number, resolve_of_unknown found _⟩

/-- All arguments but that of the host loop are worth integers. -/
theorem exists_resolveArgument {name : String} {initial step : Int} {final : Option Value}
    (looped : resolver.invocation.LoopsOver formal name initial final step) {number : Nat}
    (different : (number : Int) ≠ formal) {binding : Binding}
    (bound : Register.find (number : Int) resolver.invocation.bindings = some binding) :
    ∃ value, resolver.resolveArgument (.integer number) = .ok (.int value) := by
  obtain ⟨value, rfl⟩ := looped.others _ (Register.mem_of_find_eq_some bound) different
  refine ⟨value, ?_⟩
  rw [resolveArgument, Datum.findNumbered_integer, bound]
  rfl

end Resolver

namespace BinaryTree

/-- The nodes of an argument. -/
def occurrences (formal : Int) : Mark := ⟨.argument, .integer formal⟩

/-- An address of literals, arguments with integers, sums and products, with an argument
that is never multiplied by itself. -/
inductive IsAffineAlong (resolver : Resolver) (formal : Int) : BinaryTree → Prop
  | literal {text : Datum} {value : Int} (given : resolver.GivesInteger text) :
      IsAffineAlong resolver formal (.leaf text (.terminal (.constant value)))
  | occurrence {text : Datum} {number : Nat} (same : (number : Int) = formal)
      (free : resolver.unknown? text = .ok none) :
      IsAffineAlong resolver formal (.leaf text (.terminal (.argument number)))
  | bound {text : Datum} {number : Nat} {binding : Binding} (different : (number : Int) ≠ formal)
      (given : resolver.GivesInteger text)
      (found : Register.find (number : Int) resolver.invocation.bindings = some binding) :
      IsAffineAlong resolver formal (.leaf text (.terminal (.argument number)))
  | sum {text : String} {operation : Operation} {left right : BinaryTree}
      (additive : operation = .add ∨ operation = .or)
      (onLeft : IsAffineAlong resolver formal left)
      (onRight : IsAffineAlong resolver formal right) :
      IsAffineAlong resolver formal (.branch text operation left right)
  | product {text : String} {left right : BinaryTree}
      (single : ¬ (left.Holds (occurrences formal) ∧ right.Holds (occurrences formal)))
      (onLeft : IsAffineAlong resolver formal left)
      (onRight : IsAffineAlong resolver formal right) :
      IsAffineAlong resolver formal (.branch text .mul left right)

variable {resolver : Resolver} {formal : Int} {tree : BinaryTree}

theorem isOn_occurrences {number : Nat} :
    (occurrences formal).isOn (.terminal (.argument number)) = true ↔ (number : Int) = formal := by
  change (true && (false || (Datum.integer number == .integer formal))) = true ↔ _
  rw [Bool.true_and, Bool.false_or, Datum.beq_integer, beq_iff_eq]

theorem not_isOn_occurrences (operation : Operation) :
    ¬ (occurrences formal).isOn (.operation operation none) = true := by
  cases operation <;> nofun

theorem IsAffineAlong.carries (affine : tree.IsAffineAlong resolver formal) :
    tree.Carries (occurrences formal) := by
  induction affine with
  | literal _ => trivial
  | occurrence _ _ => trivial
  | bound _ _ _ => trivial
  | sum additive _ _ leftIH rightIH =>
      rcases additive with rfl | rfl <;>
      · rw [Carries, if_neg (not_isOn_occurrences _)]
        refine ⟨fun _ => trivial, fun _ => trivial, ?_, leftIH, rightIH⟩
        intro isProduct
        cases isProduct
  | product single _ _ leftIH rightIH =>
      rw [Carries, if_neg (not_isOn_occurrences .mul)]
      exact ⟨fun _ => trivial, fun _ => trivial, fun _ => single, leftIH, rightIH⟩

/-- The address for every value of an argument. -/
structure HasAddress (resolver : Resolver) (formal : Int) (tree : BinaryTree)
    (address : Int → Int) : Prop where
  evaluated : ∀ x, (resolver.withArgument formal x).evaluate tree = pure (.int (address x))
  displaced : ∀ x y, Displaced resolver (occurrences formal) (y - x) tree (address x) (address y)

theorem HasAddress.branch {left right : BinaryTree} {first second : Int → Int} {text : String}
    {operation : Operation} {op : WordOp} {result : Int → Int → Int}
    (onLeft : HasAddress resolver formal left first)
    (onRight : HasAddress resolver formal right second)
    (read : operation.wordOp? = some op)
    (folded : ∀ a b, op.fold .wide a b = .ok (result a b)) :
    HasAddress resolver formal (.branch text operation left right)
      (fun x => result (first x) (second x)) where
  evaluated x :=
    evaluate_branch_of_fold read (onLeft.evaluated x) (onRight.evaluated x) (folded _ _)
  displaced x y :=
    .branch (not_isOn_occurrences operation) read (onLeft.displaced x y) (onRight.displaced x y)
      (folded _ _) (folded _ _)

/-- A node that is none of the argument has the same integer for all its values. -/
theorem exists_hasAddress_of_resolve {text : Datum} {node : Terminal} {value : Int}
    (given : resolver.GivesInteger text)
    (apart : ¬ (occurrences formal).isOn (.terminal node) = true)
    (own : resolver.intrinsic text (.terminal node) = .ok (.int value))
    (unmoved : ∀ x, (resolver.withArgument formal x).intrinsic text (.terminal node) =
      resolver.intrinsic text (.terminal node)) :
    ∃ address, HasAddress resolver formal (.leaf text (.terminal node)) address := by
  obtain ⟨number, resolved⟩ := Resolver.exists_resolve given own
  have still (x : Int) :
      (resolver.withArgument formal x).resolve text (.terminal node) = .ok (.int number) := by
    rw [← resolved, Resolver.resolve, Resolver.resolve, unmoved]
    rfl
  refine ⟨fun _ => number, fun x => evaluate_of_resolve (still x), fun x y => ?_⟩
  refine .free ?_ (evaluate_of_resolve resolved)
  rw [holds_leaf]
  exact apart

/-- The address is an integer for every value of the argument, and where the argument is
moved, its nodes are. -/
theorem IsAffineAlong.exists_hasAddress {name : String} {initial step : Int}
    {final : Option Value}
    (looped : resolver.invocation.LoopsOver formal name initial final step)
    (affine : tree.IsAffineAlong resolver formal) :
    ∃ address, HasAddress resolver formal tree address := by
  induction affine with
  | literal given => exact exists_hasAddress_of_resolve given nofun rfl (fun _ => rfl)
  | @occurrence text number same free =>
      refine ⟨id, fun x => ?_, fun x y => ?_⟩
      · exact evaluate_of_resolve (Resolver.resolve_withArgument_self same free x)
      · exact .marked (isOn_occurrences.mpr same) rfl
  | bound different given found =>
      obtain ⟨value, resolved⟩ := Resolver.exists_resolveArgument looped different found
      refine exists_hasAddress_of_resolve given ?_ resolved
        (Resolver.resolveArgument_withArgument_of_ne different)
      rw [isOn_occurrences]
      exact different
  | sum additive _ _ leftIH rightIH =>
      obtain ⟨first, onLeft⟩ := leftIH
      obtain ⟨second, onRight⟩ := rightIH
      rcases additive with rfl | rfl <;>
        exact ⟨_, onLeft.branch onRight rfl WordOp.fold_add⟩
  | product _ _ _ leftIH rightIH =>
      obtain ⟨first, onLeft⟩ := leftIH
      obtain ⟨second, onRight⟩ := rightIH
      exact ⟨_, onLeft.branch onRight rfl WordOp.fold_mul⟩

/-- The stride along the argument is the slope of the address. -/
theorem HasAddress.exists_stride {address : Int → Int}
    (hasAddress : HasAddress resolver formal tree address)
    (carries : tree.Carries (occurrences formal)) :
    ∃ stride : Int,
      AddressTree.strideAlong resolver .argument (.integer formal) (.binary tree) =
        pure (.int stride) ∧
      ∀ x y, address y - address x ≡ stride * (y - x) [ZMOD 2 ^ 64] := by
  have moves (x y : Int) := (hasAddress.displaced x y).movesBySlope carries
  obtain ⟨_, _, strides⟩ := moves 0 1
  obtain ⟨known, onPlaces, _⟩ := strides 0 [] 1 (Stride.scales_nil resolver)
  refine ⟨_, Stride.strideAlong_of_hasStride onPlaces, ?_⟩
  intro x y
  obtain ⟨slope, modEq, strides⟩ := moves x y
  obtain ⟨others, onSame, sum⟩ := strides 0 [] 1 (Stride.scales_nil resolver)
  have unique : Relator.RightUnique (Stride.HasStride resolver) :=
    fun place first second once again => Analysis.pure_int_injective (once.symm.trans again)
  rw [Int.one_mul, ← List.right_unique_forall₂' unique onPlaces onSame] at sum
  exact modEq.trans ((sum.symm.trans (wrapWide_modEq _).symm).mul_right _)

end BinaryTree

namespace Estimator

variable {estimator : Estimator} {access : AccessRecord} {turn after : Progress}
  {axes : List (SensitivityAxis × Analysis Value)} {values : List (SensitivityAxis × Value)}
  {errors : List String} {axis : SensitivityAxis}

/-- How the sensitivity along the first axis, or the error about it, comes before the rest. -/
theorem sensitivities_cons_eq_ok {compute : Analysis Value}
    (returned : (estimator.sensitivities access ((axis, compute) :: axes)).outcome turn =
      (.ok (values, errors), after)) :
    ∃ middle rest others, (estimator.sensitivities access axes).outcome middle =
        (.ok (rest, others), after) ∧
      ((∃ value last, compute.outcome turn.ledger = (.ok value, last) ∧
          values = (axis, value.promote .wide) :: rest) ∨
        ((∃ error last, compute.outcome turn.ledger = (.error error, last)) ∧ values = rest)) := by
  rw [sensitivities] at returned
  obtain ⟨outcome, middle, attempted, returned⟩ := outcome_bind_eq_ok.mp returned
  rw [outcome_attemptAnalysis] at attempted
  rcases computed : compute.outcome turn.ledger with ⟨(error | cause) | value, last⟩
  · rw [computed] at attempted
    cases attempted
    obtain ⟨text, recorded, _, returned⟩ := outcome_bind_eq_ok.mp returned
    obtain ⟨⟨rest, others⟩, _, onRest, same⟩ := outcome_bind_eq_ok.mp returned
    cases same
    exact ⟨_, _, _, onRest, .inr ⟨⟨_, _, rfl⟩, rfl⟩⟩
  · rw [computed] at attempted
    cases attempted
  · rw [computed] at attempted
    cases attempted
    obtain ⟨⟨rest, others⟩, _, onRest, same⟩ := outcome_bind_eq_ok.mp returned
    cases same
    exact ⟨_, _, _, onRest, .inl ⟨_, _, rfl, rfl⟩⟩

/-- An axis with a known integer has it for its sensitivity. -/
theorem mem_sensitivities {number : Int}
    (returned : (estimator.sensitivities access axes).outcome turn = (.ok (values, errors), after))
    (member : (axis, pure (.int number)) ∈ axes) : (axis, .int (wrapWide number)) ∈ values := by
  induction axes generalizing turn values errors with
  | nil => cases member
  | cons first rest ih =>
      obtain ⟨middle, found, others, onRest, own⟩ := sensitivities_cons_eq_ok returned
      rcases List.mem_cons.mp member with rfl | inRest
      · rcases own with ⟨value, last, computed, rfl⟩ | ⟨⟨error, last, computed⟩, _⟩
        · cases computed
          exact List.mem_cons_self ..
        · cases computed
      · have among := ih onRest inRest
        rcases own with ⟨value, last, computed, rfl⟩ | ⟨_, rfl⟩
        · exact List.mem_cons_of_mem _ among
        · exact among

/-- Every sensitivity was computed for its axis. -/
theorem exists_of_mem_sensitivities {value : Value}
    (returned : (estimator.sensitivities access axes).outcome turn = (.ok (values, errors), after))
    (member : (axis, value) ∈ values) :
    ∃ compute found before last, (axis, compute) ∈ axes ∧
      compute.outcome before = (.ok found, last) ∧ value = found.promote .wide := by
  induction axes generalizing turn values errors with
  | nil =>
      cases returned
      cases member
  | cons first rest ih =>
      obtain ⟨middle, found, others, onRest, own⟩ := sensitivities_cons_eq_ok returned
      have later (inRest : (axis, value) ∈ found) :
          ∃ compute found before last, (axis, compute) ∈ first :: rest ∧
            compute.outcome before = (.ok found, last) ∧ value = found.promote .wide := by
        obtain ⟨compute, result, before, last, among, computed, promoted⟩ := ih onRest inRest
        exact ⟨compute, result, before, last, List.mem_cons_of_mem _ among, computed, promoted⟩
      rcases own with ⟨own, last, computed, rfl⟩ | ⟨_, rfl⟩
      · rcases List.mem_cons.mp member with same | inRest
        · cases same
          exact ⟨first.2, own, turn.ledger, last, List.mem_cons_self .., computed, rfl⟩
        · exact later inRest
      · exact later member

variable {expression : BinaryTree} {formal initial step : Int} {name : String}
  {final : Option Value}

theorem hostLoopStride_of_strideAlong {stride : Int}
    (strided : AddressTree.strideAlong estimator.resolver .argument (.integer formal)
      (.binary expression) = pure (.int stride)) :
    estimator.hostLoopStride expression.places [formal] =
      pure (.int (wrapWide (0 + stride))) := by
  have along : Stride.along estimator.strideValuation expression.places .argument
      (.integer formal) = pure (.int stride) := strided
  have added := estimator.emitter.combine_of_fold (WordOp.fold_add 0 stride)
  change (Stride.along _ _ _ _ >>= estimator.emitter.combine .add (.int 0)) >>= pure = _
  rw [along, pure_bind, added, pure_bind]

/-- A launch in one host loop has one more axis. -/
theorem mem_sensitivityAxes_hostLoop
    (looped : estimator.resolver.invocation.LoopsOver formal name initial final step)
    {compute : Analysis Value} :
    (.hostLoop, compute) ∈ estimator.sensitivityAxes expression ↔
      compute = estimator.hostLoopStride expression.places [formal] := by
  rw [sensitivityAxes, looped.hostLoops_eq]
  simp

end Estimator

/-- A change in steps is the change by one only if the other steps make no difference. -/
theorem modEq_change_iff {slope step change : Int}
    (moved : change ≡ slope * step [ZMOD 2 ^ 64]) :
    slope ≡ change [ZMOD 2 ^ 64] ↔ slope * (step - 1) ≡ 0 [ZMOD 2 ^ 64] := by
  constructor
  · intro same
    calc slope * (step - 1) = slope * step - slope := by ring
      _ ≡ change - change [ZMOD 2 ^ 64] := moved.symm.sub same
      _ = 0 := Int.sub_self change
  · intro none
    calc slope = slope * step - slope * (step - 1) := by ring
      _ ≡ change - 0 [ZMOD 2 ^ 64] := moved.symm.sub none
      _ = change := Int.sub_zero change

namespace Estimate

/-- What an estimate of an access says about the host loop: the sensitivity is what the
address moves by if the argument moves by one. It is what the address moves by in the first
iteration only if the steps beyond one make no difference. -/
structure MovesAlongHostLoop (estimate : Estimate) (resolver : Resolver) (formal initial step : Int)
    (expression : BinaryTree) (sensitivity : Int) (address : Int → Int) : Prop where
  present : ∀ value, (.hostLoop, value) ∈ estimate.sensitivities ↔ value = .int sensitivity
  evaluated : ∀ x,
    (resolver.withArgument formal x).evaluate expression = pure (.int (address x))
  moves : ∀ x y, address y - address x ≡ sensitivity * (y - x) [ZMOD 2 ^ 64]
  perIteration : sensitivity ≡ address (initial + step) - address initial [ZMOD 2 ^ 64] ↔
    sensitivity * (step - 1) ≡ 0 [ZMOD 2 ^ 64]

end Estimate

namespace Estimator

variable {estimator : Estimator} {access : AccessRecord} {turn after : Progress}
  {estimate : Estimate} {expression : BinaryTree} {formal initial step : Int} {name : String}
  {final : Option Value}

theorem Comes.movesAlongHostLoop (comes : estimator.Comes access turn estimate after)
    (looped : estimator.resolver.invocation.LoopsOver formal name initial final step)
    (counted : estimate.executionCount.isSome) (present : access.expression = some expression)
    (affine : expression.IsAffineAlong estimator.resolver formal) :
    ∃ sensitivity address, estimate.MovesAlongHostLoop estimator.resolver formal initial step
      expression sensitivity address := by
  cases comes with
  | unanalyzable _ => cases counted
  | incomputable _ _ _ => cases counted
  | @computable other nested middle _ _ analyzed walked computed =>
      obtain ⟨same, -, -⟩ := analyzable_eq_ok.mp analyzed
      cases present.symm.trans same
      obtain ⟨computes⟩ := computes_of_quantities computed
      obtain ⟨address, hasAddress⟩ := affine.exists_hasAddress looped
      obtain ⟨stride, strided, moves⟩ := hasAddress.exists_stride affine.carries
      have onAxis := hostLoopStride_of_strideAlong strided
      have modEq : wrapWide (wrapWide (0 + stride)) ≡ stride [ZMOD 2 ^ 64] := by
        rw [Int.zero_add]
        exact (wrapWide_modEq _).trans (wrapWide_modEq _)
      refine ⟨wrapWide (wrapWide (0 + stride)), address, ?_, hasAddress.evaluated, ?_, ?_⟩
      · have made : estimate.sensitivities = computes.sensitivities :=
          congrArg Estimate.sensitivities computes.made
        intro value
        rw [made]
        constructor
        · intro member
          obtain ⟨compute, found, before, last, among, outcome, rfl⟩ :=
            exists_of_mem_sensitivities computes.axes member
          rw [(mem_sensitivityAxes_hostLoop looped).mp among, onAxis] at outcome
          cases outcome
          rfl
        · rintro rfl
          refine mem_sensitivities computes.axes ?_
          exact (mem_sensitivityAxes_hostLoop looped).mpr onAxis.symm
      · exact fun x y => (moves x y).trans (modEq.symm.mul_right _)
      · refine modEq_change_iff ?_
        have byStep := (moves initial (initial + step)).trans (modEq.symm.mul_right _)
        rwa [add_sub_cancel_left] at byStep

end Estimator

/-- The sensitivity along the host loop around a launch is what the address of an access
moves by if the variable of the loop moves by one, whatever the step of the loop is. -/
theorem movesAlongHostLoop_of_estimateInvocation {catalogue : Catalogue} {settings : Settings}
    {resolver : Resolver} {kernel : KernelRecord}
    (catalogued : catalogue.find? resolver.invocation.kernel = .ok (some kernel))
    {formal initial step : Int} {name : String} {final : Option Value}
    (looped : resolver.invocation.LoopsOver formal name initial final step)
    {start last : Progress} {map : EstimateMap}
    (returned : (estimateInvocation catalogue settings resolver).outcome start =
      (.ok map, last)) :
    ∀ entry ∈ kernel.accesses,
      (∀ other ∈ kernel.accesses, other.2.id = entry.2.id → other.2 = entry.2) →
        ∀ expression, entry.2.expression = some expression →
          expression.IsAffineAlong resolver formal →
            ∀ estimate ∈ map.estimates, estimate.key.access = entry.2.id →
              estimate.executionCount.isSome →
                ∃ sensitivity address, estimate.MovesAlongHostLoop resolver formal initial step
                  expression sensitivity address := by
  rw [outcome_estimateInvocation catalogued] at returned
  intro entry _ only expression present affine estimate member named counted
  obtain ⟨_, onEstimates⟩ := LoopNest.estimates_of_estimateKernel returned
  obtain ⟨access, among, estimator, turn, after, isTurn, comes⟩ := onEstimates estimate member
  obtain ⟨number, inside⟩ := LoopNest.mem_accesses.mp among
  have launched : estimator.resolver = resolver := congrArg LoopNest.resolver isTurn.nest_eq
  subst launched
  have keyed : estimate.key.access = access.id := by
    rw [comes.key_eq]
    rfl
  have same : access = entry.2 := only (number, access) inside (keyed.symm.trans named)
  subst same
  exact comes.movesAlongHostLoop looped counted present affine

namespace BinaryTree

/-- The word with the number of its argument. -/
def word : BinaryTree :=
  combine .add (combine .mul (.leaf (.text "ARG0") (.terminal (.argument 0))) (constant 4))
    (constant 100)

theorem isAffineAlong_word (argument : Binding) :
    word.IsAffineAlong (Resolver.sample argument) 0 := by
  have given (text : String) : (Resolver.sample argument).GivesInteger (.text text) :=
    ⟨none, rfl, nofun⟩
  exact .sum (.inl rfl)
    (.product (by decide) (.occurrence rfl rfl) (.literal (given "4"))) (.literal (given "100"))

end BinaryTree

/-- A kernel with a single access, outside loops. -/
def KernelRecord.ofWord : KernelRecord where
  name := .text "kernel"
  accesses :=
    [(1, { kernel := .text "kernel", id := 1, allocationArg := 0, loop := 0, condition := 0
           conditionKind := .null, expression := some .word, tree := none, buildErrors := [] })]

/-- A launch in a host loop that counts up from 0 in steps of 2. -/
def Resolver.striding : Resolver := .sample (.loopVariable "i" 0 none 2)

theorem Resolver.loopsOver_striding : striding.invocation.LoopsOver 0 "i" 0 none 2 where
  distinct := List.pairwise_singleton _ _
  bound := rfl
  others := by
    intro entry member different
    cases List.mem_singleton.mp member
    exact absurd rfl different

/-- The access of an estimate, whether there is an execution count, and the sensitivity
along a host loop. -/
def Estimate.outline (estimate : Estimate) : Int × Bool × Option Int :=
  (estimate.key.access, estimate.executionCount.isSome,
    (estimate.sensitivities.lookup .hostLoop).bind Value.integer?)

theorem outline_striding :
    ∃ map last, (estimateInvocation [(.text "kernel", .ofWord)] {} .striding).outcome
        { sink := .absent } = (.ok map, last) ∧
      map.estimates.map Estimate.outline = [(1, true, some 4)] := by
  have results : ((estimateInvocation [(.text "kernel", .ofWord)] {} .striding).outcome
      { sink := .absent }).1.toOption.map (fun map => map.estimates.map Estimate.outline) =
      some [(1, true, some 4)] := by decide +kernel
  rcases returned : (estimateInvocation [(.text "kernel", .ofWord)] {} .striding).outcome
      { sink := .absent } with ⟨fault | map, last⟩
  · rw [returned] at results
    cases results
  · rw [returned] at results
    exact ⟨map, last, rfl, Option.some.inj results⟩

/-- The only access of the kernel has an estimate with an execution count. -/
theorem movesAlongHostLoop_striding :
    ∃ map last, (estimateInvocation [(.text "kernel", .ofWord)] {} .striding).outcome
        { sink := .absent } = (.ok map, last) ∧ map.estimates ≠ [] ∧
      ∀ estimate ∈ map.estimates, ∃ sensitivity address,
        estimate.MovesAlongHostLoop .striding 0 0 2 .word sensitivity address := by
  obtain ⟨map, last, returned, results⟩ := outline_striding
  refine ⟨map, last, returned, ?_, ?_⟩
  · intro none
    rw [none] at results
    cases results
  · intro estimate member
    have among := List.mem_map_of_mem (f := Estimate.outline) member
    rw [results, List.mem_singleton] at among
    have named : estimate.key.access = 1 := congrArg Prod.fst among
    have counted : estimate.executionCount.isSome = true :=
      congrArg (fun outline => outline.2.1) among
    refine movesAlongHostLoop_of_estimateInvocation rfl Resolver.loopsOver_striding returned
      (1, _) (List.mem_singleton.mpr rfl) ?_ .word rfl (BinaryTree.isAffineAlong_word _) estimate
      member named counted
    intro other among _
    rw [List.mem_singleton.mp among]

/-- The address moves by 8 in the first iteration, while the sensitivity is 4. -/
theorem hostLoop_ne_change :
    ∃ map last, (estimateInvocation [(.text "kernel", .ofWord)] {} .striding).outcome
        { sink := .absent } = (.ok map, last) ∧
      map.estimates.map Estimate.outline = [(1, true, some 4)] ∧
      ((Resolver.striding.withArgument 0 0).evaluate .word).outcome {} = (.ok (.int 100), {}) ∧
      ((Resolver.striding.withArgument 0 (0 + 2)).evaluate .word).outcome {} =
        (.ok (.int 108), {}) ∧
      ¬ (4 ≡ 108 - 100 [ZMOD 2 ^ 64]) := by
  obtain ⟨map, last, returned, results⟩ := outline_striding
  exact ⟨map, last, returned, results, by cbv, by cbv, by decide⟩

end KernelFootprint
