import KernelFootprint.Proofs.Sensitivity
import Mathlib.Data.List.Forall2

/-!
# Strides of a difference

The stride along a node takes in the factors and divisors above it. A sum or a difference
is neither: below one of them every node keeps its stride, to the right of a difference as
well as to its left. An address that is a difference moves by the difference of the strides
of its operands, but its own stride is their sum. The two agree only where twice the second
stride vanishes modulo 2 ^ 64.
-/

namespace KernelFootprint

section Moved

variable {Tree : Type}

/-- A site in a tree whose nodes are numbered from an offset on. -/
def Site.moved (offset : Nat) (site : Site Tree) : Site Tree :=
  { site with index := site.index + offset }

def Step.moved (offset : Nat) (step : Step Tree) : Step Tree :=
  { step with
    index := step.index + offset
    operands := step.operands.map (Site.moved offset)
    child := step.child + offset }

/-- A place of an operand as a place of the tree above it. -/
def Place.below (offset : Nat) (step : Step Tree) (place : Place Tree) : Place Tree :=
  { place with
    site := place.site.moved offset
    path := place.path.map (Step.moved offset) ++ [step] }

theorem Step.comesFrom_moved (offset : Nat) (step : Step Tree) (operand : Site Tree) :
    (step.moved offset).comesFrom (operand.moved offset) = step.comesFrom operand := by
  rw [Bool.eq_iff_iff]
  simp only [comesFrom, moved, Site.moved, beq_iff_eq]
  omega

theorem Step.siblings_moved (offset : Nat) (step : Step Tree) :
    (step.moved offset).siblings = step.siblings.map (Site.moved offset) := by
  change (step.operands.map (Site.moved offset)).filter
    (fun operand => !(step.moved offset).comesFrom operand) = _
  rw [List.filter_map]
  congr 2
  funext operand
  exact congrArg not (step.comesFrom_moved offset operand)

theorem placesOf_append (first second : List (Place Tree)) (kind : Kind) (arg : Datum) :
    placesOf (first ++ second) kind arg = placesOf first kind arg ++ placesOf second kind arg :=
  List.filter_append ..

theorem placesOf_below (offset : Nat) (step : Step Tree) (places : List (Place Tree))
    (kind : Kind) (arg : Datum) :
    placesOf (places.map (Place.below offset step)) kind arg =
      (placesOf places kind arg).map (Place.below offset step) := by
  rw [placesOf, List.filter_map]
  rfl

end Moved

namespace BinaryTree

/-- The places of an operand are those of the operand as a tree of its own, below one more
step. -/
theorem placesFrom_below (tree : BinaryTree) (first offset : Nat)
    (path : List (Step BinaryTree)) (step : Step BinaryTree) :
    tree.placesFrom (first + offset) (path.map (Step.moved offset) ++ [step]) =
      (tree.placesFrom first path).map (Place.below offset step) := by
  induction tree generalizing first path with
  | leaf text symbol => rfl
  | branch text operation left right leftIH rightIH =>
      have leftPos := left.size_pos
      have rightPos := right.size_pos
      have stepped (child : Int) :
          stepFrom (first + offset) text operation left right (child + offset) =
            (stepFrom first text operation left right child).moved offset := by
        simp only [stepFrom, Step.moved, Site.moved, List.map_cons, List.map_nil, Step.mk.injEq,
          List.cons.injEq, Site.mk.injEq, and_true, true_and]
        omega
      have toLeft := leftIH first
        (stepFrom first text operation left right (((first + left.size : Nat) : Int) - 1) :: path)
      have toRight := rightIH (first + left.size)
        (stepFrom first text operation left right
          (((first + left.size + right.size : Nat) : Int) - 1) :: path)
      rw [List.map_cons, ← stepped, List.cons_append] at toLeft toRight
      rw [placesFrom_branch, placesFrom_branch, List.map_cons, List.map_append, ← toLeft,
        ← toRight]
      have second : first + offset + left.size = first + left.size + offset := by omega
      have own : first + offset + left.size + right.size =
          first + left.size + right.size + offset := by omega
      have leftChild : (((first + left.size + offset : Nat) : Int) - 1) =
          ((first + left.size : Nat) : Int) - 1 + offset := by omega
      have rightChild : (((first + left.size + right.size + offset : Nat) : Int) - 1) =
          ((first + left.size + right.size : Nat) : Int) - 1 + offset := by omega
      rw [own, second, leftChild, rightChild]
      rfl

section Branches

variable (text : String) (operation : Operation) (left right : BinaryTree)

def rootPlace : Place BinaryTree where
  site := ⟨0 + left.size + right.size, branch text operation left right⟩
  text := .text text
  symbol := .operation operation none
  path := []

theorem places_branch :
    (branch text operation left right).places =
      [rootPlace text operation left right] ++
        (left.places.map (Place.below 0
            (stepFrom 0 text operation left right (((0 + left.size : Nat) : Int) - 1))) ++
          right.places.map (Place.below left.size
            (stepFrom 0 text operation left right
              (((0 + left.size + right.size : Nat) : Int) - 1)))) := by
  rw [places, placesFrom_branch, places, places, ← placesFrom_below, ← placesFrom_below]
  rfl

end Branches

end BinaryTree

namespace Stride

section Moved

variable {Tree Item : Type}

def Factor.moved (offset : Nat) (factor : Factor Tree) : Factor Tree :=
  { factor with site := factor.site.moved offset }

theorem operandPair_moved (offset : Nat) (step : Step Tree) :
    operandPair (step.moved offset) =
      (operandPair step).map (Prod.map (Site.moved offset) (Site.moved offset)) := by
  obtain ⟨index, text, symbol, operands, child⟩ := step
  match operands with
  | [] => rfl
  | [only] => rfl
  | [first, second] => rfl
  | first :: second :: third :: rest => rfl

theorem factorsOfStep_moved (text : String) (offset : Nat) (step : Step Tree) :
    factorsOfStep text (step.moved offset) =
      (factorsOfStep text step).map (List.map (Factor.moved offset)) := by
  have unmoved : (step.moved offset).symbol = step.symbol := rfl
  rw [factorsOfStep, factorsOfStep, unmoved]
  split
  · rw [Step.siblings_moved, List.map_map]
    change _ = Except.ok ((step.siblings.map _).map (Factor.moved offset))
    rw [List.map_map]
    rfl
  · rw [operandPair_moved]
    rcases operandPair step with fault | ⟨shifted, amount⟩
    · rfl
    · change (if (step.moved offset).comesFrom (shifted.moved offset) = true then _ else _) =
        Except.map _ (if step.comesFrom shifted = true then _ else _)
      rw [Step.comesFrom_moved]
      cases step.comesFrom shifted <;> rfl
  · rfl

theorem divisorsOfStep_moved (text : String) (offset : Nat) (step : Step Tree) :
    divisorsOfStep text (step.moved offset) =
      (divisorsOfStep text step).map (List.map (Site.moved offset)) := by
  have unmoved : (step.moved offset).symbol = step.symbol := rfl
  rw [divisorsOfStep, divisorsOfStep, unmoved]
  split
  · rw [operandPair_moved]
    rcases operandPair step with fault | ⟨dividend, divisor⟩
    · rfl
    · change (if (step.moved offset).comesFrom (dividend.moved offset) = true then _ else _) =
        Except.map _ (if step.comesFrom dividend = true then _ else _)
      rw [Step.comesFrom_moved]
      cases step.comesFrom dividend <;> rfl
  · rfl

variable {contribution : Step Tree → Except Fault (List Item)}

theorem gather_map {move : Step Tree → Step Tree} {carry : Item → Item}
    (each : ∀ step, contribution (move step) = (contribution step).map (List.map carry))
    (path : List (Step Tree)) :
    gather contribution (path.map move) = (gather contribution path).map (List.map carry) := by
  induction path with
  | nil => rfl
  | cons step rest ih =>
      rw [List.map_cons, gather, gather, each, ih]
      rcases contribution step with fault | items
      · rfl
      · rcases gather contribution rest with fault | others
        · rfl
        · exact congrArg Except.ok (List.map_append ..).symm

/-- A last step that contributes nothing changes nothing. -/
theorem gather_concat {step : Step Tree} (nothing : contribution step = .ok [])
    (path : List (Step Tree)) :
    gather contribution (path ++ [step]) = gather contribution path := by
  induction path with
  | nil =>
      simp only [List.nil_append, gather, nothing]
      rfl
  | cons other rest ih => rw [List.cons_append, gather, gather, ih]

/-- Whether neither factors nor divisors are taken in at a step. -/
structure IsPassed (step : Step Tree) : Prop where
  factors : ∀ text, factorsOfStep text step = .ok []
  divisors : ∀ text, divisorsOfStep text step = .ok []

theorem factors_below {step : Step Tree} (passed : IsPassed step) (offset : Nat)
    (place : Place Tree) :
    factors (place.below offset step) =
      (factors place).map (List.map (Factor.moved offset)) := by
  change gather (factorsOfStep place.text.shown)
    (place.path.map (Step.moved offset) ++ [step]) = _
  rw [gather_concat (passed.factors _), gather_map (factorsOfStep_moved _ offset)]
  rfl

theorem divisors_below {step : Step Tree} (passed : IsPassed step) (offset : Nat)
    (place : Place Tree) :
    divisors (place.below offset step) =
      (divisors place).map (List.map (Site.moved offset)) := by
  change gather (divisorsOfStep place.text.shown)
    (place.path.map (Step.moved offset) ++ [step]) = _
  rw [gather_concat (passed.divisors _), gather_map (divisorsOfStep_moved _ offset)]
  rfl

/-- The stride along a node of an operand does not change below a step that is passed. -/
theorem coefficient_below {valuation : Valuation Tree} {offset : Nat}
    (unnumbered : ∀ site, valuation.value (site.moved offset) = valuation.value site)
    {step : Step Tree} (passed : IsPassed step) (place : Place Tree) :
    coefficient valuation (place.below offset step) = coefficient valuation place := by
  have multiplied (total : Value) (factor : Factor Tree) :
      multiply valuation total (factor.moved offset) = multiply valuation total factor := by
    rw [multiply, multiply, Factor.moved, unnumbered]
  have divided (total : Value) (divisor : Site Tree) :
      divide valuation total (divisor.moved offset) = divide valuation total divisor := by
    rw [divide, divide, unnumbered]
  rw [coefficient, coefficient, factors_below passed, divisors_below passed]
  rcases factors place with fault | found
  · rfl
  · change (found.map (Factor.moved offset)).foldlM (multiply valuation) 1 >>= _ =
      found.foldlM (multiply valuation) 1 >>= _
    rw [List.foldlM_map]
    simp only [multiplied]
    rcases divisors place with fault | divisors
    · rfl
    · refine congrArg (found.foldlM (multiply valuation) 1 >>= ·) (funext fun product => ?_)
      change (divisors.map (Site.moved offset)).foldlM (divide valuation) product =
        divisors.foldlM (divide valuation) product
      rw [List.foldlM_map]
      simp only [divided]

end Moved

/-- A fold step that comes to an integer from an integer only, and does so whatever the
ledger holds. -/
def IsStrict {Item : Type} (step : Value → Item → Analysis Value) : Prop :=
  ∀ ⦃total item ledger after⦄ ⦃value : Int⦄,
    (step total item).outcome ledger = (.ok (.int value), after) →
      (∃ start : Int, total = .int start) ∧ step total item = pure (.int value)

theorem IsStrict.foldlM {Item : Type} {step : Value → Item → Analysis Value}
    (strict : IsStrict step) {items : List Item} {total : Value} {ledger after : Ledger}
    {value : Int}
    (returned : (items.foldlM step total).outcome ledger = (.ok (.int value), after)) :
    (∃ start : Int, total = .int start) ∧ items.foldlM step total = pure (.int value) := by
  induction items generalizing total ledger with
  | nil =>
      cases returned
      exact ⟨⟨value, rfl⟩, rfl⟩
  | cons item rest ih =>
      rw [List.foldlM_cons] at returned ⊢
      obtain ⟨next, middle, stepped, restReturned⟩ := Analysis.outcome_bind_eq_ok.mp returned
      obtain ⟨⟨start, rfl⟩, restPure⟩ := ih restReturned
      obtain ⟨begun, stepPure⟩ := strict stepped
      exact ⟨begun, by rw [stepPure, pure_bind, restPure]⟩

variable {resolver : Resolver}

/-- Combining what an evaluation comes to with an integer. -/
theorem combine_evaluate_eq_pure (deferring : resolver.emitter.IsDeferring)
    {tree : BinaryTree} {op : WordOp} {total : Value} {ledger after : Ledger} {value : Int}
    (returned : (resolver.evaluate tree >>= resolver.emitter.combine op total).outcome ledger =
      (.ok (.int value), after)) :
    (∃ start : Int, total = .int start) ∧
      resolver.evaluate tree >>= resolver.emitter.combine op total = pure (.int value) := by
  obtain ⟨found, middle, evaluated, combined⟩ := Analysis.outcome_bind_eq_ok.mp returned
  obtain ⟨start, amount, rfl, rfl, folded⟩ := Emitter.combine_eq_int deferring combined
  refine ⟨⟨start, rfl⟩, ?_⟩
  rw [BinaryTree.evaluate_eq_pure deferring evaluated, pure_bind]
  exact Emitter.combine_of_fold _ folded

theorem isStrict_multiply (deferring : resolver.emitter.IsDeferring) :
    IsStrict (multiply (AddressTree.binaryStrides resolver)) := by
  intro total factor ledger after value returned
  obtain ⟨site, isShift⟩ := factor
  cases isShift with
  | false => exact combine_evaluate_eq_pure deferring returned
  | true =>
      have staged : multiply (AddressTree.binaryStrides resolver) total ⟨site, true⟩ =
          resolver.evaluate site.tree >>= resolver.emitter.combine .shl (.int 1) >>=
            resolver.emitter.combine .mul total := (bind_assoc ..).symm
      rw [staged] at returned ⊢
      obtain ⟨scale, middle, shifted, multiplied⟩ := Analysis.outcome_bind_eq_ok.mp returned
      obtain ⟨start, power, rfl, rfl, folded⟩ := Emitter.combine_eq_int deferring multiplied
      rw [(combine_evaluate_eq_pure deferring shifted).2, pure_bind]
      exact ⟨⟨start, rfl⟩, Emitter.combine_of_fold _ folded⟩

theorem isStrict_divide (deferring : resolver.emitter.IsDeferring) :
    IsStrict (divide (AddressTree.binaryStrides resolver)) :=
  fun _ _ _ _ _ returned => combine_evaluate_eq_pure deferring returned

/-- The stride along a place is a known integer. -/
def HasStride (resolver : Resolver) (place : Place BinaryTree) (stride : Int) : Prop :=
  coefficient (AddressTree.binaryStrides resolver) place = pure (.int stride)

theorem hasStride_of_outcome (deferring : resolver.emitter.IsDeferring)
    {place : Place BinaryTree} {ledger after : Ledger} {stride : Int}
    (returned : (coefficient (AddressTree.binaryStrides resolver) place).outcome ledger =
      (.ok (.int stride), after)) :
    HasStride resolver place stride := by
  rw [coefficient] at returned
  obtain ⟨factors, middle, gathered, rest⟩ := Analysis.outcome_bind_eq_ok.mp returned
  obtain ⟨product, last, multiplied, divided⟩ := Analysis.outcome_bind_eq_ok.mp rest
  obtain ⟨divisors, final, collected, quotient⟩ := Analysis.outcome_bind_eq_ok.mp divided
  obtain ⟨⟨scale, rfl⟩, quotientPure⟩ := (isStrict_divide deferring).foldlM quotient
  have productPure := ((isStrict_multiply deferring).foldlM multiplied).2
  rw [Analysis.outcome_ofExcept] at gathered collected
  rw [HasStride, coefficient, (Prod.mk.inj gathered).1, (Prod.mk.inj collected).1]
  change factors.foldlM (multiply _) 1 >>= divisors.foldlM (divide _) = _
  rw [productPure, pure_bind, quotientPure]

theorem addStride_of_hasStride {place : Place BinaryTree} {stride : Int}
    (known : HasStride resolver place stride) (total : Int) :
    addStride resolver (.int total) place = pure (.int (wrapWide (total + stride))) := by
  rw [addStride, known, pure_bind]
  exact Emitter.combine_of_fold _ (WordOp.fold_add total stride)

theorem hasStride_of_addStride (deferring : resolver.emitter.IsDeferring) {total : Value}
    {place : Place BinaryTree} {ledger after : Ledger} {value : Int}
    (returned : (addStride resolver total place).outcome ledger = (.ok (.int value), after)) :
    ∃ start stride, total = .int start ∧ HasStride resolver place stride := by
  obtain ⟨found, middle, valued, added⟩ := Analysis.outcome_bind_eq_ok.mp returned
  obtain ⟨start, stride, rfl, rfl, folded⟩ := Emitter.combine_eq_int deferring added
  exact ⟨start, stride, rfl, hasStride_of_outcome deferring valued⟩

/-- Known strides add up, wrapped to 64 bits. -/
theorem foldlM_addStride {places : List (Place BinaryTree)} {strides : List Int}
    (known : List.Forall₂ (HasStride resolver) places strides) (total : Int) :
    places.foldlM (addStride resolver) (.int (wrapWide total)) =
      pure (.int (wrapWide (total + strides.sum))) := by
  induction known generalizing total with
  | nil =>
      rw [List.sum_nil, Int.add_zero]
      rfl
  | @cons place stride places strides own _ ih =>
      have once : wrapWide (wrapWide total + stride) = wrapWide (total + stride) :=
        wrapWide_congr ((wrapWide_modEq total).add_right stride)
      rw [List.foldlM_cons, addStride_of_hasStride own, pure_bind, once, ih, List.sum_cons,
        Int.add_assoc]

/-- Strides that come to an integer are known integers. -/
theorem exists_strides (deferring : resolver.emitter.IsDeferring)
    {places : List (Place BinaryTree)} {total : Value} {ledger after : Ledger} {value : Int}
    (returned : (places.foldlM (addStride resolver) total).outcome ledger =
      (.ok (.int value), after)) :
    (∃ start : Int, total = .int start) ∧
      ∃ strides, List.Forall₂ (HasStride resolver) places strides := by
  induction places generalizing total ledger with
  | nil =>
      cases returned
      exact ⟨⟨value, rfl⟩, [], .nil⟩
  | cons place rest ih =>
      rw [List.foldlM_cons] at returned
      obtain ⟨next, middle, added, restReturned⟩ := Analysis.outcome_bind_eq_ok.mp returned
      obtain ⟨⟨sum, rfl⟩, strides, known⟩ := ih restReturned
      obtain ⟨start, stride, rfl, own⟩ := hasStride_of_addStride deferring added
      exact ⟨⟨start, rfl⟩, stride :: strides, .cons own known⟩

theorem strideAlong_of_hasStride {tree : BinaryTree} {kind : Kind} {arg : Datum}
    {strides : List Int}
    (known : List.Forall₂ (HasStride resolver) (placesOf tree.places kind arg) strides) :
    AddressTree.strideAlong resolver kind arg (.binary tree) =
      pure (.int (wrapWide strides.sum)) := by
  have zero : wrapWide 0 = 0 := by decide
  have folded := foldlM_addStride known 0
  rw [zero, Int.zero_add] at folded
  exact folded

theorem exists_strides_of_strideAlong (deferring : resolver.emitter.IsDeferring)
    {tree : BinaryTree} {kind : Kind} {arg : Datum} {ledger after : Ledger} {value : Int}
    (returned : (AddressTree.strideAlong resolver kind arg (.binary tree)).outcome ledger =
      (.ok (.int value), after)) :
    ∃ strides, List.Forall₂ (HasStride resolver) (placesOf tree.places kind arg) strides ∧
      wrapWide strides.sum = value := by
  obtain ⟨-, strides, known⟩ := exists_strides deferring returned
  rw [strideAlong_of_hasStride known] at returned
  cases returned
  exact ⟨strides, known, rfl⟩

theorem forall₂_hasStride_below {places : List (Place BinaryTree)} {kind : Kind} {arg : Datum}
    {strides : List Int} {step : Step BinaryTree} (passed : IsPassed step) (offset : Nat)
    (known : List.Forall₂ (HasStride resolver) (placesOf places kind arg) strides) :
    List.Forall₂ (HasStride resolver) (placesOf (places.map (Place.below offset step)) kind arg)
      strides := by
  rw [placesOf_below, List.forall₂_map_left_iff]
  refine known.imp fun place stride own => ?_
  rw [HasStride, coefficient_below (fun _ => rfl) passed]
  exact own

/-- What the root of a tree adds to the strides along a kind of nodes. It has no number. -/
def rootStride (operation : Operation) (kind : Kind) (arg : Datum) : Int :=
  if Kind.operation operation == kind && arg == .null then 1 else 0

variable {text : String} {operation : Operation} {left right : BinaryTree} {kind : Kind}
  {arg : Datum} {first second : Int} {before after beforeRight afterRight : Ledger}

theorem exists_strides_root (resolver : Resolver) (text : String) (operation : Operation)
    (left right : BinaryTree) (kind : Kind) (arg : Datum) :
    ∃ strides,
      List.Forall₂ (HasStride resolver)
        (placesOf [BinaryTree.rootPlace text operation left right] kind arg) strides ∧
      strides.sum = rootStride operation kind arg := by
  have own : HasStride resolver (BinaryTree.rootPlace text operation left right) 1 := rfl
  have unnumbered : (arg == .null || Datum.null == arg) = (arg == .null) := by
    cases arg <;> rfl
  rw [placesOf, List.filter_singleton]
  change ∃ strides, List.Forall₂ _ (bif Kind.operation operation == kind &&
    (arg == .null || Datum.null == arg) then [_] else []) strides ∧ _
  rw [unnumbered]
  unfold rootStride
  cases Kind.operation operation == kind && arg == .null with
  | true => exact ⟨[1], .cons own .nil, rfl⟩
  | false => exact ⟨[], .nil, rfl⟩

/-- Below an operation that is passed the strides of both operands add up. -/
theorem strideAlong_branch (deferring : resolver.emitter.IsDeferring)
    (passed : ∀ child, IsPassed (BinaryTree.stepFrom 0 text operation left right child))
    (onLeft : (AddressTree.strideAlong resolver kind arg (.binary left)).outcome before =
      (.ok (.int first), after))
    (onRight : (AddressTree.strideAlong resolver kind arg (.binary right)).outcome beforeRight =
      (.ok (.int second), afterRight)) :
    AddressTree.strideAlong resolver kind arg (.binary (.branch text operation left right)) =
      pure (.int (wrapWide (rootStride operation kind arg + (first + second)))) := by
  obtain ⟨leftStrides, leftKnown, rfl⟩ := exists_strides_of_strideAlong deferring onLeft
  obtain ⟨rightStrides, rightKnown, rfl⟩ := exists_strides_of_strideAlong deferring onRight
  obtain ⟨rootStrides, rootKnown, rootSum⟩ :=
    exists_strides_root resolver text operation left right kind arg
  have known : List.Forall₂ (HasStride resolver)
      (placesOf (BinaryTree.branch text operation left right).places kind arg)
      (rootStrides ++ (leftStrides ++ rightStrides)) := by
    rw [BinaryTree.places_branch, placesOf_append, placesOf_append]
    exact List.rel_append rootKnown
      (List.rel_append (forall₂_hasStride_below (passed _) 0 leftKnown)
        (forall₂_hasStride_below (passed _) left.size rightKnown))
  rw [strideAlong_of_hasStride known, List.sum_append, List.sum_append, rootSum]
  have wrapped : leftStrides.sum + rightStrides.sum ≡
      wrapWide leftStrides.sum + wrapWide rightStrides.sum [ZMOD 2 ^ 64] :=
    (wrapWide_modEq _).symm.add (wrapWide_modEq _).symm
  rw [wrapWide_congr (wrapped.add_left _)]

end Stride

/-- The stride along a kind of nodes of a difference is the sum of the strides of both
operands, and one more where differences are the kind. It is their difference only where
twice the second stride vanishes beside it. -/
theorem strideAlong_combine_sub {resolver : Resolver} (deferring : resolver.emitter.IsDeferring)
    {kind : Kind} {arg : Datum} {left right : BinaryTree} {first second : Int}
    {before after beforeRight afterRight : Ledger}
    (onLeft : (AddressTree.strideAlong resolver kind arg (.binary left)).outcome before =
      (.ok (.int first), after))
    (onRight : (AddressTree.strideAlong resolver kind arg (.binary right)).outcome beforeRight =
      (.ok (.int second), afterRight)) :
    AddressTree.strideAlong resolver kind arg (.binary (.combine .sub left right)) =
        pure (.int (wrapWide (Stride.rootStride .sub kind arg + (first + second)))) ∧
      (AddressTree.strideAlong resolver kind arg (.binary (.combine .sub left right)) =
          pure (.int (wrapWide (first - second))) ↔
        Stride.rootStride .sub kind arg + 2 * second ≡ 0 [ZMOD 2 ^ 64]) := by
  have passed (child : Int) :
      Stride.IsPassed (BinaryTree.stepFrom 0 Operation.sub.name .sub left right child) := by
    constructor <;> exact fun _ => rfl
  have added := Stride.strideAlong_branch deferring passed onLeft onRight
  refine ⟨added, ?_⟩
  rw [BinaryTree.combine, added, Int.modEq_iff_dvd]
  have distance : 0 - (Stride.rootStride .sub kind arg + 2 * second) =
      first - second - (Stride.rootStride .sub kind arg + (first + second)) := by ring
  rw [distance, ← Int.modEq_iff_dvd, ← wrapWide_eq_iff]
  constructor
  · exact Analysis.pure_int_injective
  · intro same
    rw [same]

/-- The thread index less a hundred moves with the thread. -/
theorem strideAlong_combine_sub_constant :
    AddressTree.strideAlong (Resolver.sample (.constant 128)) (Index.thread .x).kind .null
        (.binary (.combine .sub (.leaf (.text "TIDX") (.terminal (.thread .x)))
          (.constant 100))) = pure (.int 1) := by
  have onLeft : (AddressTree.strideAlong (Resolver.sample (.constant 128)) (Index.thread .x).kind
      .null (.binary (.leaf (.text "TIDX") (.terminal (.thread .x))))).outcome {} =
        (.ok (.int 1), {}) := by cbv
  have onRight : (AddressTree.strideAlong (Resolver.sample (.constant 128)) (Index.thread .x).kind
      .null (.binary (.constant 100))).outcome {} = (.ok (.int 0), {}) := by cbv
  exact (strideAlong_combine_sub Emitter.isDeferring_symbolic onLeft onRight).2.mpr (by decide)

/-- A hundred less the block index falls by one with every block, and its stride is one. -/
theorem strideAlong_combine_sub_reversed :
    (AddressTree.strideAlong (Resolver.sample (.constant 128)) (Index.block .x).kind .null
        (.binary (.constant 100))).outcome {} = (.ok (.int 0), {}) ∧
      (AddressTree.strideAlong (Resolver.sample (.constant 128)) (Index.block .x).kind .null
        (.binary (.leaf (.text "BIDX") (.terminal (.block .x))))).outcome {} =
          (.ok (.int 1), {}) ∧
      (AddressTree.strideAlong (Resolver.sample (.constant 128)) (Index.block .x).kind .null
        (.binary (.combine .sub (.constant 100)
          (.leaf (.text "BIDX") (.terminal (.block .x)))))).outcome {} = (.ok (.int 1), {}) ∧
      (1 : Int) ≠ wrapWide (0 - 1) := by
  refine ⟨by cbv, by cbv, by cbv, by decide⟩

end KernelFootprint
