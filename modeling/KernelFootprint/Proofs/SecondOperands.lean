import KernelFootprint.Proofs.Places

/-!
# Nodes below second operands

Two walks go from a node up to the root, one to gather the factors and one to gather the
divisors. The first turns back where it comes from the amount of a left shift, the second
where it comes from the divisor of a division, and a node from which one of them turns back
has no stride. Neither walk looks at right shifts and remainders, whose second operands
they pass like summands.
-/

namespace KernelFootprint

namespace Analysis

/-- An analysis that raises an error, whatever the ledger holds. -/
def AlwaysFails {Result : Type} (analysis : Analysis Result) : Prop :=
  ∀ ledger, ∃ fault after, analysis.outcome ledger = (.error fault, after)

variable {First Second : Type}

theorem alwaysFails_fail (fault : Fault) : (fail fault : Analysis First).AlwaysFails :=
  fun ledger => ⟨fault, ledger, rfl⟩

theorem AlwaysFails.bind {first : Analysis First} (fails : first.AlwaysFails)
    (next : First → Analysis Second) : (first >>= next).AlwaysFails := by
  intro ledger
  obtain ⟨fault, after, raised⟩ := fails ledger
  exact ⟨fault, after, by rw [outcome_bind, raised]⟩

theorem alwaysFails_bind (first : Analysis First) {next : First → Analysis Second}
    (fails : ∀ value, (next value).AlwaysFails) : (first >>= next).AlwaysFails := by
  intro ledger
  rw [outcome_bind]
  rcases first.outcome ledger with ⟨fault | value, after⟩
  · exact ⟨fault, after, rfl⟩
  · exact fails value after

/-- A fold fails if one of its items makes every step fail. -/
theorem alwaysFails_foldlM {State Item : Type} {step : State → Item → Analysis State}
    {items : List Item} {item : Item} (member : item ∈ items)
    (fails : ∀ total, (step total item).AlwaysFails) (total : State) :
    (items.foldlM step total).AlwaysFails := by
  induction items generalizing total with
  | nil => cases member
  | cons first rest ih =>
      rw [List.foldlM_cons]
      rcases List.mem_cons.mp member with rfl | inRest
      · exact (fails total).bind _
      · exact alwaysFails_bind _ (ih inRest)

end Analysis

namespace BinaryTree

/-- Whether the node with a number is the second operand of one of the operations or lies
below it. -/
def LiesUnder (operations : List Operation) : BinaryTree → Nat → Prop
  | .leaf _ _, _ => False
  | .branch _ operation left right, number =>
      if number < left.size then left.LiesUnder operations number
      else if number < left.size + right.size then
        operation ∈ operations ∨ right.LiesUnder operations (number - left.size)
      else False

instance LiesUnder.decidable (operations : List Operation) :
    (tree : BinaryTree) → (number : Nat) → Decidable (tree.LiesUnder operations number)
  | .leaf _ _, _ => inferInstanceAs (Decidable False)
  | .branch _ operation left right, number =>
      have := decidable operations left number
      have := decidable operations right (number - left.size)
      inferInstanceAs (Decidable (if number < left.size then left.LiesUnder operations number
        else if number < left.size + right.size then
          operation ∈ operations ∨ right.LiesUnder operations (number - left.size)
        else False))

variable {operations : List Operation} {text : String} {operation : Operation}
  {left right tree : BinaryTree} {number : Nat}

theorem liesUnder_left (inLeft : number < left.size) :
    (branch text operation left right).LiesUnder operations number ↔
      left.LiesUnder operations number := by
  rw [LiesUnder, if_pos inLeft]

theorem liesUnder_right (inRight : number < right.size) :
    (branch text operation left right).LiesUnder operations (left.size + number) ↔
      operation ∈ operations ∨ right.LiesUnder operations number := by
  rw [LiesUnder, if_neg (by omega), if_pos (by omega), Nat.add_sub_cancel_left]

theorem not_liesUnder_root :
    ¬ (branch text operation left right).LiesUnder operations (left.size + right.size) := by
  rw [LiesUnder, if_neg (by omega), if_neg (by omega)]
  exact id

theorem liesUnder_append (operations others : List Operation) :
    tree.LiesUnder (operations ++ others) number ↔
      tree.LiesUnder operations number ∨ tree.LiesUnder others number := by
  induction tree generalizing number with
  | leaf text symbol => exact (or_self False).symm.to_iff
  | branch text operation left right leftIH rightIH =>
      simp only [LiesUnder, leftIH, rightIH, List.mem_append]
      split
      · exact Iff.rfl
      · split
        · exact or_or_or_comm
        · exact (or_self False).symm.to_iff

end BinaryTree

namespace Stride

variable {Item : Type} {contribution : Step BinaryTree → Except Fault (List Item)}
  {operations : List Operation} {fault : Fault}

/-- Every step contributes something but those from the second operand of one of the
operations, which raise the same error. -/
structure TurnsBack (contribution : Step BinaryTree → Except Fault (List Item))
    (operations : List Operation) (fault : Fault) : Prop where
  fromLeft : ∀ first text operation left right, ∃ items,
    contribution (BinaryTree.stepFrom first text operation left right
      (((first + left.size : Nat) : Int) - 1)) = .ok items
  fromRight : ∀ first text operation left right, operation ∉ operations → ∃ items,
    contribution (BinaryTree.stepFrom first text operation left right
      (((first + left.size + right.size : Nat) : Int) - 1)) = .ok items
  refused : ∀ first text operation left right, operation ∈ operations →
    contribution (BinaryTree.stepFrom first text operation left right
      (((first + left.size + right.size : Nat) : Int) - 1)) = .error fault

/-- What a path contributes is an error under a condition and something otherwise. -/
def RaisesIf (contribution : Step BinaryTree → Except Fault (List Item)) (fault : Fault)
    (path : List (Step BinaryTree)) (condition : Prop) : Prop :=
  (condition → gather contribution path = .error fault) ∧
    (¬ condition → ∃ items, gather contribution path = .ok items)

variable {path : List (Step BinaryTree)} {condition : Prop}

theorem raisesIf_nil : RaisesIf contribution fault [] False :=
  ⟨False.elim, fun _ => ⟨[], rfl⟩⟩

theorem RaisesIf.congr {other : Prop} (raises : RaisesIf contribution fault path condition)
    (same : condition ↔ other) : RaisesIf contribution fault path other :=
  propext same ▸ raises

theorem RaisesIf.cons (raises : RaisesIf contribution fault path condition)
    {step : Step BinaryTree} {items : List Item} (contributed : contribution step = .ok items) :
    RaisesIf contribution fault (step :: path) condition := by
  constructor
  · intro holds
    rw [gather, contributed, raises.1 holds]
    rfl
  · intro fails
    obtain ⟨others, gathered⟩ := raises.2 fails
    exact ⟨items ++ others, by rw [gather, contributed, gathered]; rfl⟩

theorem raisesIf_cons {step : Step BinaryTree} (refused : contribution step = .error fault)
    (holds : condition) : RaisesIf contribution fault (step :: path) condition := by
  constructor
  · intro _
    rw [gather, refused]
    rfl
  · exact fun fails => absurd holds fails

/-- A walk up from a node turns back where the node lies below the second operand of one
of the operations, and nowhere else. -/
theorem TurnsBack.raisesIf (turns : TurnsBack contribution operations fault) (tree : BinaryTree)
    {first number : Nat} (inside : number < tree.size)
    (above : RaisesIf contribution fault path condition) :
    RaisesIf contribution fault (tree.placeFrom first path number).path
      (tree.LiesUnder operations number ∨ condition) := by
  induction tree generalizing first path number condition with
  | leaf text symbol => exact above.congr (false_or condition).symm.to_iff
  | branch text operation left right leftIH rightIH =>
      rcases BinaryTree.number_cases inside with inLeft | ⟨other, inRight, rfl⟩ | rfl
      · obtain ⟨items, contributed⟩ := turns.fromLeft first text operation left right
        rw [BinaryTree.placeFrom_left inLeft]
        exact (leftIH inLeft (above.cons contributed)).congr
          (or_congr_left (BinaryTree.liesUnder_left inLeft).symm)
      · have step : RaisesIf contribution fault
            (BinaryTree.stepFrom first text operation left right
              (((first + left.size + right.size : Nat) : Int) - 1) :: path)
            (operation ∈ operations ∨ condition) := by
          by_cases member : operation ∈ operations
          · exact raisesIf_cons (turns.refused first text operation left right member)
              (.inl member)
          · obtain ⟨items, contributed⟩ :=
              turns.fromRight first text operation left right member
            exact (above.cons contributed).congr (or_iff_right member).symm
        rw [BinaryTree.placeFrom_right inRight, BinaryTree.liesUnder_right inRight]
        exact (rightIH inRight step).congr (or_left_comm.trans or_assoc.symm)
      · rw [BinaryTree.placeFrom_root]
        exact above.congr (or_iff_right BinaryTree.not_liesUnder_root).symm

theorem comesFrom_right {first : Nat} {text : String} {operation : Operation}
    {left right : BinaryTree} :
    (BinaryTree.stepFrom first text operation left right
      (((first + left.size + right.size : Nat) : Int) - 1)).comesFrom
        ⟨first + left.size - 1, left⟩ = false := by
  have leftPos := left.size_pos
  have rightPos := right.size_pos
  have before : ((first + left.size - 1 : Nat) : Int) ≠
      ((first + left.size + right.size : Nat) : Int) - 1 := by omega
  exact beq_eq_false_iff_ne.mpr before

/-- Factors are gathered up to the amount of a left shift. -/
theorem turnsBack_factorsOfStep (text : String) :
    TurnsBack (factorsOfStep text) [.shl] (NotAffine.inShiftAmount text) where
  fromLeft := by
    intro first own operation left right
    cases operation with
    | mul => exact ⟨_, rfl⟩
    | shl =>
        refine ⟨[⟨⟨first + left.size + right.size - 1, right⟩, true⟩], ?_⟩
        change (if (BinaryTree.stepFrom ..).comesFrom _ = true then _ else _) = _
        rw [if_pos BinaryTree.stepFrom_left.2]
        rfl
    | _ => exact ⟨[], rfl⟩
  fromRight := by
    intro first own operation left right passed
    cases operation with
    | mul => exact ⟨_, rfl⟩
    | shl => exact absurd (List.mem_singleton.mpr rfl) passed
    | _ => exact ⟨[], rfl⟩
  refused := by
    intro first own operation left right member
    cases List.mem_singleton.mp member
    change (if (BinaryTree.stepFrom ..).comesFrom _ = true then _ else _) = _
    rw [comesFrom_right]
    rfl

/-- The operations whose second operand is a divisor that is taken in. -/
def divisions : List Operation := [.div, .udiv, .sdiv]

theorem isDivision_operation (operation : Operation) (id : Option Nat) :
    isDivision (.operation operation id) = decide (operation ∈ divisions) := by
  cases operation <;> rfl

/-- Divisors are gathered up to a divisor. -/
theorem turnsBack_divisorsOfStep (text : String) :
    TurnsBack (divisorsOfStep text) divisions (NotAffine.inDivisor text) where
  fromLeft := by
    intro first own operation left right
    rw [divisorsOfStep]
    split
    · refine ⟨[⟨first + left.size + right.size - 1, right⟩], ?_⟩
      change (if (BinaryTree.stepFrom ..).comesFrom _ = true then _ else _) = _
      rw [if_pos BinaryTree.stepFrom_left.2]
      rfl
    · exact ⟨[], rfl⟩
  fromRight := by
    intro first own operation left right passed
    rw [divisorsOfStep, if_neg]
    · exact ⟨[], rfl⟩
    · change ¬ isDivision (.operation operation none) = true
      rw [isDivision_operation]
      exact fun member => passed (of_decide_eq_true member)
  refused := by
    intro first own operation left right member
    have divides : isDivision (.operation operation none) = true := by
      rw [isDivision_operation, decide_eq_true member]
    rw [divisorsOfStep]
    change (if isDivision (.operation operation none) = true then _ else _) = _
    rw [if_pos divides]
    change (if (BinaryTree.stepFrom ..).comesFrom _ = true then _ else _) = _
    rw [comesFrom_right]
    rfl

variable {tree node : BinaryTree} {number : Nat}

theorem factors_placeOf (found : tree.subtree? number = some node) :
    (tree.LiesUnder [.shl] number →
        factors (tree.placeOf number) = .error (NotAffine.inShiftAmount node.text.shown)) ∧
      (¬ tree.LiesUnder [.shl] number → ∃ items, factors (tree.placeOf number) = .ok items) := by
  obtain ⟨inside, -, text, -⟩ := BinaryTree.placeOf_of_subtree? found
  rw [← text]
  exact ((turnsBack_factorsOfStep _).raisesIf tree inside raisesIf_nil).congr (or_false _).to_iff

theorem divisors_placeOf (found : tree.subtree? number = some node) :
    (tree.LiesUnder divisions number →
        divisors (tree.placeOf number) = .error (NotAffine.inDivisor node.text.shown)) ∧
      (¬ tree.LiesUnder divisions number →
        ∃ sites, divisors (tree.placeOf number) = .ok sites) := by
  obtain ⟨inside, -, text, -⟩ := BinaryTree.placeOf_of_subtree? found
  rw [← text]
  exact ((turnsBack_divisorsOfStep _).raisesIf tree inside raisesIf_nil).congr (or_false _).to_iff

/-- There is no stride along a place from which one of the two walks turns back. -/
theorem alwaysFails_coefficient {Tree : Type} (valuation : Valuation Tree) {place : Place Tree}
    {fault : Fault}
    (raised : factors place = .error fault ∨ divisors place = .error fault) :
    (coefficient valuation place).AlwaysFails := by
  rw [coefficient]
  rcases raised with raised | raised
  · rw [raised]
    exact (Analysis.alwaysFails_fail fault).bind _
  · rw [raised]
    refine Analysis.alwaysFails_bind _ (fun gathered => ?_)
    exact Analysis.alwaysFails_bind _ (fun product => (Analysis.alwaysFails_fail fault).bind _)

end Stride

variable {tree node : BinaryTree} {number : Nat}

theorem alwaysFails_coefficient_of_liesUnder (resolver : Resolver)
    (found : tree.subtree? number = some node)
    (below : tree.LiesUnder (.shl :: Stride.divisions) number) :
    (Stride.coefficient (AddressTree.binaryStrides resolver)
      (tree.placeOf number)).AlwaysFails := by
  rcases (BinaryTree.liesUnder_append [.shl] Stride.divisions).mp below with inAmount | inDivisor
  · exact Stride.alwaysFails_coefficient _ (.inl ((Stride.factors_placeOf found).1 inAmount))
  · exact Stride.alwaysFails_coefficient _ (.inr ((Stride.divisors_placeOf found).1 inDivisor))

theorem placeOf_mem_placesOf (found : tree.subtree? number = some node) {arg : Datum}
    (asked : (arg == .null || node.symbol.arg == arg) = true) :
    tree.placeOf number ∈ placesOf tree.places node.symbol.kind arg := by
  obtain ⟨inside, -, -, symbol⟩ := BinaryTree.placeOf_of_subtree? found
  refine List.mem_filter.mpr ⟨BinaryTree.mem_places.mpr ⟨number, inside, rfl⟩, ?_⟩
  change ((tree.placeOf number).symbol.kind == _ && _) = true
  rw [symbol, beq_self_eq_true, Bool.true_and]
  exact asked

/-- The walk for the factors turns back from the amounts of left shifts, the walk for the
divisors from the divisors of divisions, and both return from all other nodes. A node from
which one of them turns back has no stride, and there is none along its kind. -/
theorem alwaysFails_of_liesUnder (resolver : Resolver) {tree node : BinaryTree} {number : Nat}
    (found : tree.subtree? number = some node) :
    (if tree.LiesUnder [.shl] number then
        AddressTree.factorsAt resolver number (.binary tree) =
          Analysis.fail (NotAffine.inShiftAmount node.text.shown)
      else ∃ factors, AddressTree.factorsAt resolver number (.binary tree) = pure factors) ∧
    (if tree.LiesUnder Stride.divisions number then
        AddressTree.divisorsAt resolver number (.binary tree) =
          Analysis.fail (NotAffine.inDivisor node.text.shown)
      else ∃ divisors, AddressTree.divisorsAt resolver number (.binary tree) = pure divisors) ∧
    (tree.LiesUnder (.shl :: Stride.divisions) number →
      (AddressTree.strideAt resolver number (.binary tree)).AlwaysFails ∧
        ∀ arg, (arg == .null || node.symbol.arg == arg) = true →
          (AddressTree.strideAlong resolver node.symbol.kind arg (.binary tree)).AlwaysFails) := by
  have inside := (BinaryTree.placeOf_of_subtree? found).1
  have place : AddressTree.ofMisuse (placeAt tree.places number) = pure (tree.placeOf number) := by
    rw [BinaryTree.placeAt_places inside]
    rfl
  have factors := Stride.factors_placeOf found
  have divisors := Stride.divisors_placeOf found
  refine ⟨?_, ?_, ?_⟩
  · change if _ then (AddressTree.ofMisuse _ >>= _) = _ else ∃ _, (AddressTree.ofMisuse _ >>= _) = _
    rw [place, pure_bind]
    split
    · next below =>
        rw [factors.1 below]
        rfl
    · next free =>
        obtain ⟨gathered, walked⟩ := factors.2 free
        exact ⟨_, by rw [walked]; rfl⟩
  · change if _ then (AddressTree.ofMisuse _ >>= _) = _ else ∃ _, (AddressTree.ofMisuse _ >>= _) = _
    rw [place, pure_bind]
    split
    · next below =>
        rw [divisors.1 below]
        rfl
    · next free =>
        obtain ⟨gathered, walked⟩ := divisors.2 free
        exact ⟨_, by rw [walked]; rfl⟩
  · intro below
    have fails := alwaysFails_coefficient_of_liesUnder resolver found below
    constructor
    · change (AddressTree.ofMisuse _ >>= _).AlwaysFails
      rw [place, pure_bind]
      exact fails
    · intro arg asked
      exact Analysis.alwaysFails_foldlM (placeOf_mem_placesOf found asked)
        (fun total => fails.bind _) _

namespace BinaryTree

def blockIndex : BinaryTree := .leaf (.text "BIDX") (.terminal (.block .x))

/-- The number 64 divided by 4 shifted left by the block index. -/
def scaledQuotient : BinaryTree :=
  combine .udiv (constant 64) (combine .shl (constant 4) blockIndex)

end BinaryTree

/-- An index in the amount of a shift in a divisor stops both walks. -/
theorem alwaysFails_scaledQuotient :
    BinaryTree.scaledQuotient.subtree? 2 = some BinaryTree.blockIndex ∧
      BinaryTree.scaledQuotient.LiesUnder [.shl] 2 ∧
      BinaryTree.scaledQuotient.LiesUnder Stride.divisions 2 ∧
      AddressTree.factorsAt (Resolver.sample (.constant 128)) 2 (.binary .scaledQuotient) =
        Analysis.fail (NotAffine.inShiftAmount "BIDX") ∧
      AddressTree.divisorsAt (Resolver.sample (.constant 128)) 2 (.binary .scaledQuotient) =
        Analysis.fail (NotAffine.inDivisor "BIDX") ∧
      (AddressTree.strideAlong (Resolver.sample (.constant 128)) (.block .x) .null
        (.binary .scaledQuotient)).AlwaysFails := by
  have found : BinaryTree.scaledQuotient.subtree? 2 = some BinaryTree.blockIndex := rfl
  have inAmount : BinaryTree.scaledQuotient.LiesUnder [.shl] 2 := by decide
  have inDivisor : BinaryTree.scaledQuotient.LiesUnder Stride.divisions 2 := by decide
  obtain ⟨factors, divisors, strides⟩ :=
    alwaysFails_of_liesUnder (Resolver.sample (.constant 128)) found
  rw [if_pos inAmount] at factors
  rw [if_pos inDivisor] at divisors
  exact ⟨found, inAmount, inDivisor, factors, divisors, (strides (by decide)).2 .null rfl⟩

/-- The amount of a right shift and the divisor of a remainder do not stop the walks: the
block index has a stride in both. -/
theorem strideAlong_shifted_right :
    (BinaryTree.combine .lshr (.constant 4) .blockIndex).LiesUnder [.lshr] 1 ∧
      (AddressTree.strideAt (Resolver.sample (.constant 128)) 1
        (.binary (.combine .lshr (.constant 4) .blockIndex))).outcome {} = (.ok (.int 1), {}) ∧
      (AddressTree.strideAlong (Resolver.sample (.constant 128)) (.block .x) .null
        (.binary (.combine .lshr (.constant 4) .blockIndex))).outcome {} = (.ok (.int 1), {}) ∧
      (BinaryTree.combine .srem (.constant 64) .blockIndex).LiesUnder [.srem] 1 ∧
      (AddressTree.strideAt (Resolver.sample (.constant 128)) 1
        (.binary (.combine .srem (.constant 64) .blockIndex))).outcome {} = (.ok (.int 1), {}) := by
  refine ⟨by decide, by cbv, by cbv, by decide, by cbv⟩

end KernelFootprint
