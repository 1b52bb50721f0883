import KernelFootprint.Proofs.Displacement
import KernelFootprint.Proofs.Places

/-!
# Strides along loops

A recurrence is a merge with a phi term below it that only sums lead down to. What stands
beside the way from the term up to the merge is added once per iteration: the operand of
the merge on that way is the term plus these addends. If the merge moves by their sum, the
address moves by the sum times the stride along the merge, and this product is the stride
along the loop.
-/

namespace KernelFootprint

namespace BinaryTree

/-- The node with a number, reached from the root through operations that pass on from the
operand on the way. -/
inductive Reaches (passes : Operation → Bool → Prop) : BinaryTree → Nat → BinaryTree → Prop
  | here (tree : BinaryTree) : Reaches passes tree (tree.size - 1) tree
  | left {text : String} {operation : Operation} {left right node : BinaryTree} {number : Nat}
      (passed : passes operation true) (below : Reaches passes left number node) :
      Reaches passes (.branch text operation left right) number node
  | right {text : String} {operation : Operation} {left right node : BinaryTree} {number : Nat}
      (passed : passes operation false) (below : Reaches passes right number node) :
      Reaches passes (.branch text operation left right) (left.size + number) node

def IsSum (operation : Operation) (_ : Bool) : Prop := operation = .add ∨ operation = .or

/-- A recurrence: the numbers of a merge and of a term, the operand of the merge that only
sums lead through from there to the term, and the token of the term. What stands above the
merge hands on what it does. -/
inductive Recurs : BinaryTree → Nat → Nat → BinaryTree → Datum → Prop
  | first {name : String} {first second : BinaryTree} {term : Nat} {text : Datum}
      {id : Option Nat}
      (reached : first.Reaches IsSum term (.leaf text (.terminal (.phiTerm id)))) :
      Recurs (.branch name .phi first second) (first.size + second.size) term first text
  | second {name : String} {first second : BinaryTree} {term : Nat} {text : Datum}
      {id : Option Nat}
      (reached : second.Reaches IsSum term (.leaf text (.terminal (.phiTerm id)))) :
      Recurs (.branch name .phi first second) (first.size + second.size) (first.size + term)
        second text
  | left {name : String} {operation : Operation} {left right operand : BinaryTree}
      {merge term : Nat} {text : Datum} (passed : HandsOn operation true)
      (below : Recurs left merge term operand text) :
      Recurs (.branch name operation left right) merge term operand text
  | right {name : String} {operation : Operation} {left right operand : BinaryTree}
      {merge term : Nat} {text : Datum} (passed : HandsOn operation false)
      (below : Recurs right merge term operand text) :
      Recurs (.branch name operation left right) (left.size + merge) (left.size + term) operand
        text

section Subtrees

variable {text : String} {operation : Operation} {left right tree node : BinaryTree}
  {number : Nat}

theorem subtree?_left (inLeft : number < left.size) :
    (branch text operation left right).subtree? number = left.subtree? number := by
  rw [subtree?, if_pos inLeft]

theorem subtree?_right (inRight : number < right.size) :
    (branch text operation left right).subtree? (left.size + number) = right.subtree? number := by
  rw [subtree?, if_neg (by omega), if_pos (by omega), Nat.add_sub_cancel_left]

theorem lt_size_of_subtree? (found : tree.subtree? number = some node) : number < tree.size :=
  (placeOf_of_subtree? found).1

theorem Reaches.subtree?_eq {passes : Operation → Bool → Prop}
    (reached : tree.Reaches passes number node) : tree.subtree? number = some node := by
  induction reached with
  | here tree => exact tree.subtree?_root
  | left _ _ ih => rw [subtree?_left (lt_size_of_subtree? ih), ih]
  | right _ _ ih => rw [subtree?_right (lt_size_of_subtree? ih), ih]

theorem subtree?_branch :
    (branch text operation left right).subtree? (left.size + right.size) =
      some (branch text operation left right) := by
  rw [subtree?, if_neg (by omega), if_neg (by omega), if_pos rfl]

theorem countOf_le_of_subtree? (mark : Mark) (found : tree.subtree? number = some node) :
    node.countOf mark ≤ tree.countOf mark := by
  induction tree generalizing number with
  | leaf token symbol =>
      rw [subtree?] at found
      split at found
      · cases found
        exact Nat.le_refl _
      · cases found
  | branch name operation left right leftIH rightIH =>
      rw [subtree?] at found
      split at found
      · have := leftIH found
        rw [countOf]
        omega
      · split at found
        · have := rightIH found
          rw [countOf]
          omega
        · split at found
          · cases found
            exact Nat.le_refl _
          · cases found

variable {mark : Mark}

theorem holds_of_subtree? (found : tree.subtree? number = some node)
    (isMarked : mark.isOn node.symbol = true) : tree.Holds mark :=
  Nat.lt_of_lt_of_le (Holds.of_isOn isMarked) (countOf_le_of_subtree? mark found)

/-- A single marked node in the left operand is the only one there and has none beside it. -/
theorem single_left (single : (branch text operation left right).countOf mark = 1)
    (held : left.Holds mark) : left.countOf mark = 1 ∧ ¬ right.Holds mark := by
  rw [countOf] at single
  rw [Holds] at held ⊢
  omega

theorem single_right (single : (branch text operation left right).countOf mark = 1)
    (held : right.Holds mark) : right.countOf mark = 1 ∧ ¬ left.Holds mark := by
  rw [countOf] at single
  rw [Holds] at held ⊢
  omega

theorem single_root (single : (branch text operation left right).countOf mark = 1)
    (isMarked : mark.isOn (.operation operation none) = true) :
    ¬ left.Holds mark ∧ ¬ right.Holds mark := by
  rw [countOf, isMarked, Bool.toNat_true] at single
  rw [Holds, Holds]
  omega

end Subtrees

section Tokens

variable {text : Datum} {tree : BinaryTree}

/-- The token of a term stands at phi terms only. -/
def SpellsTerm (text : Datum) (tree : BinaryTree) : Prop :=
  ∀ other node, (other, node) ∈ tree.terminals → (text == other) = true → node.kind = .phiTerm

theorem spellsTerm_branch {name : String} {operation : Operation} {left right : BinaryTree}
    (spelled : (branch name operation left right).SpellsTerm text) :
    left.SpellsTerm text ∧ right.SpellsTerm text :=
  ⟨fun other node member => spelled other node (List.mem_append_left _ member),
    fun other node member => spelled other node (List.mem_append_right _ member)⟩

/-- The phi terms of a tree. -/
def phiTerms : Mark := ⟨.phiTerm, .null⟩

theorem holds_phiTerms {other : Datum} {node : Terminal} (member : (other, node) ∈ tree.terminals)
    (isTerm : node.kind = .phiTerm) : tree.Holds phiTerms := by
  induction tree with
  | leaf text symbol =>
      cases symbol with
      | terminal symbol =>
          cases List.mem_singleton.mp member
          exact holds_leaf.mpr (Mark.isOn_null.mpr isTerm)
      | structural symbol => cases member
  | branch name operation left right leftIH rightIH =>
      rcases List.mem_append.mp member with inLeft | inRight
      · exact holds_branch.mpr (.inr (.inl (leftIH inLeft)))
      · exact holds_branch.mpr (.inr (.inr (rightIH inRight)))

end Tokens

end BinaryTree

namespace Resolver

variable {resolver : Resolver} {key text : Datum}

theorem unknown?_given_of_not_beq (different : ¬ (key == text) = true) (value : Value) :
    (resolver.given [(key, value)]).unknown? text = resolver.unknown? text := by
  change (if text.isKey then
    Except.ok (Register.find text ((key, value) :: resolver.unknowns)) else _) = _
  rw [Register.find, if_neg different]
  rfl

/-- A terminal has the value given for its token, or none. -/
theorem eq_of_resolve_given {value found : Value} {node : Terminal}
    (resolved : (resolver.given [(text, value)]).resolve text (.terminal node) = .ok found) :
    found = value := by
  rw [resolve, unknown?] at resolved
  by_cases serves : text.isKey = true
  · have same : (text == text) = true := by
      rw [Datum.beq_eq_key?_beq serves serves, beq_self_eq_true]
    have own : Register.find text (resolver.given [(text, value)]).unknowns = some value := by
      change Register.find text ((text, value) :: resolver.unknowns) = _
      rw [Register.find, if_pos same]
    rw [if_pos serves, own] at resolved
    cases resolved
    rfl
  · rw [if_neg serves] at resolved
    cases resolved

end Resolver

namespace BinaryTree

variable {resolver : Resolver} {text : Datum}

/-- Without the term in it a tree has the value that it has anyway. -/
theorem evaluate_given_of_not_holds {tree : BinaryTree} (spelled : tree.SpellsTerm text)
    (free : ¬ tree.Holds phiTerms) (x : Int) :
    (resolver.given [(text, .int x)]).evaluate tree = resolver.evaluate tree := by
  refine evaluateWith_congr rfl ?_ (fun _ => rfl)
  intro other node member
  have different : ¬ (text == other) = true :=
    fun same => free (holds_phiTerms member (spelled other node member same))
  change Analysis.ofExcept (Resolver.resolve _ other (.terminal node)) =
    Analysis.ofExcept (resolver.resolve other (.terminal node))
  rw [Resolver.resolve_congr (Resolver.unknown?_given_of_not_beq different _) rfl (.terminal node)]

theorem eq_of_evaluate_term {id : Option Nat} {x value : Int}
    (evaluated : (resolver.given [(text, .int x)]).evaluate (.leaf text (.terminal (.phiTerm id))) =
      pure (.int value)) : value = x := by
  rw [evaluate_terminal] at evaluated
  have outcome := congrFun evaluated ({} : Ledger)
  change (Analysis.ofExcept _).outcome {} = (.ok (Value.int value), {}) at outcome
  rw [Analysis.outcome_ofExcept] at outcome
  cases Resolver.eq_of_resolve_given (Prod.mk.inj outcome).1
  rfl

/-- The integer that what stands at a site evaluates to. -/
def HasAmount (resolver : Resolver) (site : Site BinaryTree) (amount : Int) : Prop :=
  resolver.evaluate site.tree = pure (.int amount)

/-- A tree in which a term stands beside some addends: it is the sum of both. -/
def AddsUp (resolver : Resolver) (text : Datum) (tree : BinaryTree)
    (addends : List (Site BinaryTree)) : Prop :=
  ∀ x value : Int, (resolver.given [(text, .int x)]).evaluate tree = pure (.int value) →
    ∃ amounts, List.Forall₂ (HasAmount resolver) addends amounts ∧
      value ≡ x + amounts.sum [ZMOD 2 ^ 64]

variable {name : String} {operation : Operation} {left right : BinaryTree}
  {addends : List (Site BinaryTree)}

theorem addsUp_term (id : Option Nat) :
    AddsUp resolver text (.leaf text (.terminal (.phiTerm id))) [] := by
  intro x value evaluated
  refine ⟨[], .nil, ?_⟩
  rw [eq_of_evaluate_term evaluated, List.sum_nil, Int.add_zero]

theorem fold_of_isSum {op : WordOp} {isLeft : Bool} {first second value : Int}
    (isSum : IsSum operation isLeft) (read : operation.wordOp? = some op)
    (folded : op.fold .wide first second = .ok value) : value ≡ first + second [ZMOD 2 ^ 64] := by
  rcases isSum with rfl | rfl <;>
  · cases read
    cases folded
    exact wrapWide_modEq _

/-- What a tree that adds up is added to adds up with one more addend. -/
theorem AddsUp.concat {tree whole other : BinaryTree} (adds : AddsUp resolver text tree addends)
    (index : Nat)
    (splits : ∀ x value : Int,
      (resolver.given [(text, .int x)]).evaluate whole = pure (.int value) →
        ∃ part amount, (resolver.given [(text, .int x)]).evaluate tree = pure (.int part) ∧
          resolver.evaluate other = pure (.int amount) ∧
          value ≡ part + amount [ZMOD 2 ^ 64]) :
    AddsUp resolver text whole (addends ++ [⟨index, other⟩]) := by
  intro x value evaluated
  obtain ⟨part, amount, partEvaluated, otherEvaluated, sum⟩ := splits x value evaluated
  obtain ⟨amounts, known, modEq⟩ := adds x part partEvaluated
  refine ⟨amounts ++ [amount], List.rel_append known (.cons otherEvaluated .nil), ?_⟩
  rw [List.sum_append, List.sum_singleton]
  calc value
      ≡ part + amount [ZMOD 2 ^ 64] := sum
    _ ≡ x + amounts.sum + amount [ZMOD 2 ^ 64] := modEq.add_right _
    _ = x + (amounts.sum + amount) := by ring

theorem AddsUp.add_right (deferring : resolver.emitter.IsDeferring)
    (adds : AddsUp resolver text left addends) {isLeft : Bool} (isSum : IsSum operation isLeft)
    (spelled : right.SpellsTerm text) (free : ¬ right.Holds phiTerms) (index : Nat) :
    AddsUp resolver text (.branch name operation left right) (addends ++ [⟨index, right⟩]) := by
  refine adds.concat index (fun x value evaluated => ?_)
  have stillDeferring : (resolver.given [(text, .int x)]).emitter.IsDeferring := deferring
  obtain ⟨op, first, second, read, folded, leftEvaluated, rightEvaluated⟩ :=
    evaluate_branch_eq_pure stillDeferring evaluated
  rw [evaluate_given_of_not_holds spelled free] at rightEvaluated
  exact ⟨first, second, leftEvaluated, rightEvaluated, fold_of_isSum isSum read folded⟩

theorem AddsUp.add_left (deferring : resolver.emitter.IsDeferring)
    (adds : AddsUp resolver text right addends) {isLeft : Bool} (isSum : IsSum operation isLeft)
    (spelled : left.SpellsTerm text) (free : ¬ left.Holds phiTerms) (index : Nat) :
    AddsUp resolver text (.branch name operation left right) (addends ++ [⟨index, left⟩]) := by
  refine adds.concat index (fun x value evaluated => ?_)
  have stillDeferring : (resolver.given [(text, .int x)]).emitter.IsDeferring := deferring
  obtain ⟨op, first, second, read, folded, leftEvaluated, rightEvaluated⟩ :=
    evaluate_branch_eq_pure stillDeferring evaluated
  rw [evaluate_given_of_not_holds spelled free] at leftEvaluated
  have sum := fold_of_isSum isSum read folded
  rw [Int.add_comm] at sum
  exact ⟨second, first, rightEvaluated, leftEvaluated, sum⟩

theorem isAdditive_of_isSum {isLeft : Bool} (isSum : IsSum operation isLeft) (id : Option Nat) :
    (Symbol.operation operation id).isAdditive = true := by
  rcases isSum with rfl | rfl <;> rfl

theorem isOn_term {node : BinaryTree} {id : Option Nat}
    (isTerm : node = .leaf text (.terminal (.phiTerm id))) :
    phiTerms.isOn node.symbol = true := by
  subst isTerm
  rfl

section Steps

variable {first : Nat} {child : Int}

theorem index_stepFrom : (stepFrom first name operation left right child).index =
    first + left.size + right.size := rfl

theorem child_stepFrom : (stepFrom first name operation left right child).child = child := rfl

end Steps

/-- The way from a term up through sums: what stands beside it adds up to the tree. -/
theorem Reaches.exists_steps (deferring : resolver.emitter.IsDeferring) {tree node : BinaryTree}
    {number : Nat} {id : Option Nat} (reached : tree.Reaches IsSum number node)
    (isTerm : node = .leaf text (.terminal (.phiTerm id))) (spelled : tree.SpellsTerm text)
    (single : tree.countOf phiTerms = 1) (first : Nat) (path : List (Step BinaryTree)) :
    ∃ steps, (tree.placeFrom first path number).path = steps ++ path ∧
      (∀ step ∈ steps, step.symbol.isAdditive = true ∧ step.index < first + tree.size) ∧
      AddsUp resolver text tree (steps.flatMap Step.siblings) := by
  induction reached generalizing first path with
  | here tree =>
      subst isTerm
      exact ⟨[], rfl, fun step member => absurd member List.not_mem_nil, addsUp_term id⟩
  | @left name operation left right node number passed below ih =>
      obtain ⟨leftSpelled, rightSpelled⟩ := spellsTerm_branch spelled
      obtain ⟨leftSingle, rightFree⟩ :=
        single_left single (holds_of_subtree? below.subtree?_eq (isOn_term isTerm))
      obtain ⟨steps, same, each, adds⟩ := ih isTerm leftSpelled leftSingle first
        (stepFrom first name operation left right (((first + left.size : Nat) : Int) - 1) :: path)
      refine ⟨steps ++ [stepFrom first name operation left right
        (((first + left.size : Nat) : Int) - 1)], ?_, ?_, ?_⟩
      · rw [placeFrom_left (lt_size_of_subtree? below.subtree?_eq), same, List.append_assoc]
        rfl
      · rw [List.forall_mem_append, List.forall_mem_singleton, index_stepFrom, size]
        refine ⟨?_, isAdditive_of_isSum passed none, by omega⟩
        intro step inner
        obtain ⟨additive, before⟩ := each step inner
        exact ⟨additive, by omega⟩
      · rw [List.flatMap_append, List.flatMap_singleton, stepFrom_left.1]
        exact adds.add_right deferring passed rightSpelled rightFree _
  | @right name operation left right node number passed below ih =>
      obtain ⟨leftSpelled, rightSpelled⟩ := spellsTerm_branch spelled
      obtain ⟨rightSingle, leftFree⟩ :=
        single_right single (holds_of_subtree? below.subtree?_eq (isOn_term isTerm))
      obtain ⟨steps, same, each, adds⟩ := ih isTerm rightSpelled rightSingle (first + left.size)
        (stepFrom first name operation left right
          (((first + left.size + right.size : Nat) : Int) - 1) :: path)
      refine ⟨steps ++ [stepFrom first name operation left right
        (((first + left.size + right.size : Nat) : Int) - 1)], ?_, ?_, ?_⟩
      · rw [placeFrom_right (lt_size_of_subtree? below.subtree?_eq), same, List.append_assoc]
        rfl
      · rw [List.forall_mem_append, List.forall_mem_singleton, index_stepFrom, size]
        refine ⟨?_, isAdditive_of_isSum passed none, by omega⟩
        intro step inner
        obtain ⟨additive, before⟩ := each step inner
        exact ⟨additive, by omega⟩
      · rw [List.flatMap_append, List.flatMap_singleton, stepFrom_right]
        exact adds.add_left deferring passed leftSpelled leftFree _

section Recurrences

variable {tree operand : BinaryTree} {merge term : Nat}

theorem Recurs.exists_merge (recurs : tree.Recurs merge term operand text) :
    ∃ name first second, tree.subtree? merge = some (.branch name .phi first second) := by
  induction recurs with
  | first _ => exact ⟨_, _, _, subtree?_branch⟩
  | second _ => exact ⟨_, _, _, subtree?_branch⟩
  | left _ _ ih =>
      obtain ⟨name, first, second, found⟩ := ih
      exact ⟨name, first, second, (subtree?_left (lt_size_of_subtree? found)).trans found⟩
  | right _ _ ih =>
      obtain ⟨name, first, second, found⟩ := ih
      exact ⟨name, first, second, (subtree?_right (lt_size_of_subtree? found)).trans found⟩

theorem Recurs.exists_term (recurs : tree.Recurs merge term operand text) :
    ∃ id, tree.subtree? term = some (.leaf text (.terminal (.phiTerm id))) := by
  induction recurs with
  | first reached =>
      have found := reached.subtree?_eq
      exact ⟨_, (subtree?_left (lt_size_of_subtree? found)).trans found⟩
  | second reached =>
      have found := reached.subtree?_eq
      exact ⟨_, (subtree?_right (lt_size_of_subtree? found)).trans found⟩
  | left _ _ ih =>
      obtain ⟨id, found⟩ := ih
      exact ⟨id, (subtree?_left (lt_size_of_subtree? found)).trans found⟩
  | right _ _ ih =>
      obtain ⟨id, found⟩ := ih
      exact ⟨id, (subtree?_right (lt_size_of_subtree? found)).trans found⟩

theorem Recurs.lt_size (recurs : tree.Recurs merge term operand text) :
    merge < tree.size ∧ term < tree.size := by
  obtain ⟨name, first, second, found⟩ := recurs.exists_merge
  obtain ⟨id, termFound⟩ := recurs.exists_term
  exact ⟨lt_size_of_subtree? found, lt_size_of_subtree? termFound⟩

/-- Where a recurrence is found: the way from its term leads up to the operand of the merge,
and from there over the merge to the root. -/
theorem Recurs.exists_step (recurs : tree.Recurs merge term operand text) (first : Nat)
    (path : List (Step BinaryTree)) :
    ∃ start number step id,
      operand.Reaches IsSum number (.leaf text (.terminal (.phiTerm id))) ∧
      tree.placeFrom first path term =
        operand.placeFrom start (step :: (tree.placeFrom first path merge).path) number ∧
      start + operand.size ≤ first + merge ∧ step.index = first + merge ∧
      Stride.isMerge step = true ∧
      ∃ child, step.child = ((first + child : Nat) : Int) ∧ tree.subtree? child = some operand := by
  induction recurs generalizing first path with
  | @first name left right term text id reached =>
      have leftPos := left.size_pos
      refine ⟨first, term, stepFrom first name .phi left right
        (((first + left.size : Nat) : Int) - 1), id, reached, ?_, ?_, ?_, rfl, left.size - 1,
        ?_, ?_⟩
      · rw [placeFrom_left (lt_size_of_subtree? reached.subtree?_eq), placeFrom_root]
      · omega
      · rw [index_stepFrom, Nat.add_assoc]
      · rw [child_stepFrom]
        omega
      · rw [subtree?_left (by omega), left.subtree?_root]
  | @second name left right term text id reached =>
      have rightPos := right.size_pos
      refine ⟨first + left.size, term, stepFrom first name .phi left right
        (((first + left.size + right.size : Nat) : Int) - 1), id, reached, ?_, ?_, ?_, rfl,
        left.size + (right.size - 1), ?_, ?_⟩
      · rw [placeFrom_right (lt_size_of_subtree? reached.subtree?_eq), placeFrom_root]
      · omega
      · rw [index_stepFrom, Nat.add_assoc]
      · rw [child_stepFrom]
        omega
      · rw [subtree?_right (by omega), right.subtree?_root]
  | @left name operation left right operand merge term text passed below ih =>
      obtain ⟨mergeInside, termInside⟩ := below.lt_size
      obtain ⟨start, number, step, id, reached, place, before, index, isMerge, child, isChild,
        found⟩ := ih first
          (stepFrom first name operation left right (((first + left.size : Nat) : Int) - 1) :: path)
      refine ⟨start, number, step, id, reached, ?_, before, index, isMerge, child, isChild,
        (subtree?_left (lt_size_of_subtree? found)).trans found⟩
      rw [placeFrom_left mergeInside, placeFrom_left termInside, place]
  | @right name operation left right operand merge term text passed below ih =>
      obtain ⟨mergeInside, termInside⟩ := below.lt_size
      obtain ⟨start, number, step, id, reached, place, before, index, isMerge, child, isChild,
        found⟩ := ih (first + left.size)
          (stepFrom first name operation left right
            (((first + left.size + right.size : Nat) : Int) - 1) :: path)
      refine ⟨start, number, step, id, reached, ?_, ?_, ?_, isMerge, left.size + child, ?_,
        (subtree?_right (lt_size_of_subtree? found)).trans found⟩
      · rw [placeFrom_right mergeInside, placeFrom_right termInside, place]
      · omega
      · rw [index, Nat.add_assoc]
      · rw [isChild, Nat.add_assoc]

/-- The phi merges of a tree. -/
def merges : Mark := ⟨.operation .phi, .null⟩

theorem isOn_merges {operation : Operation} :
    merges.isOn (.operation operation none) = true ↔ operation = .phi :=
  Mark.isOn_null.trans (Kind.operation.injEq operation .phi).to_iff

theorem not_isOn_merges_leaf (symbol : Leaf) : ¬ merges.isOn symbol.symbol = true := by
  rw [merges, Mark.isOn_null]
  intro isMerge
  cases symbol with
  | terminal node => cases node <;> cases isMerge
  | structural node => cases isMerge

theorem ne_phi_of_handsOn {operation : Operation} {isLeft : Bool}
    (passed : HandsOn operation isLeft) : operation ≠ .phi := by
  rintro rfl
  exact passed

theorem Recurs.holds_merges (recurs : tree.Recurs merge term operand text) :
    tree.Holds merges := by
  obtain ⟨name, first, second, found⟩ := recurs.exists_merge
  exact holds_of_subtree? found (isOn_merges.mpr rfl)

/-- What stands above the single merge of a recurrence hands on what moves it. -/
theorem Recurs.carries (recurs : tree.Recurs merge term operand text)
    (single : tree.countOf merges = 1) : tree.Carries merges := by
  induction recurs with
  | first _ =>
      rw [Carries, if_pos (isOn_merges.mpr rfl)]
      exact single_root single (isOn_merges.mpr rfl)
  | second _ =>
      rw [Carries, if_pos (isOn_merges.mpr rfl)]
      exact single_root single (isOn_merges.mpr rfl)
  | left passed below ih =>
      obtain ⟨leftSingle, rightFree⟩ := single_left single below.holds_merges
      rw [Carries, if_neg (mt isOn_merges.mp (ne_phi_of_handsOn passed))]
      exact ⟨fun _ => passed, fun inRight => absurd inRight rightFree,
        fun _ both => rightFree both.2, ih leftSingle, carries_of_not_holds rightFree⟩
  | right passed below ih =>
      obtain ⟨rightSingle, leftFree⟩ := single_right single below.holds_merges
      rw [Carries, if_neg (mt isOn_merges.mp (ne_phi_of_handsOn passed))]
      exact ⟨fun inLeft => absurd inLeft leftFree, fun _ => passed,
        fun _ both => leftFree both.1, carries_of_not_holds leftFree, ih rightSingle⟩

/-- The only marked node of a tree has the only marked place. -/
theorem placesOf_single {mark : Mark} {node : BinaryTree} {number : Nat}
    (found : tree.subtree? number = some node) (isMarked : mark.isOn node.symbol = true)
    (single : tree.countOf mark = 1) :
    placesOf tree.places mark.kind mark.arg = [tree.placeOf number] := by
  obtain ⟨inside, -, -, symbol⟩ := placeOf_of_subtree? found
  have listed : tree.placeOf number ∈ placesOf tree.places mark.kind mark.arg := by
    refine List.mem_filter.mpr ⟨mem_places.mpr ⟨number, inside, rfl⟩, ?_⟩
    change mark.isOn (tree.placeOf number).symbol = true
    rw [symbol]
    exact isMarked
  obtain ⟨place, alone⟩ : ∃ place, placesOf tree.places mark.kind mark.arg = [place] := by
    rw [← List.length_eq_one_iff, places, length_placesOf, single]
  rw [alone] at listed ⊢
  rw [List.mem_singleton.mp listed]

end Recurrences

/-- The tree with another tree in the place of every merge. -/
def replaceMerges : BinaryTree → BinaryTree → BinaryTree
  | .leaf text symbol, _ => .leaf text symbol
  | .branch text operation left right, other =>
      if operation = .phi then other
      else .branch text operation (left.replaceMerges other) (right.replaceMerges other)

/-- Replacing merges by trees of known values moves them by the difference of these. -/
theorem displaced_replaceMerges (deferring : resolver.emitter.IsDeferring)
    {old new tree : BinaryTree} {start target before after : Int}
    (oldEvaluated : resolver.evaluate old = pure (.int start))
    (newEvaluated : resolver.evaluate new = pure (.int target))
    (evaluated : resolver.evaluate (tree.replaceMerges old) = pure (.int before))
    (otherEvaluated : resolver.evaluate (tree.replaceMerges new) = pure (.int after)) :
    Displaced resolver merges (target - start) tree before after := by
  induction tree generalizing before after with
  | leaf text symbol =>
      rw [replaceMerges] at evaluated otherEvaluated
      cases Analysis.pure_int_injective (evaluated.symm.trans otherEvaluated)
      refine .free ?_ evaluated
      rw [holds_leaf]
      exact not_isOn_merges_leaf symbol
  | branch text operation left right leftIH rightIH =>
      rw [replaceMerges] at evaluated otherEvaluated
      by_cases isMerge : operation = .phi
      · rw [if_pos isMerge] at evaluated otherEvaluated
        cases Analysis.pure_int_injective (evaluated.symm.trans oldEvaluated)
        cases Analysis.pure_int_injective (otherEvaluated.symm.trans newEvaluated)
        exact .marked (isOn_merges.mpr isMerge) rfl
      · rw [if_neg isMerge] at evaluated otherEvaluated
        obtain ⟨op, first, second, read, folded, leftEvaluated, rightEvaluated⟩ :=
          evaluate_branch_eq_pure deferring evaluated
        obtain ⟨other, otherFirst, otherSecond, otherRead, otherFolded, otherLeft, otherRight⟩ :=
          evaluate_branch_eq_pure deferring otherEvaluated
        cases read.symm.trans otherRead
        exact .branch (mt isOn_merges.mp isMerge) read (leftIH leftEvaluated otherLeft)
          (rightIH rightEvaluated otherRight) folded otherFolded

end BinaryTree

namespace Stride

variable {resolver : Resolver}

/-- What stands beside the steps up to a merge is what a recurrence adds. -/
theorem recurrenceAlong_steps {Tree : Type} (text : String) {merge : Nat} {steps : List (Step Tree)}
    (each : ∀ step ∈ steps, step.symbol.isAdditive = true ∧ step.index < merge) {step : Step Tree}
    (index : step.index = merge) (path : List (Step Tree)) :
    recurrenceAlong text merge (steps ++ step :: path) =
      .ok (steps.flatMap Step.siblings, step.child) := by
  induction steps with
  | nil =>
      have same : (step.index : Int) = merge := by rw [index]
      rw [List.nil_append, recurrenceAlong, if_pos same]
      rfl
  | cons first rest ih =>
      rw [List.forall_mem_cons] at each
      obtain ⟨⟨additive, before⟩, later⟩ := each
      have other : ¬ (first.index : Int) = merge := by omega
      rw [List.cons_append, recurrenceAlong, if_neg other, if_pos additive, ih later]
      rfl

theorem find?_isMerge {Tree : Type} {steps : List (Step Tree)}
    (each : ∀ step ∈ steps, step.symbol.isAdditive = true) {step : Step Tree}
    (merges : isMerge step = true) (path : List (Step Tree)) :
    (steps ++ step :: path).find? isMerge = some step := by
  have passed : ∀ other ∈ steps, ¬ isMerge other = true := by
    intro other member merges
    have additive := each other member
    obtain ⟨index, text, symbol, operands, child⟩ := other
    cases symbol with
    | terminal node => cases additive
    | structural node => cases additive
    | operation operation id =>
        cases Kind.operation.inj (beq_iff_eq.mp merges)
        cases additive
  rw [List.find?_append, List.find?_eq_none.mpr passed, List.find?_cons_of_pos merges]
  rfl

variable {tree operand : BinaryTree} {merge term : Nat} {text : Datum}

/-- A filter that lets through no more than one element, and only by a filter that lets it
through alone. -/
theorem filter_eq_singleton {Item : Type} {items : List Item} {wide narrow : Item → Bool}
    {item : Item} (alone : items.filter wide = [item])
    (narrower : ∀ other, narrow other = true → wide other = true) (passed : narrow item = true) :
    items.filter narrow = [item] := by
  have twice : items.filter narrow = (items.filter wide).filter narrow := by
    rw [List.filter_filter]
    refine List.filter_congr (fun other _ => ?_)
    cases found : narrow other with
    | true => rw [narrower other found, Bool.and_true]
    | false => rw [Bool.false_and]
  rw [twice, alone, List.filter_cons_of_pos passed, List.filter_nil]

/-- The only term of a tree is that of a merge if the merge is the nearest above it. -/
theorem termsOfMerge_eq (recurs : tree.Recurs merge term operand text)
    (single : tree.countOf BinaryTree.phiTerms = 1) {steps path : List (Step BinaryTree)}
    {step : Step BinaryTree} (termPath : (tree.placeOf term).path = steps ++ step :: path)
    (each : ∀ step ∈ steps, step.symbol.isAdditive = true) (index : step.index = merge)
    (isMerge : isMerge step = true) :
    termsOfMerge tree.places merge = .ok [tree.placeOf term] := by
  obtain ⟨id, found⟩ := recurs.exists_term
  have isTerm : (tree.placeOf term).kind = .phiTerm := by
    rw [Place.kind, (BinaryTree.placeOf_of_subtree? found).2.2.2]
    rfl
  have alone : placesOf tree.places .phiTerm .null = [tree.placeOf term] :=
    BinaryTree.placesOf_single found (BinaryTree.isOn_term rfl) single
  have mergeIndex : (tree.placeOf merge).site.index = merge :=
    (BinaryTree.index_placeFrom tree 0 [] recurs.lt_size.1).trans (Nat.zero_add merge)
  have within : (tree.placeOf term).isWithin merge = true := by
    rw [Place.isWithin, termPath, List.any_append, List.any_cons, index, beq_self_eq_true,
      Bool.true_or, Bool.or_true, Bool.or_true]
  rw [termsOfMerge, BinaryTree.placeAt_places recurs.lt_size.1]
  change Except.ok (tree.places.filter _) = _
  refine congrArg Except.ok (filter_eq_singleton alone (fun other passed => ?_) ?_)
  · obtain ⟨passed, -⟩ := Bool.and_eq_true_iff.mp passed
    rw [(Bool.and_eq_true_iff.mp passed).1]
    rfl
  · rw [isTerm, mergeIndex, within, termPath, find?_isMerge each isMerge]
    exact beq_iff_eq.mpr (congrArg _ index)

/-- What a recurrence comes to: its merge and its term are the only ones of the tree, and
what stands beside the way from the one to the other adds up to the operand on this way. -/
theorem exists_recurrence (deferring : resolver.emitter.IsDeferring)
    (recurs : tree.Recurs merge term operand text) (spelled : operand.SpellsTerm text)
    (single : tree.countOf BinaryTree.phiTerms = 1) :
    ∃ siblings recurrent,
      termsOfMerge tree.places merge = .ok [tree.placeOf term] ∧
      recurrenceAlong (tree.placeOf merge).text.shown merge (tree.placeOf term).path =
        .ok (siblings, recurrent) ∧
      tree.subtreeAt recurrent = .ok operand ∧
      BinaryTree.AddsUp resolver text operand siblings := by
  obtain ⟨start, number, step, id, reached, place, before, index, isMerge, child, isChild, found⟩ :=
    recurs.exists_step 0 []
  have held := BinaryTree.holds_of_subtree? reached.subtree?_eq (BinaryTree.isOn_term rfl)
  have operandSingle : operand.countOf BinaryTree.phiTerms = 1 :=
    Nat.le_antisymm (single ▸ BinaryTree.countOf_le_of_subtree? _ found) held
  obtain ⟨steps, path, each, adds⟩ := reached.exists_steps deferring rfl spelled operandSingle start
    (step :: (tree.placeFrom 0 [] merge).path)
  rw [Nat.zero_add] at before index isChild
  have termPath : (tree.placeOf term).path = steps ++ step :: (tree.placeOf merge).path := by
    rw [BinaryTree.placeOf, place, path]
    rfl
  refine ⟨steps.flatMap Step.siblings, step.child, ?_, ?_, ?_, adds⟩
  · exact termsOfMerge_eq recurs single termPath (fun other member => (each other member).1) index
      isMerge
  · rw [termPath]
    refine recurrenceAlong_steps _ ?_ index _
    intro other member
    obtain ⟨additive, inside⟩ := each other member
    exact ⟨additive, by omega⟩
  · rw [isChild, BinaryTree.subtreeAt, position?_natCast (BinaryTree.lt_size_of_subtree? found),
      Option.bind_some, found]

/-- Siblings that add up to an integer are worth integers. -/
theorem exists_amounts (deferring : resolver.emitter.IsDeferring)
    {siblings : List (Site BinaryTree)} {total : Value} {ledger after : Ledger} {value : Int}
    (returned : (siblings.foldlM (fun total sibling => do
        let value ← (AddressTree.binaryStrides resolver).value sibling
        (AddressTree.binaryStrides resolver).emitter.combine .add total value) total).outcome
          ledger = (.ok (.int value), after)) :
    ∃ start amounts, total = .int start ∧
      List.Forall₂ (BinaryTree.HasAmount resolver) siblings amounts ∧
      value ≡ start + amounts.sum [ZMOD 2 ^ 64] := by
  induction siblings generalizing total ledger with
  | nil =>
      cases returned
      refine ⟨value, [], rfl, .nil, ?_⟩
      rw [List.sum_nil, Int.add_zero]
  | cons sibling rest ih =>
      rw [List.foldlM_cons] at returned
      obtain ⟨next, middle, added, restReturned⟩ := Analysis.outcome_bind_eq_ok.mp returned
      obtain ⟨sum, amounts, rfl, known, modEq⟩ := ih restReturned
      obtain ⟨found, last, evaluated, combined⟩ := Analysis.outcome_bind_eq_ok.mp added
      obtain ⟨start, amount, rfl, rfl, folded⟩ := Emitter.combine_eq_int deferring combined
      cases folded
      refine ⟨start, amount :: amounts, rfl,
        .cons (BinaryTree.evaluate_eq_pure deferring evaluated) known, ?_⟩
      rw [List.sum_cons, ← Int.add_assoc]
      exact modEq.trans ((wrapWide_modEq _).add_right _)

/-- The stride along the loop of a single recurrence is the stride along its merge, times
what is added per iteration. -/
theorem exists_stride_of_alongLoops (deferring : resolver.emitter.IsDeferring)
    (recurs : tree.Recurs merge term operand text)
    (singleMerge : tree.countOf BinaryTree.merges = 1)
    {siblings : List (Site BinaryTree)} {recurrent : Int}
    (terms : termsOfMerge tree.places merge = .ok [tree.placeOf term])
    (along : recurrenceAlong (tree.placeOf merge).text.shown merge (tree.placeOf term).path =
      .ok (siblings, recurrent)) {stride : Int} {before after : Ledger}
    (returned : (AddressTree.strideAlongLoops resolver (.binary tree)).outcome before =
      (.ok (.int stride), after)) :
    ∃ own amounts, HasStride resolver (tree.placeOf merge) own ∧
      List.Forall₂ (BinaryTree.HasAmount resolver) siblings amounts ∧
      stride ≡ own * amounts.sum [ZMOD 2 ^ 64] := by
  obtain ⟨name, first, second, found⟩ := recurs.exists_merge
  have alone : placesOf tree.places (.operation .phi) .null = [tree.placeOf merge] :=
    BinaryTree.placesOf_single found (BinaryTree.isOn_merges.mpr rfl) singleMerge
  have mergeIndex : (tree.placeOf merge).site.index = merge :=
    (BinaryTree.index_placeFrom tree 0 [] recurs.lt_size.1).trans (Nat.zero_add merge)
  change (alongLoops (AddressTree.binaryStrides resolver) tree.places).outcome before = _
    at returned
  rw [alongLoops, alone, List.foldlM_cons, addRecurrence, mergeIndex, terms] at returned
  change ((Analysis.ofExcept (recurrenceAlong _ _ _) >>= _) >>= _).outcome before = _ at returned
  rw [along, Analysis.ofExcept_ok, pure_bind] at returned
  obtain ⟨total, last, added, done⟩ := Analysis.outcome_bind_eq_ok.mp returned
  cases done
  obtain ⟨sum, _, summed, rest⟩ := Analysis.outcome_bind_eq_ok.mp added
  obtain ⟨scale, _, scaled, rest⟩ := Analysis.outcome_bind_eq_ok.mp rest
  obtain ⟨product, _, multiplied, combined⟩ := Analysis.outcome_bind_eq_ok.mp rest
  obtain ⟨zero, product, isZero, rfl, folded⟩ := Emitter.combine_eq_int deferring combined
  obtain ⟨own, sum, rfl, rfl, productFolded⟩ := Emitter.combine_eq_int deferring multiplied
  obtain ⟨start, amounts, isStart, known, modEq⟩ := exists_amounts deferring summed
  cases isZero
  cases isStart
  cases folded
  cases productFolded
  refine ⟨own, amounts, hasStride_of_outcome deferring scaled, known, ?_⟩
  calc wrapWide (0 + wrapWide (own * sum))
      ≡ 0 + wrapWide (own * sum) [ZMOD 2 ^ 64] := wrapWide_modEq _
    _ = wrapWide (own * sum) := Int.zero_add _
    _ ≡ own * sum [ZMOD 2 ^ 64] := wrapWide_modEq _
    _ ≡ own * (0 + amounts.sum) [ZMOD 2 ^ 64] := modEq.mul_left own
    _ = own * amounts.sum := by rw [Int.zero_add]

end Stride

namespace BinaryTree

variable {resolver : Resolver} {tree operand old new : BinaryTree} {merge term : Nat}
  {text : Datum}

/-- Where the only merge of a tree moves, the value of the tree moves by the stride along
the merge. -/
theorem sub_modEq_of_replaceMerges (deferring : resolver.emitter.IsDeferring)
    (recurs : tree.Recurs merge term operand text) (singleMerge : tree.countOf merges = 1)
    {own start target before after : Int}
    (strided : Stride.HasStride resolver (tree.placeOf merge) own)
    (oldEvaluated : resolver.evaluate old = pure (.int start))
    (newEvaluated : resolver.evaluate new = pure (.int target))
    (evaluated : resolver.evaluate (tree.replaceMerges old) = pure (.int before))
    (otherEvaluated : resolver.evaluate (tree.replaceMerges new) = pure (.int after)) :
    after - before ≡ own * (target - start) [ZMOD 2 ^ 64] := by
  have displaced :=
    displaced_replaceMerges deferring oldEvaluated newEvaluated evaluated otherEvaluated
  obtain ⟨slope, modEq, strides⟩ := displaced.movesBySlope (recurs.carries singleMerge)
  obtain ⟨found, known, sum⟩ := strides 0 [] 1 (Stride.scales_nil resolver)
  obtain ⟨name, first, second, isFound⟩ := recurs.exists_merge
  have alone : placesOf tree.places merges.kind merges.arg = [tree.placeOf merge] :=
    placesOf_single isFound (isOn_merges.mpr rfl) singleMerge
  change List.Forall₂ _ (placesOf tree.places merges.kind merges.arg) found at known
  rw [alone] at known
  cases known with
  | cons once none =>
      cases none
      cases Analysis.pure_int_injective (strided.symm.trans once)
      rw [List.sum_singleton, Int.one_mul] at sum
      exact modEq.trans (sum.symm.mul_right _)

/-- A literal is worth its value unless its token has another one. -/
theorem evaluate_constant {value : Int}
    (own : resolver.unknown? (.text (toString value)) = .ok none) :
    resolver.evaluate (.constant value) = pure (.int value) := by
  refine evaluate_of_resolve ?_
  rw [Resolver.resolve, own]
  rfl

end BinaryTree

variable {resolver : Resolver} {tree operand : BinaryTree} {merge term : Nat} {text : Datum}

/-- The stride along the loop of a recurrence is the change of the address per iteration:
the operand of the merge is the term plus what is added on the way to it, and where the
merge moves by that sum, the address moves by the stride. -/
theorem sub_modEq_strideAlongLoops (deferring : resolver.emitter.IsDeferring)
    (recurs : tree.Recurs merge term operand text) (spelled : operand.SpellsTerm text)
    (singleMerge : tree.countOf BinaryTree.merges = 1)
    (singleTerm : tree.countOf BinaryTree.phiTerms = 1) {stride : Int} {before after : Ledger}
    (strided : (AddressTree.strideAlongLoops resolver (.binary tree)).outcome before =
      (.ok (.int stride), after)) :
    ∃ siblings recurrent amounts,
      Stride.recurrence tree.places term merge = .ok (siblings, recurrent) ∧
      tree.subtreeAt recurrent = .ok operand ∧
      List.Forall₂ (BinaryTree.HasAmount resolver) siblings amounts ∧
      (∀ x value beforeX afterX,
        ((resolver.given [(text, .int x)]).evaluate operand).outcome beforeX =
            (.ok (.int value), afterX) →
          value ≡ x + amounts.sum [ZMOD 2 ^ 64]) ∧
      ∀ v old new, resolver.evaluate old = pure (.int v) →
        resolver.evaluate new = pure (.int (v + amounts.sum)) →
          ∀ atOld atNew beforeOld afterOld beforeNew afterNew,
            (resolver.evaluate (tree.replaceMerges old)).outcome beforeOld =
                (.ok (.int atOld), afterOld) →
              (resolver.evaluate (tree.replaceMerges new)).outcome beforeNew =
                  (.ok (.int atNew), afterNew) →
                atNew - atOld ≡ stride [ZMOD 2 ^ 64] := by
  obtain ⟨siblings, recurrent, terms, along, isOperand, adds⟩ :=
    Stride.exists_recurrence deferring recurs spelled singleTerm
  obtain ⟨own, amounts, strideKnown, known, product⟩ :=
    Stride.exists_stride_of_alongLoops deferring recurs singleMerge terms along strided
  have found : Stride.recurrence tree.places term merge = .ok (siblings, recurrent) := by
    rw [Stride.recurrence, BinaryTree.placeAt_places recurs.lt_size.1,
      BinaryTree.placeAt_places recurs.lt_size.2]
    exact along
  refine ⟨siblings, recurrent, amounts, found, isOperand, known, ?_, ?_⟩
  · intro x value beforeX afterX evaluated
    have stillDeferring : (resolver.given [(text, .int x)]).emitter.IsDeferring := deferring
    obtain ⟨others, otherKnown, modEq⟩ :=
      adds x value (BinaryTree.evaluate_eq_pure stillDeferring evaluated)
    have unique : Relator.RightUnique (BinaryTree.HasAmount resolver) :=
      fun site first second firstKnown secondKnown =>
        Analysis.pure_int_injective (firstKnown.symm.trans secondKnown)
    rw [List.right_unique_forall₂' unique known otherKnown]
    exact modEq
  · intro v old new oldEvaluated newEvaluated atOld atNew _ _ _ _ evaluated otherEvaluated
    calc atNew - atOld
        ≡ own * (v + amounts.sum - v) [ZMOD 2 ^ 64] :=
          BinaryTree.sub_modEq_of_replaceMerges deferring recurs singleMerge strideKnown
            oldEvaluated newEvaluated (BinaryTree.evaluate_eq_pure deferring evaluated)
            (BinaryTree.evaluate_eq_pure deferring otherEvaluated)
      _ = own * amounts.sum := by ring
      _ ≡ stride [ZMOD 2 ^ 64] := product.symm

namespace BinaryTree

/-- What the merge of the next tree gets from the iteration before. -/
def increased : BinaryTree :=
  combine .add (constant 3)
    (combine .or (.leaf (.text "PHI") (.terminal (.phiTerm none))) (constant 4))

/-- A recurrence that starts with an argument and gains 7 per iteration, times 8 less 100. -/
def climbing : BinaryTree :=
  combine .sub
    (combine .shl (combine .phi (.leaf (.text "ARG0") (.terminal (.argument 0))) increased)
      (constant 3))
    (constant 100)

theorem recurs_climbing : climbing.Recurs 6 2 increased (.text "PHI") :=
  .left rfl (.left rfl (.second (.right (.inl rfl) (.left (.inr rfl) (.here _)))))

theorem spellsTerm_increased : increased.SpellsTerm (.text "PHI") := by
  have spelled : ∀ entry ∈ increased.terminals,
      (Datum.text "PHI" == entry.1) = true → entry.2.kind = .phiTerm := by decide
  exact fun other node member => spelled (other, node) member

end BinaryTree

/-- The recurrence moves from 5 to 12 in one iteration, the address from -60 to -4. -/
theorem sub_modEq_strideAlongLoops_climbing :
    (AddressTree.strideAlongLoops (Resolver.sample (.constant 128))
        (.binary .climbing)).outcome {} = (.ok (.int 56), {}) ∧
      ((Resolver.sample (.constant 128)).evaluate
        (BinaryTree.climbing.replaceMerges (.constant 5))).outcome {} = (.ok (.int (-60)), {}) ∧
      ((Resolver.sample (.constant 128)).evaluate
        (BinaryTree.climbing.replaceMerges (.constant 12))).outcome {} = (.ok (.int (-4)), {}) ∧
      (-4 : Int) - -60 ≡ 56 [ZMOD 2 ^ 64] := by
  have strided : (AddressTree.strideAlongLoops (Resolver.sample (.constant 128))
      (.binary .climbing)).outcome {} = (.ok (.int 56), {}) := by cbv
  have evaluated : ((Resolver.sample (.constant 128)).evaluate
      (BinaryTree.climbing.replaceMerges (.constant 5))).outcome {} = (.ok (.int (-60)), {}) := by
    cbv
  have otherEvaluated : ((Resolver.sample (.constant 128)).evaluate
      (BinaryTree.climbing.replaceMerges (.constant 12))).outcome {} = (.ok (.int (-4)), {}) := by
    cbv
  have isFive : (Resolver.sample (.constant 128)).evaluate (.constant 5) = pure (.int 5) :=
    BinaryTree.evaluate_constant rfl
  have isTwelve : (Resolver.sample (.constant 128)).evaluate (.constant 12) = pure (.int 12) :=
    BinaryTree.evaluate_constant rfl
  obtain ⟨siblings, recurrent, amounts, found, -, known, -, moves⟩ :=
    sub_modEq_strideAlongLoops Emitter.isDeferring_symbolic BinaryTree.recurs_climbing
      BinaryTree.spellsTerm_increased (by decide) (by decide) strided
  refine ⟨strided, evaluated, otherEvaluated, ?_⟩
  have isFound : Stride.recurrence BinaryTree.climbing.places (2 : Nat) (6 : Nat) =
      .ok ([⟨3, .constant 4⟩, ⟨1, .constant 3⟩], 5) := rfl
  cases isFound.symm.trans found
  cases known with
  | cons isFour rest =>
      cases rest with
      | cons isThree rest =>
          cases rest
          cases Analysis.pure_int_injective (isFour.symm.trans (BinaryTree.evaluate_constant rfl))
          cases Analysis.pure_int_injective (isThree.symm.trans (BinaryTree.evaluate_constant rfl))
          exact moves 5 _ _ isFive isTwelve _ _ _ _ _ _ evaluated otherEvaluated

end KernelFootprint
