import KernelFootprint.Proofs.Subtraction

/-!
# Displaced nodes and strides

Some nodes of a tree are marked, those of a kind, and moved by a distance. If every node
above a marked one hands on what the mark does, up to a factor free of marks, the value of
the tree moves by a multiple of the distance. The strides along the marked nodes sum up to
that multiple, modulo 2 ^ 64. What moves the nodes is left open: another value for a
terminal, or another tree in the place of a subtree.
-/

namespace KernelFootprint

/-- A kind of nodes, of which only those with a given number count unless it is null. -/
structure Mark where
  kind : Kind
  arg : Datum

namespace Mark

def isOn (mark : Mark) (symbol : Symbol) : Bool :=
  symbol.kind == mark.kind && (mark.arg == .null || symbol.arg == mark.arg)

theorem isOn_null {kind : Kind} {symbol : Symbol} :
    (mk kind .null).isOn symbol = true ↔ symbol.kind = kind := by
  change (symbol.kind == kind && true) = true ↔ _
  rw [Bool.and_true, beq_iff_eq]

end Mark

section Places

variable {Tree : Type} {mark : Mark} {place : Place Tree} {places : List (Place Tree)}

theorem placesOf_cons_of_isOn (isMarked : mark.isOn place.symbol = true) :
    placesOf (place :: places) mark.kind mark.arg =
      place :: placesOf places mark.kind mark.arg :=
  List.filter_cons_of_pos isMarked

theorem placesOf_cons_of_not_isOn (unmarked : ¬ mark.isOn place.symbol = true) :
    placesOf (place :: places) mark.kind mark.arg = placesOf places mark.kind mark.arg :=
  List.filter_cons_of_neg unmarked

end Places

namespace BinaryTree

def countOf (mark : Mark) : BinaryTree → Nat
  | .leaf _ symbol => (mark.isOn symbol.symbol).toNat
  | .branch _ operation left right =>
      (mark.isOn (.operation operation none)).toNat + left.countOf mark + right.countOf mark

/-- Whether one of the nodes of a tree is marked. -/
def Holds (mark : Mark) (tree : BinaryTree) : Prop := 0 < tree.countOf mark

instance (mark : Mark) (tree : BinaryTree) : Decidable (tree.Holds mark) :=
  inferInstanceAs (Decidable (0 < tree.countOf mark))

theorem holds_leaf {mark : Mark} {text : Datum} {symbol : Leaf} :
    (leaf text symbol).Holds mark ↔ mark.isOn symbol.symbol = true := by
  rw [Holds, countOf]
  cases mark.isOn symbol.symbol <;> decide

theorem holds_branch {mark : Mark} {text : String} {operation : Operation}
    {left right : BinaryTree} :
    (branch text operation left right).Holds mark ↔
      mark.isOn (.operation operation none) = true ∨ left.Holds mark ∨ right.Holds mark := by
  rw [Holds, Holds, Holds, countOf]
  cases mark.isOn (.operation operation none) <;> simp

theorem length_placesOf (mark : Mark) (tree : BinaryTree) (first : Nat)
    (path : List (Step BinaryTree)) :
    (placesOf (tree.placesFrom first path) mark.kind mark.arg).length = tree.countOf mark := by
  induction tree generalizing first path with
  | leaf text symbol =>
      rw [placesFrom, countOf]
      by_cases isMarked : mark.isOn symbol.symbol = true
      · rw [placesOf_cons_of_isOn isMarked, isMarked]
        rfl
      · rw [placesOf_cons_of_not_isOn isMarked, eq_false_of_ne_true isMarked]
        rfl
  | branch text operation left right leftIH rightIH =>
      rw [placesFrom_branch, countOf]
      by_cases isMarked : mark.isOn (.operation operation none) = true
      · rw [placesOf_cons_of_isOn isMarked, placesOf_append, List.length_cons, List.length_append,
          leftIH, rightIH, isMarked, Bool.toNat_true]
        omega
      · rw [placesOf_cons_of_not_isOn isMarked, placesOf_append, List.length_append, leftIH,
          rightIH, eq_false_of_ne_true isMarked, Bool.toNat_false]
        omega

theorem placesOf_of_not_holds {mark : Mark} {tree : BinaryTree} (unmarked : ¬ tree.Holds mark)
    (first : Nat) (path : List (Step BinaryTree)) :
    placesOf (tree.placesFrom first path) mark.kind mark.arg = [] := by
  rw [← List.length_eq_zero_iff, length_placesOf]
  exact Nat.eq_zero_of_not_pos unmarked

/-- Whether an operation hands on what moves one operand, up to a factor. -/
def HandsOn (operation : Operation) (isLeft : Bool) : Prop :=
  match operation with
  | .add | .or | .mul => True
  | .sub | .shl => isLeft = true
  | _ => False

instance (operation : Operation) (isLeft : Bool) : Decidable (HandsOn operation isLeft) :=
  match operation with
  | .add | .or | .mul => isTrue trivial
  | .sub | .shl => inferInstanceAs (Decidable (isLeft = true))
  | .and | .div | .udiv | .sdiv | .srem | .lshr | .phi | .icmp | .fcmp | .fmul | .fdiv =>
      isFalse id

/-- Every node above a marked one hands on what the mark does, and none is multiplied by
another. -/
def Carries (mark : Mark) : BinaryTree → Prop
  | .leaf _ _ => True
  | .branch _ operation left right =>
      if mark.isOn (.operation operation none) = true then
        ¬ left.Holds mark ∧ ¬ right.Holds mark
      else
        (left.Holds mark → HandsOn operation true) ∧ (right.Holds mark → HandsOn operation false) ∧
          (operation = .mul → ¬ (left.Holds mark ∧ right.Holds mark)) ∧
          left.Carries mark ∧ right.Carries mark

theorem carries_of_not_holds {mark : Mark} {tree : BinaryTree} (unmarked : ¬ tree.Holds mark) :
    tree.Carries mark := by
  induction tree with
  | leaf text symbol => trivial
  | branch text operation left right leftIH rightIH =>
      rw [holds_branch, not_or, not_or] at unmarked
      obtain ⟨notHere, leftFree, rightFree⟩ := unmarked
      rw [Carries, if_neg notHere]
      exact ⟨fun inLeft => absurd inLeft leftFree, fun inRight => absurd inRight rightFree,
        fun _ both => leftFree both.1, leftIH leftFree, rightIH rightFree⟩

/-- A tree with its values before and after all marked nodes are moved by a distance. -/
inductive Displaced (resolver : Resolver) (mark : Mark) (distance : Int) :
    BinaryTree → Int → Int → Prop
  | marked {tree : BinaryTree} {before after : Int} (isMarked : mark.isOn tree.symbol = true)
      (moved : after - before ≡ distance [ZMOD 2 ^ 64]) :
      Displaced resolver mark distance tree before after
  | free {tree : BinaryTree} {value : Int} (unmarked : ¬ tree.Holds mark)
      (evaluated : resolver.evaluate tree = pure (.int value)) :
      Displaced resolver mark distance tree value value
  | branch {text : String} {operation : Operation} {op : WordOp} {left right : BinaryTree}
      {first second value otherFirst otherSecond other : Int}
      (unmarked : ¬ mark.isOn (.operation operation none) = true)
      (read : operation.wordOp? = some op)
      (onLeft : Displaced resolver mark distance left first otherFirst)
      (onRight : Displaced resolver mark distance right second otherSecond)
      (before : op.fold .wide first second = .ok value)
      (after : op.fold .wide otherFirst otherSecond = .ok other) :
      Displaced resolver mark distance (branch text operation left right) value other

variable {resolver : Resolver} {mark : Mark} {distance : Int} {tree left right : BinaryTree}
  {text : String} {operation : Operation}

theorem Holds.of_isOn (isMarked : mark.isOn tree.symbol = true) : tree.Holds mark := by
  cases tree with
  | leaf text symbol => exact holds_leaf.mpr isMarked
  | branch text operation left right => exact holds_branch.mpr (.inl isMarked)

/-- A tree without marked nodes keeps its value. -/
theorem Displaced.eq_of_not_holds {before after : Int}
    (displaced : Displaced resolver mark distance tree before after)
    (unmarked : ¬ tree.Holds mark) :
    after = before ∧ resolver.evaluate tree = pure (.int before) := by
  induction displaced with
  | marked isMarked moved => exact absurd (Holds.of_isOn isMarked) unmarked
  | free _ evaluated => exact ⟨rfl, evaluated⟩
  | branch _ read onLeft onRight before after leftIH rightIH =>
      rw [holds_branch, not_or, not_or] at unmarked
      obtain ⟨rfl, leftEvaluated⟩ := leftIH unmarked.2.1
      obtain ⟨rfl, rightEvaluated⟩ := rightIH unmarked.2.2
      rw [before] at after
      cases after
      exact ⟨rfl, evaluate_branch_of_fold read leftEvaluated rightEvaluated before⟩

end BinaryTree

namespace Stride

variable {resolver : Resolver} {mark : Mark} {first : Nat} {path : List (Step BinaryTree)}
  {scale : Int}

/-- A place has the product of the factors above it for its stride. -/
theorem exists_hasStride {place : Place BinaryTree} (scaled : Scales resolver place.path scale) :
    ∃ stride, HasStride resolver place stride ∧ stride ≡ scale [ZMOD 2 ^ 64] := by
  obtain ⟨factors, gathered, undivided, product⟩ := scaled place.text.shown
  obtain ⟨stride, multiplied, modEq⟩ := product 1
  rw [Int.one_mul] at modEq
  refine ⟨stride, ?_, modEq⟩
  rw [HasStride, coefficient, Stride.factors, Stride.divisors, gathered, undivided]
  change (factors.foldlM (multiply (AddressTree.binaryStrides resolver)) (.int 1) >>=
    fun product => pure product) = _
  rw [multiplied]
  rfl

/-- The strides along the marked places are known integers, with their sum up to multiples
of 2 ^ 64. -/
def SumTo (resolver : Resolver) (mark : Mark) (places : List (Place BinaryTree)) (amount : Int) :
    Prop :=
  ∃ strides, List.Forall₂ (HasStride resolver) (placesOf places mark.kind mark.arg) strides ∧
    strides.sum ≡ amount [ZMOD 2 ^ 64]

variable {places others : List (Place BinaryTree)} {amount otherAmount : Int}

theorem sumTo_nil : SumTo resolver mark [] 0 := ⟨[], .nil, rfl⟩

theorem SumTo.append (onFirst : SumTo resolver mark places amount)
    (onSecond : SumTo resolver mark others otherAmount) :
    SumTo resolver mark (places ++ others) (amount + otherAmount) := by
  obtain ⟨strides, known, modEq⟩ := onFirst
  obtain ⟨otherStrides, otherKnown, otherModEq⟩ := onSecond
  refine ⟨strides ++ otherStrides, ?_, ?_⟩
  · rw [placesOf_append]
    exact List.rel_append known otherKnown
  · rw [List.sum_append]
    exact modEq.add otherModEq

theorem SumTo.cons_unmarked (onRest : SumTo resolver mark places amount)
    {place : Place BinaryTree} (unmarked : ¬ mark.isOn place.symbol = true) :
    SumTo resolver mark (place :: places) amount := by
  obtain ⟨strides, known, modEq⟩ := onRest
  refine ⟨strides, ?_, modEq⟩
  rw [placesOf_cons_of_not_isOn unmarked]
  exact known

theorem SumTo.cons_marked (onRest : SumTo resolver mark places amount)
    {place : Place BinaryTree} (isMarked : mark.isOn place.symbol = true)
    (scaled : Scales resolver place.path scale) :
    SumTo resolver mark (place :: places) (scale + amount) := by
  obtain ⟨strides, known, modEq⟩ := onRest
  obtain ⟨stride, own, ownModEq⟩ := exists_hasStride scaled
  refine ⟨stride :: strides, ?_, ?_⟩
  · rw [placesOf_cons_of_isOn isMarked]
    exact .cons own known
  · rw [List.sum_cons]
    exact ownModEq.add modEq

theorem sumTo_of_not_holds {tree : BinaryTree} (unmarked : ¬ tree.Holds mark) (first : Nat)
    (path : List (Step BinaryTree)) : SumTo resolver mark (tree.placesFrom first path) 0 := by
  refine ⟨[], ?_, rfl⟩
  rw [BinaryTree.placesOf_of_not_holds unmarked]
  exact .nil

end Stride

namespace BinaryTree

variable {resolver : Resolver} {mark : Mark} {distance : Int} {tree left right : BinaryTree}
  {text : String} {operation : Operation} {before after otherBefore otherAfter : Int}

/-- The value of a tree moves by a multiple of the distance of its marked nodes, and the
strides along these sum up to that multiple, times the factors above the tree. -/
def MovesBySlope (resolver : Resolver) (mark : Mark) (distance : Int) (tree : BinaryTree)
    (before after : Int) : Prop :=
  ∃ slope, after - before ≡ slope * distance [ZMOD 2 ^ 64] ∧
    ∀ first path scale, Stride.Scales resolver path scale →
      Stride.SumTo resolver mark (tree.placesFrom first path) (scale * slope)

theorem movesBySlope_of_not_holds (unmarked : ¬ tree.Holds mark) (value : Int) :
    MovesBySlope resolver mark distance tree value value := by
  refine ⟨0, ?_, ?_⟩
  · rw [Int.sub_self, Int.zero_mul]
  · intro first path scale scaled
    rw [Int.mul_zero]
    exact Stride.sumTo_of_not_holds unmarked first path

theorem movesBySlope_of_isOn (isMarked : mark.isOn tree.symbol = true) (carries : tree.Carries mark)
    (moved : after - before ≡ distance [ZMOD 2 ^ 64]) :
    MovesBySlope resolver mark distance tree before after := by
  refine ⟨1, ?_, ?_⟩
  · rw [Int.one_mul]
    exact moved
  · intro first path scale scaled
    rw [Int.mul_one, ← Int.add_zero scale]
    cases tree with
    | leaf text symbol =>
        exact Stride.sumTo_nil.cons_marked isMarked scaled
    | branch text operation left right =>
        have own : mark.isOn (.operation operation none) = true := isMarked
        rw [Carries, if_pos own] at carries
        rw [placesFrom_branch]
        exact ((Stride.sumTo_of_not_holds carries.1 _ _).append
          (Stride.sumTo_of_not_holds carries.2 _ _)).cons_marked isMarked scaled

theorem MovesBySlope.add (onLeft : MovesBySlope resolver mark distance left before after)
    (onRight : MovesBySlope resolver mark distance right otherBefore otherAfter)
    (unmarked : ¬ mark.isOn (.operation operation none) = true)
    (additive : operation = .add ∨ operation = .or) (text : String) :
    MovesBySlope resolver mark distance (branch text operation left right)
      (wrapWide (before + otherBefore)) (wrapWide (after + otherAfter)) := by
  obtain ⟨slope, modEq, strides⟩ := onLeft
  obtain ⟨otherSlope, otherModEq, otherStrides⟩ := onRight
  refine ⟨slope + otherSlope, ?_, ?_⟩
  · calc wrapWide (after + otherAfter) - wrapWide (before + otherBefore)
        ≡ after + otherAfter - (before + otherBefore) [ZMOD 2 ^ 64] :=
          (wrapWide_modEq _).sub (wrapWide_modEq _)
      _ = after - before + (otherAfter - otherBefore) := by ring
      _ ≡ slope * distance + otherSlope * distance [ZMOD 2 ^ 64] := modEq.add otherModEq
      _ = (slope + otherSlope) * distance := by ring
  · intro first path scale scaled
    rw [placesFrom_branch, Int.mul_add]
    exact ((strides _ _ _ (scaled.additive additive _)).append
      (otherStrides _ _ _ (scaled.additive additive _))).cons_unmarked unmarked

theorem MovesBySlope.sub (onLeft : MovesBySlope resolver mark distance left before after)
    (free : ¬ right.Holds mark) (unmarked : ¬ mark.isOn (.operation .sub none) = true)
    (text : String) (value : Int) :
    MovesBySlope resolver mark distance (branch text .sub left right)
      (wrapWide (before - value)) (wrapWide (after - value)) := by
  obtain ⟨slope, modEq, strides⟩ := onLeft
  refine ⟨slope, ?_, ?_⟩
  · calc wrapWide (after - value) - wrapWide (before - value)
        ≡ after - value - (before - value) [ZMOD 2 ^ 64] :=
          (wrapWide_modEq _).sub (wrapWide_modEq _)
      _ = after - before := by ring
      _ ≡ slope * distance [ZMOD 2 ^ 64] := modEq
  · intro first path scale scaled
    rw [placesFrom_branch, ← Int.add_zero (scale * slope)]
    exact ((strides _ _ _ (scaled.difference _)).append
      (Stride.sumTo_of_not_holds free _ _)).cons_unmarked unmarked

/-- What a product with a constant factor moves by. -/
theorem wrapWide_mul_sub_modEq {slope factor : Int}
    (modEq : after - before ≡ slope * distance [ZMOD 2 ^ 64]) :
    wrapWide (after * factor) - wrapWide (before * factor) ≡
      factor * slope * distance [ZMOD 2 ^ 64] :=
  calc wrapWide (after * factor) - wrapWide (before * factor)
      ≡ after * factor - before * factor [ZMOD 2 ^ 64] :=
        (wrapWide_modEq _).sub (wrapWide_modEq _)
    _ = (after - before) * factor := by ring
    _ ≡ slope * distance * factor [ZMOD 2 ^ 64] := modEq.mul_right factor
    _ = factor * slope * distance := by ring

theorem MovesBySlope.mul_right (onLeft : MovesBySlope resolver mark distance left before after)
    (free : ¬ right.Holds mark) {value : Int}
    (evaluated : resolver.evaluate right = pure (.int value))
    (unmarked : ¬ mark.isOn (.operation .mul none) = true) (text : String) :
    MovesBySlope resolver mark distance (branch text .mul left right)
      (wrapWide (before * value)) (wrapWide (after * value)) := by
  obtain ⟨slope, modEq, strides⟩ := onLeft
  refine ⟨value * slope, wrapWide_mul_sub_modEq modEq, ?_⟩
  intro first path scale scaled
  rw [placesFrom_branch, ← Int.add_zero (scale * (value * slope)), ← Int.mul_assoc,
    Int.mul_comm scale value]
  exact ((strides _ _ _ (scaled.times_right evaluated)).append
    (Stride.sumTo_of_not_holds free _ _)).cons_unmarked unmarked

theorem MovesBySlope.mul_left (onRight : MovesBySlope resolver mark distance right before after)
    (free : ¬ left.Holds mark) {value : Int}
    (evaluated : resolver.evaluate left = pure (.int value))
    (unmarked : ¬ mark.isOn (.operation .mul none) = true) (text : String) :
    MovesBySlope resolver mark distance (branch text .mul left right)
      (wrapWide (value * before)) (wrapWide (value * after)) := by
  obtain ⟨slope, modEq, strides⟩ := onRight
  rw [Int.mul_comm value before, Int.mul_comm value after]
  refine ⟨value * slope, wrapWide_mul_sub_modEq modEq, ?_⟩
  intro first path scale scaled
  rw [placesFrom_branch, ← Int.zero_add (scale * (value * slope)), ← Int.mul_assoc,
    Int.mul_comm scale value]
  exact ((Stride.sumTo_of_not_holds free _ _).append
    (strides _ _ _ (scaled.times_left evaluated))).cons_unmarked unmarked

theorem MovesBySlope.shl (onLeft : MovesBySlope resolver mark distance left before after)
    (free : ¬ right.Holds mark) {amount : Int}
    (evaluated : resolver.evaluate right = pure (.int amount))
    (inside : 0 ≤ amount ∧ amount < 64)
    (unmarked : ¬ mark.isOn (.operation .shl none) = true) (text : String) :
    MovesBySlope resolver mark distance (branch text .shl left right)
      (wrapWide (before * 2 ^ amount.toNat)) (wrapWide (after * 2 ^ amount.toNat)) := by
  obtain ⟨slope, modEq, strides⟩ := onLeft
  refine ⟨2 ^ amount.toNat * slope, wrapWide_mul_sub_modEq modEq, ?_⟩
  intro first path scale scaled
  rw [placesFrom_branch, ← Int.add_zero (scale * (2 ^ amount.toNat * slope)), ← Int.mul_assoc,
    Int.mul_comm scale (2 ^ amount.toNat)]
  exact ((strides _ _ _ (scaled.times_power evaluated inside)).append
    (Stride.sumTo_of_not_holds free _ _)).cons_unmarked unmarked

/-- Where all nodes above the marked ones hand on what these do, the value of a tree moves
by the sum of the strides along them. -/
theorem Displaced.movesBySlope (displaced : Displaced resolver mark distance tree before after)
    (carries : tree.Carries mark) : MovesBySlope resolver mark distance tree before after := by
  induction displaced with
  | marked isMarked moved => exact movesBySlope_of_isOn isMarked carries moved
  | free unmarked _ => exact movesBySlope_of_not_holds unmarked _
  | @branch text operation op left right first second value otherFirst otherSecond other unmarked
      read onLeft onRight folded otherFolded leftIH rightIH =>
      rw [Carries, if_neg unmarked] at carries
      obtain ⟨passesLeft, passesRight, single, leftCarries, rightCarries⟩ := carries
      have leftMoves := leftIH leftCarries
      have rightMoves := rightIH rightCarries
      have still (leftFree : ¬ left.Holds mark) (rightFree : ¬ right.Holds mark) :
          MovesBySlope resolver mark distance (.branch text operation left right) value other := by
        have free : ¬ (BinaryTree.branch text operation left right).Holds mark := by
          rw [holds_branch]
          rintro (own | inLeft | inRight)
          · exact unmarked own
          · exact leftFree inLeft
          · exact rightFree inRight
        obtain ⟨rfl, -⟩ :=
          (Displaced.branch unmarked read onLeft onRight folded otherFolded).eq_of_not_holds free
        exact movesBySlope_of_not_holds free _
      cases operation with
      | add =>
          cases read
          cases folded
          cases otherFolded
          exact leftMoves.add rightMoves unmarked (.inl rfl) text
      | or =>
          cases read
          cases folded
          cases otherFolded
          exact leftMoves.add rightMoves unmarked (.inr rfl) text
      | sub =>
          have free : ¬ right.Holds mark := fun inRight => by cases passesRight inRight
          obtain ⟨rfl, -⟩ := onRight.eq_of_not_holds free
          cases read
          cases folded
          cases otherFolded
          exact leftMoves.sub free unmarked text _
      | mul =>
          cases read
          cases folded
          cases otherFolded
          by_cases inRight : right.Holds mark
          · have free : ¬ left.Holds mark := fun inLeft => single rfl ⟨inLeft, inRight⟩
            obtain ⟨rfl, evaluated⟩ := onLeft.eq_of_not_holds free
            exact rightMoves.mul_left free evaluated unmarked text
          · obtain ⟨rfl, evaluated⟩ := onRight.eq_of_not_holds inRight
            exact leftMoves.mul_right inRight evaluated unmarked text
      | shl =>
          have free : ¬ right.Holds mark := fun inRight => by cases passesRight inRight
          obtain ⟨rfl, evaluated⟩ := onRight.eq_of_not_holds free
          cases read
          have inside := WordOp.accepts_of_fold folded
          rw [WordOp.fold_shl inside] at folded otherFolded
          cases folded
          cases otherFolded
          exact leftMoves.shl free evaluated inside unmarked text
      | _ =>
          exact still (fun inLeft => by cases passesLeft inLeft)
            (fun inRight => by cases passesRight inRight)

end BinaryTree

end KernelFootprint
