import KernelFootprint.Address.Range
import KernelFootprint.Proofs.Index
import Mathlib

/-!
# The working set of a monotone address

Sums and products of natural numbers grow with every operand, shifts and
quotients with the first one. An address built from them takes its least value
where all indices are zero and its greatest one where all of them are maximal.
As long as no subtree reaches 2 ^ 63 there, nothing wraps for any thread, and
the working set is the distance between the two values.
-/

namespace KernelFootprint

namespace Operation

/-- Operations that grow with both operands. -/
def growsInBoth : Operation → Bool
  | .add | .or | .mul => true
  | _ => false

/-- Operations that grow with the first operand as long as the second stays. -/
def growsInFirst : Operation → Bool
  | .shl | .lshr | .div | .udiv | .sdiv => true
  | _ => false

end Operation

theorem Operation.wordOp?_of_grows {operation : Operation}
    (grows : operation.growsInBoth = true ∨ operation.growsInFirst = true) :
    ∃ op, operation.wordOp? = some op := by
  cases operation with
  | phi | icmp | fcmp | fmul | fdiv => simp [growsInBoth, growsInFirst] at grows
  | _ => exact ⟨_, rfl⟩

namespace WordOp

theorem accepts_of_growsInBoth {operation : Operation} {op : WordOp}
    (read : operation.wordOp? = some op) (grows : operation.growsInBoth = true) (second : Int) :
    op.Accepts second := by
  cases operation with
  | add | or | mul =>
      cases read
      trivial
  | _ => cases grows

/-- Sums and products of natural numbers keep their order. -/
theorem unbounded_le_of_growsInBoth {operation : Operation} {op : WordOp}
    (read : operation.wordOp? = some op) (grows : operation.growsInBoth = true)
    {first second higher higherSecond : Int} (firstLow : 0 ≤ first) (secondLow : 0 ≤ second)
    (firstLe : first ≤ higher) (secondLe : second ≤ higherSecond) :
    0 ≤ op.unbounded first second ∧
      op.unbounded first second ≤ op.unbounded higher higherSecond := by
  cases operation with
  | add | or =>
      cases read
      exact ⟨Int.add_nonneg firstLow secondLow, Int.add_le_add firstLe secondLe⟩
  | mul =>
      cases read
      exact ⟨Int.mul_nonneg firstLow secondLow,
        Int.mul_le_mul firstLe secondLe secondLow (Int.le_trans firstLow firstLe)⟩
  | _ => cases grows

/-- Shifts and quotients of natural numbers keep the order of their first operands. -/
theorem unbounded_le_of_growsInFirst {operation : Operation} {op : WordOp}
    (read : operation.wordOp? = some op) (grows : operation.growsInFirst = true)
    {first second higher : Int} (firstLow : 0 ≤ first) (secondLow : 0 ≤ second)
    (firstLe : first ≤ higher) :
    0 ≤ op.unbounded first second ∧ op.unbounded first second ≤ op.unbounded higher second := by
  have powerPos : (0 : Int) < 2 ^ second.toNat := Int.pow_pos (by decide)
  have quotient : 0 ≤ first / second ∧ first / second ≤ higher / second := by
    refine ⟨Int.ediv_nonneg firstLow secondLow, ?_⟩
    rcases Int.lt_or_eq_of_le secondLow with positive | zero
    · exact Int.ediv_le_ediv positive firstLe
    · rw [← zero, Int.ediv_zero, Int.ediv_zero]
  cases operation with
  | shl =>
      cases read
      exact ⟨Int.mul_nonneg firstLow (Int.le_of_lt powerPos),
        Int.mul_le_mul_of_nonneg_right firstLe (Int.le_of_lt powerPos)⟩
  | lshr =>
      cases read
      exact ⟨Int.ediv_nonneg firstLow (Int.le_of_lt powerPos),
        Int.ediv_le_ediv powerPos firstLe⟩
  | div | udiv =>
      cases read
      exact quotient
  | sdiv =>
      cases read
      change 0 ≤ first.tdiv second ∧ first.tdiv second ≤ higher.tdiv second
      rw [Int.tdiv_eq_ediv_of_nonneg firstLow,
        Int.tdiv_eq_ediv_of_nonneg (Int.le_trans firstLow firstLe)]
      exact quotient
  | _ => cases grows

end WordOp

namespace BinaryTree

/-- Trees over indices and natural numbers in which an operation that grows with its
first operand only has no index below the second one. -/
def IsMonotone (resolver : Resolver) : BinaryTree → Prop
  | .leaf text (.terminal node) =>
      node.IsIndex ∨
        ∃ value : Int, 0 ≤ value ∧ resolver.resolve text (.terminal node) = .ok (.int value)
  | .leaf _ (.structural _) => False
  | .branch _ operation left right =>
      (operation.growsInBoth = true ∨
        operation.growsInFirst = true ∧ ∀ index, ¬ right.Mentions index) ∧
        left.IsMonotone resolver ∧ right.IsMonotone resolver

/-- The value of a tree over unbounded integers for given indices. -/
def exactAt (resolver : Resolver) (assignment : Index → Int) (tree : BinaryTree) : Int :=
  tree.exact Operation.wordOp? (resolver.given (Resolver.indexValues assignment)).number

variable (resolver : Resolver)

theorem exactAt_leaf {resolver : Resolver} {assignment : Index → Int} {text : Datum} {node : Terminal} {value : Int}
    (resolved : (resolver.given (Resolver.indexValues assignment)).resolve text
      (.terminal node) = .ok (.int value)) :
    (leaf text (.terminal node)).exactAt resolver assignment = value := by
  change Resolver.number _ text node = value
  rw [Resolver.number, resolved]

theorem exactAt_branch {operation : Operation} {op : WordOp}
    (read : operation.wordOp? = some op) {assignment : Index → Int} {text : String}
    {left right : BinaryTree} :
    (branch text operation left right).exactAt resolver assignment =
      op.unbounded (left.exactAt resolver assignment) (right.exactAt resolver assignment) :=
  exact_branch read _ text left right

/-- An index has the value that is given for it. -/
theorem resolve_indexValues {text : Datum} {index : Index}
    (spelled : (leaf text (.terminal index.terminal)).Spells index) (assignment : Index → Int) :
    (resolver.given (Resolver.indexValues assignment)).resolve text
      (.terminal index.terminal) = .ok (.int (assignment index)) := by
  have token : text = index.token := (spelled text _ (List.mem_singleton.mpr rfl)).mpr rfl
  subst token
  exact Resolver.resolve_of_unknown (Resolver.unknown?_indexValues assignment index) _

/-- Every other terminal keeps its value. -/
theorem resolve_indexValues_of_not_isIndex {text : Datum} {node : Terminal}
    (other : ¬ node.IsIndex) (spelled : ∀ index, (leaf text (.terminal node)).Spells index)
    (assignment : Index → Int) :
    (resolver.given (Resolver.indexValues assignment)).resolve text (.terminal node) =
      resolver.resolve text (.terminal node) := by
  have unread (index : Index) : text ≠ index.token := fun token =>
    other ⟨index, (spelled index text node (List.mem_singleton.mpr rfl)).mp token⟩
  exact Resolver.resolve_congr (Resolver.unknown?_indexValues_of_ne unread assignment) rfl _

/-- Terminals of a monotone tree keep the order of indices. -/
theorem exactAt_leaf_le {text : Datum} {node : Terminal}
    (monotone : (leaf text (.terminal node)).IsMonotone resolver)
    (spelled : ∀ index, (leaf text (.terminal node)).Spells index) {low high : Index → Int}
    (lowNonneg : ∀ index, 0 ≤ low index) (ordered : ∀ index, low index ≤ high index) :
    0 ≤ (leaf text (.terminal node)).exactAt resolver low ∧
      (leaf text (.terminal node)).exactAt resolver low ≤
        (leaf text (.terminal node)).exactAt resolver high := by
  by_cases isIndex : node.IsIndex
  · obtain ⟨index, rfl⟩ := isIndex
    rw [exactAt_leaf (resolve_indexValues resolver (spelled index) low),
      exactAt_leaf (resolve_indexValues resolver (spelled index) high)]
    exact ⟨lowNonneg index, ordered index⟩
  · obtain ⟨value, nonneg, resolved⟩ := monotone.resolve_left isIndex
    have atLow := resolve_indexValues_of_not_isIndex resolver isIndex spelled low
    have atHigh := resolve_indexValues_of_not_isIndex resolver isIndex spelled high
    rw [exactAt_leaf (atLow.trans resolved), exactAt_leaf (atHigh.trans resolved)]
    exact ⟨nonneg, Int.le_refl value⟩

theorem evaluate_leaf {text : Datum} {node : Terminal}
    (monotone : (leaf text (.terminal node)).IsMonotone resolver)
    (spelled : ∀ index, (leaf text (.terminal node)).Spells index) (assignment : Index → Int) :
    (resolver.given (Resolver.indexValues assignment)).evaluate (leaf text (.terminal node)) =
      pure (.int ((leaf text (.terminal node)).exactAt resolver assignment)) := by
  have evaluated {value : Int}
      (resolved : (resolver.given (Resolver.indexValues assignment)).resolve text
        (.terminal node) = .ok (.int value)) :
      (resolver.given (Resolver.indexValues assignment)).evaluate (leaf text (.terminal node)) =
        pure (.int ((leaf text (.terminal node)).exactAt resolver assignment)) := by
    rw [exactAt_leaf resolved]
    exact evaluate_of_resolve resolved
  by_cases isIndex : node.IsIndex
  · obtain ⟨index, rfl⟩ := isIndex
    exact evaluated (resolve_indexValues resolver (spelled index) assignment)
  · obtain ⟨value, _, resolved⟩ := monotone.resolve_left isIndex
    exact evaluated
      ((resolve_indexValues_of_not_isIndex resolver isIndex spelled assignment).trans resolved)

/-- Without an index a tree has the same exact value for every thread. -/
theorem exactAt_of_not_mentions {tree : BinaryTree}
    (spelled : ∀ index, tree.Spells index)
    (free : ∀ index, ¬ tree.Mentions index) (low high : Index → Int) :
    tree.exactAt resolver low = tree.exactAt resolver high := by
  apply exact_congr
  intro text node member
  have other : ¬ node.IsIndex := by
    rintro ⟨index, rfl⟩
    exact free index ⟨text, member⟩
  have leafSpelled (index : Index) : (leaf text (.terminal node)).Spells index := by
    intro otherText otherNode same
    cases List.mem_singleton.mp same
    exact spelled index text node member
  rw [Resolver.number, Resolver.number,
    resolve_indexValues_of_not_isIndex resolver other leafSpelled low,
    resolve_indexValues_of_not_isIndex resolver other leafSpelled high]

/-- The exact values of a monotone tree are natural numbers in the order of the indices. -/
theorem exactAt_le {tree : BinaryTree} (monotone : tree.IsMonotone resolver)
    (spelled : ∀ index, tree.Spells index) {low high : Index → Int}
    (lowNonneg : ∀ index, 0 ≤ low index) (ordered : ∀ index, low index ≤ high index) :
    0 ≤ tree.exactAt resolver low ∧
      tree.exactAt resolver low ≤ tree.exactAt resolver high := by
  induction tree with
  | leaf text symbol =>
      cases symbol with
      | terminal node => exact exactAt_leaf_le resolver monotone spelled lowNonneg ordered
      | structural node => cases monotone
  | branch text operation left right leftIH rightIH =>
      obtain ⟨shape, leftMonotone, rightMonotone⟩ := monotone
      have rightSpelled (index : Index) : right.Spells index :=
        (spells_branch.mp (spelled index)).2
      obtain ⟨leftNonneg, leftLe⟩ := leftIH leftMonotone
        (fun index => (spells_branch.mp (spelled index)).1)
      obtain ⟨rightNonneg, rightLe⟩ := rightIH rightMonotone rightSpelled
      obtain ⟨op, read⟩ := Operation.wordOp?_of_grows (shape.imp_right And.left)
      rw [exactAt_branch resolver read, exactAt_branch resolver read]
      rcases shape with inBoth | ⟨inFirst, free⟩
      · exact WordOp.unbounded_le_of_growsInBoth read inBoth leftNonneg rightNonneg leftLe rightLe
      · rw [exactAt_of_not_mentions resolver rightSpelled free high low]
        exact WordOp.unbounded_le_of_growsInFirst read inFirst leftNonneg rightNonneg leftLe

/-- A monotone tree that has a value for the greatest indices, with nothing at or
beyond 2 ^ 63 in it, has its exact value for all lesser indices. -/
theorem evaluate_of_isMonotone {tree : BinaryTree} (monotone : tree.IsMonotone resolver)
    (spelled : ∀ index, tree.Spells index) {low high : Index → Int}
    (lowNonneg : ∀ index, 0 ≤ low index) (ordered : ∀ index, low index ≤ high index)
    (bounded : tree.Everywhere (fun part => part.exactAt resolver high < 2 ^ 63))
    {ledger after : Ledger} {value : Value}
    (returned : ((resolver.given (Resolver.indexValues high)).evaluate tree).outcome ledger =
      (.ok value, after)) :
    (resolver.given (Resolver.indexValues low)).evaluate tree =
      pure (.int (tree.exactAt resolver low)) := by
  induction tree generalizing low ledger after value with
  | leaf text symbol =>
      cases symbol with
      | terminal node => exact evaluate_leaf resolver monotone spelled low
      | structural node => cases monotone
  | branch text operation left right leftIH rightIH =>
      have rootLe := exactAt_le resolver monotone spelled lowNonneg ordered
      obtain ⟨shape, leftMonotone, rightMonotone⟩ := monotone
      obtain ⟨rootBounded, leftBounded, rightBounded⟩ := bounded
      have leftSpelled (index : Index) : left.Spells index := (spells_branch.mp (spelled index)).1
      have rightSpelled (index : Index) : right.Spells index :=
        (spells_branch.mp (spelled index)).2
      obtain ⟨leftNonneg, leftLe⟩ :=
        exactAt_le resolver leftMonotone leftSpelled lowNonneg ordered
      obtain ⟨rightNonneg, rightLe⟩ :=
        exactAt_le resolver rightMonotone rightSpelled lowNonneg ordered
      have highNonneg (index : Index) : 0 ≤ high index :=
        Int.le_trans (lowNonneg index) (ordered index)
      obtain ⟨first, middle, second, last, leftReturned, rightReturned, applied⟩ :=
        evaluateWith_branch_eq_ok.mp returned
      have leftLow := leftIH leftMonotone leftSpelled lowNonneg ordered leftBounded leftReturned
      have rightLow :=
        rightIH rightMonotone rightSpelled lowNonneg ordered rightBounded rightReturned
      obtain ⟨op, read⟩ := Operation.wordOp?_of_grows (shape.imp_right And.left)
      -- A second operand that decides on acceptance is the same for the greatest indices.
      have accepted : op.Accepts (right.exactAt resolver low) := by
        rcases shape with inBoth | ⟨_, free⟩
        · exact WordOp.accepts_of_growsInBoth read inBoth _
        · have leftHigh := leftIH leftMonotone leftSpelled highNonneg (fun _ => Int.le_refl _)
            leftBounded leftReturned
          have rightHigh := rightIH rightMonotone rightSpelled highNonneg
            (fun _ => Int.le_refl _) rightBounded rightReturned
          rw [Resolver.evaluate] at leftHigh rightHigh
          rw [leftHigh] at leftReturned
          rw [rightHigh] at rightReturned
          cases leftReturned
          cases rightReturned
          rw [apply_of_wordOp? read] at applied
          obtain ⟨result, folded, _, _⟩ := Emitter.fold_of_combine applied
          rw [exactAt_of_not_mentions resolver rightSpelled free low high]
          exact WordOp.accepts_of_fold folded
      rw [exactAt_branch resolver read] at rootLe rootBounded
      rw [exactAt_branch resolver read] at rootLe
      have folded := WordOp.fold_eq_unbounded accepted leftNonneg
        (Int.lt_of_le_of_lt leftLe leftBounded.self) rightNonneg
        (Int.lt_of_le_of_lt rightLe rightBounded.self) rootLe.1
        (Int.lt_of_le_of_lt rootLe.2 rootBounded)
      rw [exactAt_branch resolver read, Resolver.evaluate,
        evaluateWith_branch leftLow rightLow, apply_of_wordOp? read]
      exact Emitter.combine_of_fold _ folded

theorem isMonotone_terminal {tree : BinaryTree} (monotone : tree.IsMonotone resolver)
    {text : Datum} {node : Terminal} (member : (text, node) ∈ tree.terminals) :
    (leaf text (.terminal node)).IsMonotone resolver := by
  induction tree with
  | leaf otherText symbol =>
      cases symbol with
      | terminal other =>
          cases List.mem_singleton.mp member
          exact monotone
      | structural other => cases member
  | branch otherText operation left right leftIH rightIH =>
      rcases List.mem_append.mp member with inLeft | inRight
      · exact leftIH monotone.2.1 inLeft
      · exact rightIH monotone.2.2 inRight

theorem phi_not_mem_operations {tree : BinaryTree} (monotone : tree.IsMonotone resolver) :
    .phi ∉ tree.operations := by
  induction tree with
  | leaf text symbol => exact List.not_mem_nil
  | branch text operation left right leftIH rightIH =>
      obtain ⟨shape, leftMonotone, rightMonotone⟩ := monotone
      intro member
      rcases List.mem_cons.mp member with root | below
      · subst root
        simp [Operation.growsInBoth, Operation.growsInFirst] at shape
      · rcases List.mem_append.mp below with inLeft | inRight
        · exact leftIH leftMonotone inLeft
        · exact rightIH rightMonotone inRight

end BinaryTree

/-- The indices of a thread of the grid. -/
def InGrid (extent assignment : Index → Int) : Prop :=
  ∀ index, 0 ≤ assignment index ∧ assignment index < extent index

theorem inGrid_indices {extent : Index → Int} (positive : ∀ index, 0 < extent index)
    (mode : Mode) : InGrid extent (mode.indices extent) := by
  intro index
  have := positive index
  cases mode with
  | least => exact ⟨Int.le_refl 0, this⟩
  | greatest =>
      change 0 ≤ extent index - 1 ∧ extent index - 1 < extent index
      omega

theorem InGrid.le_greatest {extent assignment : Index → Int} (inside : InGrid extent assignment)
    (index : Index) : assignment index ≤ Mode.greatest.indices extent index := by
  have := (inside index).2
  change assignment index ≤ extent index - 1
  omega

/-- The extreme value of a monotone address is its value for the extreme indices. -/
theorem RangeContext.ofBinary_eq_evaluate {context : RangeContext} {extent : Index → Int}
    (free : context.resolver.unknowns = []) (extents : context.resolver.HasExtents extent)
    {tree : BinaryTree} (monotone : tree.IsMonotone context.resolver)
    (spelled : ∀ index, tree.Spells index)
    (bounded : ∀ index, tree.Mentions index → extent index - 1 < 2 ^ 63) :
    context.ofBinary tree =
      (context.resolver.given (Resolver.indexValues (context.mode.indices extent))).evaluate
        tree := by
  refine BinaryTree.evaluateWith_congr rfl ?_ (fun member =>
    absurd member (BinaryTree.phi_not_mem_operations context.resolver monotone))
  intro text node member
  have leafSpelled (index : Index) : (BinaryTree.leaf text (.terminal node)).Spells index := by
    intro otherText otherNode same
    cases List.mem_singleton.mp same
    exact spelled index text node member
  change context.terminal text node = Analysis.ofExcept (Resolver.resolve _ text (.terminal node))
  by_cases isIndex : node.IsIndex
  · obtain ⟨index, rfl⟩ := isIndex
    have token : text = index.token := (spelled index text _ member).mpr rfl
    have serves : text.isKey = true := by rw [token]; rfl
    have inside : wrapWide (context.mode.indices extent index) =
        context.mode.indices extent index := by
      have positive := (extents index).2
      have small := bounded index ⟨text, member⟩
      cases context.mode with
      | least => rfl
      | greatest => exact wrapWide_eq_self (by change -2 ^ 63 ≤ extent index - 1; omega) small
    rw [BinaryTree.resolve_indexValues context.resolver (leafSpelled index),
      context.terminal_of_free free serves,
      RangeContext.intrinsic_index_of_int (fun index => (extents index).1), inside]
    rfl
  · obtain ⟨value, nonneg, resolved⟩ :=
      (BinaryTree.isMonotone_terminal context.resolver monotone member).resolve_left isIndex
    rw [BinaryTree.resolve_indexValues_of_not_isIndex context.resolver isIndex leafSpelled,
      resolved, RangeContext.terminal_of_resolve free resolved]
    rfl

/-- A bound on all exact values of a tree bounds the indices in it. -/
theorem BinaryTree.index_lt_of_everywhere {resolver : Resolver} {assignment : Index → Int}
    {bound : Int} {tree : BinaryTree} (spelled : ∀ index, tree.Spells index)
    (bounded : tree.Everywhere (fun part => part.exactAt resolver assignment < bound))
    {index : Index} (mentioned : tree.Mentions index) : assignment index < bound := by
  induction tree with
  | leaf text symbol =>
      obtain ⟨other, member⟩ := mentioned
      cases symbol with
      | terminal node =>
          cases List.mem_singleton.mp member
          have small : (leaf text (.terminal index.terminal)).exactAt resolver assignment < bound :=
            bounded
          rwa [exactAt_leaf (resolve_indexValues resolver (spelled index) assignment)] at small
      | structural node => cases member
  | branch text operation left right leftIH rightIH =>
      obtain ⟨_, leftBounded, rightBounded⟩ := bounded
      rcases mentions_branch.mp mentioned with onLeft | onRight
      · exact leftIH (fun index => (spells_branch.mp (spelled index)).1) leftBounded onLeft
      · exact rightIH (fun index => (spells_branch.mp (spelled index)).2) rightBounded onRight

/-- The values that an address takes for the threads of the grid. -/
def BinaryTree.addresses (resolver : Resolver) (extent : Index → Int) (tree : BinaryTree) :
    Set Int :=
  {address | ∃ assignment, InGrid extent assignment ∧
    (resolver.given (Resolver.indexValues assignment)).evaluate tree = pure (.int address)}

/-- Between extremes that are natural numbers below 2 ^ 63 the distance does not wrap. -/
theorem workingSetSize_of_extremes {resolver : Resolver} {view : Option LoopView} {loop : Datum}
    {tree : AddressTree} {least greatest : Int}
    (low : tree.extremeValue (.of resolver .least view loop) = pure (.int least))
    (high : tree.extremeValue (.of resolver .greatest view loop) = pure (.int greatest))
    (nonneg : 0 ≤ least) (ordered : least ≤ greatest) (small : greatest < 2 ^ 63) :
    workingSetSize resolver view loop tree = pure (.int (greatest - least)) := by
  have maximum : WordOp.max.fold .wide greatest least = .ok greatest := by
    rw [WordOp.fold_max, max_eq_left ordered, wrapWide_eq_self (by omega) small]
  have minimum : WordOp.min.fold .wide greatest least = .ok least := by
    rw [WordOp.fold_min, min_eq_right ordered, wrapWide_eq_self (by omega) (by omega)]
  have distance : WordOp.sub.fold .wide greatest least = .ok (greatest - least) := by
    rw [WordOp.fold_sub, wrapWide_eq_self (by omega) (by omega)]
  rw [workingSetSize, high, low]
  simp only [pure_bind, Emitter.combine_of_fold _ maximum, Emitter.combine_of_fold _ minimum,
    Emitter.combine_of_fold _ distance]

/-- The greatest value of a monotone address below 2 ^ 63 is attained at the maximal
indices, the least one at zero, and the working set is the distance between them. -/
theorem workingSetSize_of_isMonotone (resolver : Resolver) (view : Option LoopView) (loop : Datum)
    {extent : Index → Int} {tree : BinaryTree} (free : resolver.unknowns = [])
    (extents : resolver.HasExtents extent) (monotone : tree.IsMonotone resolver)
    (spelled : ∀ index, tree.Spells index) {ledger after : Ledger} {highest : Value}
    (returned : ((RangeSetting.of resolver .greatest view loop).context.ofBinary tree).outcome
      ledger = (.ok highest, after))
    (bounded : tree.Everywhere
      (fun part => part.exactAt resolver (Mode.greatest.indices extent) < 2 ^ 63)) :
    ∃ least greatest : Int,
      highest = .int greatest ∧
        (RangeSetting.of resolver .least view loop).context.ofBinary tree = pure (.int least) ∧
        (∀ assignment, InGrid extent assignment → ∃ address : Int,
          (resolver.given (Resolver.indexValues assignment)).evaluate tree =
              pure (.int address) ∧
            least ≤ address ∧ address ≤ greatest) ∧
        (resolver.given (Resolver.indexValues (Mode.least.indices extent))).evaluate tree =
          pure (.int least) ∧
        (resolver.given (Resolver.indexValues (Mode.greatest.indices extent))).evaluate tree =
          pure (.int greatest) ∧
        IsLeast (tree.addresses resolver extent) least ∧
        IsGreatest (tree.addresses resolver extent) greatest ∧
        workingSetSize resolver view loop (.binary tree) =
          pure (.int (greatest - least)) := by
  have indicesBounded (index : Index) (mentioned : tree.Mentions index) :
      extent index - 1 < 2 ^ 63 :=
    tree.index_lt_of_everywhere spelled bounded mentioned
  have extreme (mode : Mode) :
      (RangeSetting.of resolver mode view loop).context.ofBinary tree =
        (resolver.given (Resolver.indexValues (mode.indices extent))).evaluate tree :=
    RangeContext.ofBinary_eq_evaluate free extents monotone spelled indicesBounded
  have positive (index : Index) : 0 < extent index := (extents index).2
  have corner (mode : Mode) : InGrid extent (mode.indices extent) := inGrid_indices positive mode
  rw [extreme .greatest] at returned
  have valued (assignment : Index → Int) (inside : InGrid extent assignment) :
      (resolver.given (Resolver.indexValues assignment)).evaluate tree =
        pure (.int (tree.exactAt resolver assignment)) :=
    BinaryTree.evaluate_of_isMonotone resolver monotone spelled (fun index => (inside index).1)
      inside.le_greatest bounded returned
  have least_le (assignment : Index → Int) (inside : InGrid extent assignment) :
      0 ≤ tree.exactAt resolver (Mode.least.indices extent) ∧
        tree.exactAt resolver (Mode.least.indices extent) ≤ tree.exactAt resolver assignment :=
    BinaryTree.exactAt_le resolver monotone spelled (fun _ => Int.le_refl 0)
      (fun index => (inside index).1)
  have le_greatest (assignment : Index → Int) (inside : InGrid extent assignment) :
      tree.exactAt resolver assignment ≤ tree.exactAt resolver (Mode.greatest.indices extent) :=
    (BinaryTree.exactAt_le resolver monotone spelled (fun index => (inside index).1)
      inside.le_greatest).2
  have atLeast := valued _ (corner .least)
  have atGreatest := valued _ (corner .greatest)
  rw [atGreatest] at returned
  cases returned
  have address_eq {address : Int} {assignment : Index → Int} (inside : InGrid extent assignment)
      (found : (resolver.given (Resolver.indexValues assignment)).evaluate tree =
        pure (.int address)) : address = tree.exactAt resolver assignment :=
    Analysis.pure_int_injective (found.symm.trans (valued assignment inside))
  refine ⟨_, _, rfl, (extreme .least).trans atLeast, ?_, atLeast, atGreatest, ⟨?_, ?_⟩,
    ⟨?_, ?_⟩, ?_⟩
  · intro assignment inside
    exact ⟨_, valued assignment inside, (least_le assignment inside).2,
      le_greatest assignment inside⟩
  · exact ⟨_, corner .least, atLeast⟩
  · rintro address ⟨assignment, inside, found⟩
    rw [address_eq inside found]
    exact (least_le assignment inside).2
  · exact ⟨_, corner .greatest, atGreatest⟩
  · rintro address ⟨assignment, inside, found⟩
    rw [address_eq inside found]
    exact le_greatest assignment inside
  · have small := bounded.self
    obtain ⟨nonneg, ordered⟩ := least_le _ (corner .greatest)
    exact workingSetSize_of_extremes ((extreme .least).trans atLeast)
      ((extreme .greatest).trans atGreatest) nonneg ordered small

theorem workingSetSize_rowMajor :
    workingSetSize (Resolver.sample (.constant 128)) none (.integer 0)
      (.binary BinaryTree.rowMajor) = pure (.int 508) := by
  have constant (index : Index) :
      ¬ (BinaryTree.leaf (.text "2") (.terminal (.constant 2))).Mentions index := by
    rintro ⟨text, member⟩
    cases index <;> cases List.mem_singleton.mp member
  have monotone : BinaryTree.rowMajor.IsMonotone (Resolver.sample (.constant 128)) :=
    ⟨.inl rfl, ⟨.inl rfl, .inl ⟨.block .x, rfl⟩, .inr ⟨128, by decide, rfl⟩⟩,
      .inr ⟨rfl, constant⟩, .inl ⟨.thread .x, rfl⟩, .inr ⟨2, by decide, rfl⟩⟩
  have returned : ((RangeSetting.of (Resolver.sample (.constant 128)) .greatest none
      (.integer 0)).context.ofBinary BinaryTree.rowMajor).outcome {} =
        (.ok (.int 508), {}) := by cbv
  have lowest : ((RangeSetting.of (Resolver.sample (.constant 128)) .least none
      (.integer 0)).context.ofBinary BinaryTree.rowMajor).outcome {} =
        (.ok (.int 0), {}) := by cbv
  obtain ⟨least, greatest, high, low, _, _, _, _, _, size⟩ :=
    workingSetSize_of_isMonotone (Resolver.sample (.constant 128)) none (.integer 0)
      rfl (Resolver.hasExtents_sample _) monotone BinaryTree.spells_rowMajor returned
      (by decide)
  rw [low] at lowest
  cases lowest
  cases high
  rw [size, Int.sub_zero]

end KernelFootprint
