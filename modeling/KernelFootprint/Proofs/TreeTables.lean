import KernelFootprint.Proofs.Links
import KernelFootprint.Tree.Arena

/-!
# The tables of trees are linked

The rows of a subtree stand for its nodes in their order, and besides the links between
them they record one more, the link from the root of the subtree to the node above it.
Parents have the greater numbers in a binary tree and the smaller ones in a tree of any
arity, so that the number of a node bounds the way up from it.
-/

namespace KernelFootprint

namespace NodeTable

theorem childLinks_append (first second : List NodeRow) :
    childLinks (first ++ second) = childLinks first ++ childLinks second :=
  List.flatMap_append

theorem parentLinks_append (first second : List NodeRow) :
    parentLinks (first ++ second) = parentLinks first ++ parentLinks second :=
  List.flatMap_append

/-- The link to the root of a subtree from the node above it, if there is one. -/
def upLink (parent : Option Int) (root : Int) : List (Int × Int) :=
  (parent.map (·, root)).toList

@[simp] theorem upLink_none (root : Int) : upLink none root = [] := rfl

@[simp] theorem upLink_some (parent root : Int) : upLink (some parent) root = [(parent, root)] :=
  rfl

@[simp] theorem childLinks_nil : childLinks [] = [] := rfl

@[simp] theorem parentLinks_nil : parentLinks [] = [] := rfl

theorem childLinks_cons (row : NodeRow) (rest : List NodeRow) :
    childLinks (row :: rest) = row.children.map (row.index, ·) ++ childLinks rest := rfl

theorem parentLinks_cons (row : NodeRow) (rest : List NodeRow) :
    parentLinks (row :: rest) = upLink row.parent row.index ++ parentLinks rest := rfl

/-- Whether every node has as many operands as a node of a binary tree has. -/
def HasArities (rows : List NodeRow) : Prop :=
  ∀ row ∈ rows, row.children.length = Arena.arity row.kind

end NodeTable

open NodeTable

namespace BinaryTree

theorem map_index_rowsFrom (tree : BinaryTree) (first : Nat) (parent : Option Int) :
    (tree.rowsFrom first parent).map NodeRow.index = numbersFrom first tree.size := by
  induction tree generalizing first parent with
  | leaf text symbol => rfl
  | branch text operation left right leftIH rightIH =>
      rw [rowsFrom, List.map_append, List.map_append, leftIH, rightIH,
        ← numbersFrom_size_branch first text operation]
      rfl

/-- Besides the links within a subtree its nodes record the link to the node above it. -/
theorem parentLinks_rowsFrom (tree : BinaryTree) (first : Nat) (parent : Option Int) :
    (parentLinks (tree.rowsFrom first parent)).Perm
      (upLink parent ((first + tree.size : Nat) - 1) ++
        childLinks (tree.rowsFrom first parent)) := by
  induction tree generalizing first parent with
  | leaf text symbol =>
      rw [last_leaf]
      exact .refl _
  | branch text operation left right leftIH rightIH =>
      have onLeft := leftIH first (some ((first + left.size + right.size : Nat) : Int))
      have onRight := rightIH (first + left.size)
        (some ((first + left.size + right.size : Nat) : Int))
      rw [last_branch, rowsFrom]
      simp only [parentLinks_append, childLinks_append, parentLinks_cons, childLinks_cons,
        parentLinks_nil, childLinks_nil]
      rw [List.perm_iff_count] at onLeft onRight ⊢
      intro link
      have leftCount := onLeft link
      have rightCount := onRight link
      simp only [List.count_append, upLink_some, List.map_cons, List.map_nil, List.count_cons,
        List.count_nil] at leftCount rightCount ⊢
      omega

theorem nearer_rowsFrom (tree : BinaryTree) (first : Nat) (parent : Option Int) :
    ∀ row ∈ tree.rowsFrom first parent, first ≤ row.index ∧
      (row.index = ((first + tree.size : Nat) : Int) - 1 ∧ row.parent = parent ∨
        ∃ above, row.parent = some above ∧ row.index < above ∧
          above ≤ ((first + tree.size : Nat) : Int) - 1) := by
  induction tree generalizing first parent with
  | leaf text symbol =>
      intro row member
      cases List.mem_singleton.mp member
      exact ⟨Int.le_refl _, .inl ⟨(last_leaf first text symbol).symm, rfl⟩⟩
  | branch text operation left right leftIH rightIH =>
      intro row member
      rw [last_branch]
      rw [rowsFrom, List.mem_append, List.mem_append, List.mem_singleton] at member
      rcases member with (inLeft | inRight) | rfl
      · obtain ⟨bounded, ⟨atRoot, above⟩ | ⟨above, found, closer, below⟩⟩ :=
          leftIH first _ row inLeft
        · exact ⟨bounded, .inr ⟨_, above, by omega, Int.le_refl _⟩⟩
        · exact ⟨bounded, .inr ⟨above, found, closer, by omega⟩⟩
      · obtain ⟨bounded, ⟨atRoot, above⟩ | ⟨above, found, closer, below⟩⟩ :=
          rightIH (first + left.size) _ row inRight
        · exact ⟨by omega, .inr ⟨_, above, by omega, Int.le_refl _⟩⟩
        · exact ⟨by omega, .inr ⟨above, found, closer, by omega⟩⟩
      · exact ⟨by simp; omega, .inl ⟨rfl, rfl⟩⟩

theorem hasArities_rowsFrom (tree : BinaryTree) (first : Nat) (parent : Option Int) :
    HasArities (tree.rowsFrom first parent) := by
  induction tree generalizing first parent with
  | leaf text symbol =>
      intro row member
      cases List.mem_singleton.mp member
      cases symbol with
      | terminal terminal => cases terminal <;> rfl
      | structural structural => rfl
  | branch text operation left right leftIH rightIH =>
      intro row member
      rw [rowsFrom, List.mem_append, List.mem_append, List.mem_singleton] at member
      rcases member with (inLeft | inRight) | rfl
      · exact leftIH _ _ row inLeft
      · exact rightIH _ _ row inRight
      · rfl

theorem isLinked_table (tree : BinaryTree) : tree.table.IsLinked where
  numbered := by
    rw [IsNumbered, table, map_index_rowsFrom, length_rowsFrom]
  linked := parentLinks_rowsFrom tree 0 none
  root := by
    cases tree with
    | leaf text symbol => exact ⟨_, List.mem_singleton_self _, rfl, rfl⟩
    | branch text operation left right =>
        refine ⟨_, List.mem_append_right _ (List.mem_singleton_self _), ?_, rfl⟩
        simp [table, size]
  nearer := by
    refine ⟨fun index => (tree.size - 1 - index).toNat, fun row member => ?_⟩
    have positive := tree.size_pos
    have length : tree.table.rows.length = tree.size := length_rowsFrom tree 0 none
    obtain ⟨bounded, place⟩ := nearer_rowsFrom tree 0 none row member
    rw [Nat.zero_add] at place
    constructor
    · change (tree.size - 1 - row.index).toNat < _
      omega
    · rcases place with ⟨atRoot, _⟩ | ⟨above, found, closer, below⟩
      · exact .inl atRoot
      · refine .inr ⟨above, found, ?_⟩
        change (tree.size - 1 - above).toNat < (tree.size - 1 - row.index).toNat
        omega

end BinaryTree

namespace NaryTree

mutual

theorem map_index_rowsFrom (first : Nat) (parent : Option Int) (tree : NaryTree) :
    (tree.rowsFrom first parent).map NodeRow.index = numbersFrom first tree.size := by
  cases tree with
  | node text symbol children =>
      rw [rowsFrom, List.map_cons, map_index_rowsOfAll, size, ← numbersFrom_succ]

theorem map_index_rowsOfAll (first : Nat) (parent : Option Int) (trees : List NaryTree) :
    (rowsOfAll first parent trees).map NodeRow.index = numbersFrom first (sizeAll trees) := by
  cases trees with
  | nil => rfl
  | cons tree rest =>
      rw [rowsOfAll, List.map_append, map_index_rowsFrom, map_index_rowsOfAll, sizeAll,
        numbersFrom_append]

end

mutual

theorem parentLinks_rowsFrom (first : Nat) (parent : Option Int) (tree : NaryTree) :
    (parentLinks (tree.rowsFrom first parent)).Perm
      (upLink parent first ++ childLinks (tree.rowsFrom first parent)) := by
  cases tree with
  | node text symbol children =>
      rw [rowsFrom, parentLinks_cons, childLinks_cons]
      refine List.Perm.append_left _ ((parentLinks_rowsOfAll (first + 1) _ children).trans ?_)
      rw [List.map_map, List.map_eq_flatMap]
      exact .refl _

/-- Neighbouring roots have the same node above them. -/
theorem parentLinks_rowsOfAll (first : Nat) (parent : Option Int) (trees : List NaryTree) :
    (parentLinks (rowsOfAll first parent trees)).Perm
      ((rootsFrom first trees).flatMap (fun root : Nat => upLink parent root) ++
        childLinks (rowsOfAll first parent trees)) := by
  cases trees with
  | nil => exact .refl _
  | cons tree rest =>
      rw [rowsOfAll, rootsFrom, parentLinks_append, childLinks_append, List.flatMap_cons]
      have onFirst := parentLinks_rowsFrom first parent tree
      have onRest := parentLinks_rowsOfAll (first + tree.size) parent rest
      rw [List.perm_iff_count] at onFirst onRest ⊢
      intro link
      have firstCount := onFirst link
      have restCount := onRest link
      simp only [List.count_append] at firstCount restCount ⊢
      omega

end

mutual

theorem nearer_rowsFrom (first : Nat) (parent : Option Int) (tree : NaryTree) :
    ∀ row ∈ tree.rowsFrom first parent, row.index = first ∧ row.parent = parent ∨
      ∃ above, row.parent = some above ∧ (first : Int) ≤ above ∧ above < row.index := by
  intro row member
  cases tree with
  | node text symbol children =>
      rw [rowsFrom, List.mem_cons] at member
      rcases member with rfl | inside
      · exact .inl ⟨rfl, rfl⟩
      · obtain ⟨bounded, found | ⟨above, found, least, closer⟩⟩ :=
          nearer_rowsOfAll (first + 1) (some first) children row inside
        · exact .inr ⟨first, found, Int.le_refl _, by omega⟩
        · exact .inr ⟨above, found, by omega, closer⟩

theorem nearer_rowsOfAll (first : Nat) (parent : Option Int) (trees : List NaryTree) :
    ∀ row ∈ rowsOfAll first parent trees, (first : Int) ≤ row.index ∧ (row.parent = parent ∨
      ∃ above, row.parent = some above ∧ (first : Int) ≤ above ∧ above < row.index) := by
  intro row member
  cases trees with
  | nil => cases member
  | cons tree rest =>
      rw [rowsOfAll, List.mem_append] at member
      rcases member with inFirst | inRest
      · rcases nearer_rowsFrom first parent tree row inFirst with
          ⟨index, found⟩ | ⟨above, found, least, closer⟩
        · exact ⟨Int.le_of_eq index.symm, .inl found⟩
        · exact ⟨by omega, .inr ⟨above, found, least, closer⟩⟩
      · obtain ⟨bounded, found | ⟨above, found, least, closer⟩⟩ :=
          nearer_rowsOfAll (first + tree.size) parent rest row inRest
        · exact ⟨by omega, .inl found⟩
        · exact ⟨by omega, .inr ⟨above, found, by omega, closer⟩⟩

end

theorem isLinked_table (tree : NaryTree) : tree.table.IsLinked where
  numbered := by
    rw [IsNumbered, table, map_index_rowsFrom, length_rowsFrom]
  linked := parentLinks_rowsFrom 0 none tree
  root := by
    cases tree with
    | node text symbol children =>
        rw [table, rowsFrom]
        exact ⟨_, List.mem_cons_self, rfl, rfl⟩
  nearer := by
    have length : tree.table.rows.length = tree.size := length_rowsFrom 0 none tree
    refine ⟨Int.toNat, fun row member => ?_⟩
    have listed : row.index ∈ tree.table.rows.map NodeRow.index := List.mem_map_of_mem member
    rw [table, map_index_rowsFrom, mem_numbersFrom] at listed
    constructor
    · omega
    · rcases nearer_rowsFrom 0 none tree row member with
        ⟨index, _⟩ | ⟨above, found, least, closer⟩
      · exact .inl index
      · exact .inr ⟨above, found, by omega⟩

end NaryTree

end KernelFootprint
