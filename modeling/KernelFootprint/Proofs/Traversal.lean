import KernelFootprint.Tree.Nary

/-!
# Traversals of the tables of trees

The rows of a subtree stand together in the table of the whole tree. A traversal
that has the root of a subtree in front of it lists the numbers of these rows
one after the other and then goes on with what else is pending, in as many steps
as the subtree has nodes (in preorder) or twice as many (in postorder). What is
listed for neighbouring entries, and the steps this takes, add up. Hence the whole
tree is listed in the order of its rows, long before the steps are used up.
-/

namespace KernelFootprint

/-- The numbers of neighbouring rows. -/
def numbersFrom (first count : Nat) : List Int :=
  (List.range' first count).map Int.ofNat

theorem numbersFrom_append (first count further : Nat) :
    numbersFrom first count ++ numbersFrom (first + count) further =
      numbersFrom first (count + further) := by
  rw [numbersFrom, numbersFrom, numbersFrom, ← List.map_append, List.range'_append_1]

theorem numbersFrom_succ (first count : Nat) :
    (first : Int) :: numbersFrom (first + 1) count = numbersFrom first (count + 1) := rfl

namespace NodeTable

variable {table : NodeTable} {first : Nat}

/-- Rows that stand together in a table, the first of them at a given number. -/
def HasRows (table : NodeTable) (first : Nat) (rows : List NodeRow) : Prop :=
  ∃ before after, table.rows = before ++ (rows ++ after) ∧ before.length = first

theorem hasRows_all (table : NodeTable) : table.HasRows 0 table.rows :=
  ⟨[], [], by simp, rfl⟩

theorem HasRows.left {rows others : List NodeRow}
    (standing : table.HasRows first (rows ++ others)) : table.HasRows first rows := by
  obtain ⟨before, after, split, counted⟩ := standing
  exact ⟨before, others ++ after, by simpa using split, counted⟩

theorem HasRows.right {rows others : List NodeRow} {next : Nat}
    (standing : table.HasRows first (rows ++ others)) (following : first + rows.length = next) :
    table.HasRows next others := by
  obtain ⟨before, after, split, counted⟩ := standing
  refine ⟨before ++ rows, after, by simpa using split, ?_⟩
  rw [List.length_append, counted, following]

theorem row?_of_hasRows {row : NodeRow} {rows : List NodeRow}
    (standing : table.HasRows first (row :: rows)) : table.row? first = .ok row := by
  obtain ⟨before, after, split, counted⟩ := standing
  have inside : first < table.rows.length := by
    rw [split, List.length_append, List.cons_append, List.length_cons, counted]
    omega
  have found : table.rows[first]? = some row := by
    rw [split, List.getElem?_append_right (by omega), counted, Nat.sub_self]
    rfl
  rw [row?, position?_natCast inside, Option.bind_some, found]

/-- The tokens of the nodes with the given numbers. -/
def textsOf (table : NodeTable) (indices : List Int) : Except Misuse (List Datum) :=
  indices.mapM (fun index => (table.row? index).map NodeRow.text)

theorem textsOf_numbersFrom {rows : List NodeRow} (standing : table.HasRows first rows) :
    table.textsOf (numbersFrom first rows.length) = .ok (rows.map NodeRow.text) := by
  induction rows generalizing first with
  | nil => rfl
  | cons row rest ih =>
      have others : table.HasRows (first + 1) rest := by
        rw [← List.singleton_append] at standing
        exact standing.right rfl
      have listed := ih others
      rw [textsOf] at listed
      rw [List.length_cons, ← numbersFrom_succ, textsOf, List.mapM_cons, row?_of_hasRows standing,
        listed]
      rfl

end NodeTable

theorem Except.map_map_append {Fault Element : Type} (first second : List Element)
    (outcome : Except Fault (List Element)) :
    (outcome.map (second ++ ·)).map (first ++ ·) = outcome.map ((first ++ second) ++ ·) := by
  cases outcome with
  | ok elements => simp [Except.map]
  | error fault => rfl

namespace NodeTable

/-! ## Stacks of pending entries -/

section Stacks

variable {Entry Element : Type} {traverse : Nat → List Entry → Except Misuse (List Element)}
  {steps others : Nat} {entries rest : List Entry} {listed more : List Element}

/-- A traversal with some entries in front of it lists some elements in so many steps, and goes on
with what else is pending. -/
def Lists (traverse : Nat → List Entry → Except Misuse (List Element)) (steps : Nat)
    (entries : List Entry) (listed : List Element) : Prop :=
  ∀ further pending, traverse (steps + further) (entries ++ pending) =
    (traverse further pending).map (listed ++ ·)

theorem lists_nil : Lists traverse 0 [] [] := by
  intro further pending
  rw [Nat.zero_add]
  change traverse further pending = (traverse further pending).map ([] ++ ·)
  cases traverse further pending <;> rfl

theorem Lists.append (front : Lists traverse steps entries listed)
    (back : Lists traverse others rest more) :
    Lists traverse (steps + others) (entries ++ rest) (listed ++ more) := by
  intro further pending
  rw [Nat.add_assoc, List.append_assoc, front, back, Except.map_map_append]

theorem lists_flatMap {Item : Type} {entry : Item → Entry} {elements : Item → List Element}
    {items : List Item}
    (each : ∀ item ∈ items,
      Lists traverse (steps * (elements item).length) [entry item] (elements item)) :
    Lists traverse (steps * (items.flatMap elements).length) (items.map entry)
      (items.flatMap elements) := by
  induction items with
  | nil => exact lists_nil
  | cons first rest ih =>
      obtain ⟨onFirst, onRest⟩ := List.forall_mem_cons.mp each
      rw [List.flatMap_cons, List.length_append, Nat.mul_add]
      exact onFirst.append (ih onRest)

/-- A traversal with steps left and nothing pending has ended. -/
theorem Lists.eq_ok (lists : Lists traverse steps entries listed)
    (ended : ∀ further, traverse further [] = .ok []) {enough : Nat} (le : steps ≤ enough) :
    traverse enough entries = .ok listed := by
  have whole := lists (enough - steps) []
  rw [ended, Nat.add_sub_cancel' le, List.append_nil] at whole
  rw [whole]
  exact congrArg Except.ok (List.append_nil listed)

end Stacks

section Orders

variable {table : NodeTable} {index start : Int} {row : NodeRow} {steps : Nat} {listed : List Int}

theorem lists_expanded (index : Int) :
    Lists table.postorderWithin 1 [(index, true)] [index] := by
  intro further pending
  rw [Nat.add_comm]
  change table.postorderWithin (further + 1) ((index, true) :: pending) = _
  rw [postorderWithin]
  cases table.postorderWithin further pending <;> rfl

/-- In postorder a node is put back once, and listed when what is below it has been. -/
theorem lists_postorder_of_children (found : table.row? index = .ok row)
    (below : Lists table.postorderWithin steps (row.children.map (fun child => (child, false)))
      listed) :
    Lists table.postorderWithin (steps + 2) [(index, false)] (listed ++ [index]) := by
  intro further pending
  have enough : steps + 2 + further = steps + 1 + further + 1 := by omega
  rw [← below.append (lists_expanded index) further pending, enough, List.append_assoc]
  change table.postorderWithin (steps + 1 + further + 1) ((index, false) :: pending) = _
  rw [postorderWithin, found]
  rfl

/-- In preorder a node is listed before what is below it. -/
theorem lists_preorder_of_children (found : table.row? index = .ok row)
    (below : Lists table.preorderWithin steps row.children listed) :
    Lists table.preorderWithin (steps + 1) [index] (index :: listed) := by
  intro further pending
  rw [Nat.add_right_comm]
  change table.preorderWithin (steps + further + 1) (index :: pending) = _
  rw [preorderWithin, found]
  change (table.preorderWithin (steps + further) (row.children ++ pending) >>= _) = _
  rw [below]
  cases table.preorderWithin further pending <;> rfl

theorem Lists.preorder_eq_ok (lists : Lists table.preorderWithin steps [start] listed)
    (le : steps ≤ table.rows.length + 1) : table.preorder start = .ok listed :=
  lists.eq_ok (fun further => by cases further <;> rfl) le

theorem Lists.postorder_eq_ok (lists : Lists table.postorderWithin steps [(start, false)] listed)
    (le : steps ≤ 2 * table.rows.length + 2) : table.postorder start = .ok listed :=
  lists.eq_ok (fun further => by cases further <;> rfl) le

end Orders

end NodeTable

namespace BinaryTree

open NodeTable

variable {table : NodeTable}

theorem numbersFrom_size_branch (first : Nat) (text : String) (operation : Operation)
    (left right : BinaryTree) :
    numbersFrom first left.size ++ numbersFrom (first + left.size) right.size ++
        [((first + left.size + right.size : Nat) : Int)] =
      numbersFrom first (branch text operation left right).size := by
  change _ ++ _ ++ numbersFrom (first + left.size + right.size) 1 = _
  rw [numbersFrom_append, Nat.add_assoc first, numbersFrom_append, size]

/-- The rows of an operation are those of its operands, with its own row after them. -/
theorem hasRows_branch {first : Nat} {text : String} {operation : Operation}
    {left right : BinaryTree} {parent : Option Int}
    (standing : table.HasRows first ((branch text operation left right).rowsFrom first parent)) :
    table.HasRows first
        (left.rowsFrom first (some ((first + left.size + right.size : Nat) : Int))) ∧
      table.HasRows (first + left.size) (right.rowsFrom (first + left.size)
        (some ((first + left.size + right.size : Nat) : Int))) ∧
      table.row? ((first + left.size + right.size : Nat) : Int) = .ok
        { index := ((first + left.size + right.size : Nat) : Int)
          kind := .operation operation
          text := .text text
          children := [((first + left.size : Nat) : Int) - 1,
            ((first + left.size + right.size : Nat) : Int) - 1]
          parent := parent } := by
  have onRight := standing.left.right (congrArg (first + ·) (left.length_rowsFrom first _))
  have last : first +
      (left.rowsFrom first (some ((first + left.size + right.size : Nat) : Int)) ++
      right.rowsFrom (first + left.size)
        (some ((first + left.size + right.size : Nat) : Int))).length =
      first + left.size + right.size := by
    rw [List.length_append, length_rowsFrom, length_rowsFrom, Nat.add_assoc]
  exact ⟨standing.left.left, onRight, row?_of_hasRows (standing.right last)⟩

/-- The number of the root of a subtree, which is the last of its numbers. -/
theorem last_branch (first : Nat) (text : String) (operation : Operation)
    (left right : BinaryTree) :
    ((first + (branch text operation left right).size : Nat) : Int) - 1 =
      ((first + left.size + right.size : Nat) : Int) := by
  rw [size]
  omega

theorem last_leaf (first : Nat) (text : Datum) (symbol : Leaf) :
    ((first + (leaf text symbol).size : Nat) : Int) - 1 = first := by
  simp [size]

/-- The root of a subtree is the last of its rows. -/
theorem lists_postorder (tree : BinaryTree) {first : Nat} {parent : Option Int}
    (standing : table.HasRows first (tree.rowsFrom first parent)) :
    Lists table.postorderWithin (2 * tree.size) [(((first + tree.size : Nat) : Int) - 1, false)]
      (numbersFrom first tree.size) := by
  induction tree generalizing first parent with
  | leaf text symbol =>
      rw [last_leaf]
      exact lists_postorder_of_children (row?_of_hasRows standing) lists_nil
  | branch text operation left right leftIH rightIH =>
      have enough : 2 * (branch text operation left right).size =
          2 * left.size + 2 * right.size + 2 := by
        rw [size]
        omega
      obtain ⟨onLeft, onRight, onRoot⟩ := hasRows_branch standing
      rw [last_branch, enough, ← numbersFrom_size_branch first text operation]
      exact lists_postorder_of_children onRoot ((leftIH onLeft).append (rightIH onRight))

/-- A tree is listed in postorder from its first row to its last. -/
theorem postorder_table (tree : BinaryTree) :
    tree.table.postorder tree.table.root = .ok (numbersFrom 0 tree.size) := by
  have lists := tree.lists_postorder (hasRows_all tree.table)
  rw [Nat.zero_add] at lists
  refine lists.postorder_eq_ok ?_
  rw [table, length_rowsFrom]
  omega

/-- The numbers of the nodes of a subtree, every node before its operands. -/
def preorderFrom (first : Nat) : BinaryTree → List Int
  | .leaf _ _ => [(first : Int)]
  | .branch _ _ left right =>
      ((first + left.size + right.size : Nat) : Int) ::
        (left.preorderFrom first ++ right.preorderFrom (first + left.size))

theorem preorderFrom_perm (tree : BinaryTree) (first : Nat) :
    (tree.preorderFrom first).Perm (numbersFrom first tree.size) := by
  induction tree generalizing first with
  | leaf text symbol => exact .refl _
  | branch text operation left right leftIH rightIH =>
      rw [← numbersFrom_size_branch first text operation]
      refine .trans (.cons _ ((leftIH first).append (rightIH (first + left.size)))) ?_
      exact (List.perm_append_singleton _ _).symm

theorem lists_preorder (tree : BinaryTree) {first : Nat} {parent : Option Int}
    (standing : table.HasRows first (tree.rowsFrom first parent)) :
    Lists table.preorderWithin tree.size [((first + tree.size : Nat) : Int) - 1]
      (tree.preorderFrom first) := by
  induction tree generalizing first parent with
  | leaf text symbol =>
      rw [last_leaf]
      exact lists_preorder_of_children (row?_of_hasRows standing) lists_nil
  | branch text operation left right leftIH rightIH =>
      obtain ⟨onLeft, onRight, onRoot⟩ := hasRows_branch standing
      rw [last_branch, size]
      exact lists_preorder_of_children onRoot ((leftIH onLeft).append (rightIH onRight))

/-- Every node of a tree is listed once in preorder. -/
theorem preorder_table (tree : BinaryTree) :
    tree.table.preorder tree.table.root = .ok (tree.preorderFrom 0) := by
  have lists := tree.lists_preorder (hasRows_all tree.table)
  rw [Nat.zero_add] at lists
  refine lists.preorder_eq_ok ?_
  rw [table, length_rowsFrom]
  omega

end BinaryTree

namespace NaryTree

open NodeTable

variable {table : NodeTable}

mutual

/-- The root of a subtree is the first of its rows. -/
theorem lists_preorder (tree : NaryTree) {first : Nat} {parent : Option Int}
    (standing : table.HasRows first (tree.rowsFrom first parent)) :
    Lists table.preorderWithin tree.size [(first : Int)] (numbersFrom first tree.size) := by
  cases tree with
  | node text symbol children =>
      have below : table.HasRows (first + 1) (rowsOfAll (first + 1) (some first) children) := by
        rw [rowsFrom, ← List.singleton_append] at standing
        exact standing.right rfl
      rw [size, ← numbersFrom_succ]
      exact lists_preorder_of_children (row?_of_hasRows standing) (lists_preorderAll children below)

/-- Neighbouring subtrees are listed one after the other. -/
theorem lists_preorderAll (trees : List NaryTree) {first : Nat} {parent : Option Int}
    (standing : table.HasRows first (rowsOfAll first parent trees)) :
    Lists table.preorderWithin (sizeAll trees) ((rootsFrom first trees).map Int.ofNat)
      (numbersFrom first (sizeAll trees)) := by
  cases trees with
  | nil => exact lists_nil
  | cons tree rest =>
      have others := standing.right (congrArg (first + ·) (length_rowsFrom first parent tree))
      rw [sizeAll, ← numbersFrom_append]
      exact (lists_preorder tree standing.left).append (lists_preorderAll rest others)

end

/-- A tree is listed in preorder from its first row to its last. -/
theorem preorder_table (tree : NaryTree) :
    tree.table.preorder tree.table.root = .ok (numbersFrom 0 tree.size) := by
  refine (lists_preorder tree (hasRows_all tree.table)).preorder_eq_ok ?_
  rw [table, length_rowsFrom]
  omega

end NaryTree

end KernelFootprint
