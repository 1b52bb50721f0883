import KernelFootprint.Tree.Table

/-!
# Binary trees

A binary tree is built from a postfix token stream: an operation has two
operands, every other node is a leaf. Its nodes are numbered in postorder, so
that a node built from the n-th token has number n, counted from zero.
-/

namespace KernelFootprint

inductive BinaryTree
  | leaf (text : Datum) (symbol : Leaf)
  | branch (text : String) (operation : Operation) (left right : BinaryTree)

namespace BinaryTree

def text : BinaryTree → Datum
  | .leaf text _ => text
  | .branch text _ _ _ => .text text

def symbol : BinaryTree → Symbol
  | .leaf _ symbol => symbol.symbol
  | .branch _ operation _ _ => .operation operation none

def size : BinaryTree → Nat
  | .leaf _ _ => 1
  | .branch _ _ left right => left.size + right.size + 1

/-- The rows of a tree whose first node gets the number `first`. -/
def rowsFrom (first : Nat) (parent : Option Int) : BinaryTree → List NodeRow
  | .leaf text symbol =>
      [{ index := first
         kind := symbol.symbol.kind
         text := text
         value := symbol.symbol.value?.map .int
         arg := symbol.symbol.arg
         parent := parent }]
  | .branch text operation left right =>
      let second := first + left.size
      let own := second + right.size
      left.rowsFrom first (some own) ++ right.rowsFrom second (some own) ++
        [{ index := own
           kind := .operation operation
           text := .text text
           children := [(second : Int) - 1, (own : Int) - 1]
           parent := parent }]

def table (tree : BinaryTree) : NodeTable where
  rows := tree.rowsFrom 0 none
  root := (tree.size : Int) - 1

theorem size_pos (tree : BinaryTree) : 0 < tree.size := by
  cases tree <;> simp [size]

theorem length_rowsFrom (tree : BinaryTree) (first : Nat) (parent : Option Int) :
    (tree.rowsFrom first parent).length = tree.size := by
  induction tree generalizing first parent with
  | leaf text symbol => rfl
  | branch text operation left right leftIH rightIH =>
      simp [rowsFrom, size, leftIH, rightIH, Nat.add_assoc]

/-- The subtree whose root has the given number. -/
def subtree? : BinaryTree → Nat → Option BinaryTree
  | .leaf text symbol, index => if index = 0 then some (.leaf text symbol) else none
  | .branch text operation left right, index =>
      if index < left.size then left.subtree? index
      else if index < left.size + right.size then right.subtree? (index - left.size)
      else if index = left.size + right.size then some (.branch text operation left right)
      else none

theorem subtree?_root (tree : BinaryTree) : tree.subtree? (tree.size - 1) = some tree := by
  cases tree with
  | leaf text symbol => rfl
  | branch text operation left right =>
      have last : (branch text operation left right).size - 1 = left.size + right.size := by
        simp [size]
      rw [last, subtree?, if_neg (by omega), if_neg (by omega), if_pos rfl]

/-- The subtree that an index names, which counts from the end if negative. -/
def subtreeAt (tree : BinaryTree) (index : Int) : Except Misuse BinaryTree :=
  match (position? tree.size index).bind tree.subtree? with
  | some found => .ok found
  | none => .error .indexOutOfRange

def isPointerChase (tree : BinaryTree) : Bool :=
  tree.symbol.kind == .structural .pointerChase

def isIncomplete (tree : BinaryTree) : Bool :=
  tree.symbol.kind == .incomplete

/-- A leaf that stands for a tree that was not built. -/
def isSentinel : BinaryTree → Bool
  | .leaf _ (.structural .pointerChase) => true
  | .leaf _ (.terminal .incomplete) => true
  | _ => false

def pointerChase : BinaryTree := .leaf (.text "PC") (.structural .pointerChase)

def incomplete : BinaryTree := .leaf (.text "INCOMP") (.terminal .incomplete)

def constant (value : Int) : BinaryTree :=
  .leaf (.text (toString value)) (.terminal (.constant value))

def combine (operation : Operation) (left right : BinaryTree) : BinaryTree :=
  .branch operation.name operation left right

end BinaryTree

end KernelFootprint
