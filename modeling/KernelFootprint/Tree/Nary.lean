import KernelFootprint.Tree.Binary

/-!
# Trees of any arity

A tree of any arity is built from a parenthesized token stream: every node has
an ordered list of operands. Its nodes are numbered in preorder. A binary tree
is a tree of any arity whose operations have two operands.
-/

namespace KernelFootprint

inductive NaryTree
  | node (text : Datum) (symbol : Symbol) (children : List NaryTree)

namespace NaryTree

def text : NaryTree → Datum
  | .node text _ _ => text

def symbol : NaryTree → Symbol
  | .node _ symbol _ => symbol

def children : NaryTree → List NaryTree
  | .node _ _ children => children

mutual

def size : NaryTree → Nat
  | .node _ _ children => sizeAll children + 1

def sizeAll : List NaryTree → Nat
  | [] => 0
  | first :: rest => size first + sizeAll rest

end

/-- The numbers of neighbouring roots, the first of which has the number `first`. -/
def rootsFrom (first : Nat) : List NaryTree → List Nat
  | [] => []
  | tree :: rest => first :: rootsFrom (first + tree.size) rest

mutual

/-- The rows of a tree whose root gets the number `first`. -/
def rowsFrom (first : Nat) (parent : Option Int) : NaryTree → List NodeRow
  | .node text symbol children =>
      { index := first
        kind := symbol.kind
        text := text
        value := symbol.value?.map .int
        arg := symbol.arg
        children := (rootsFrom (first + 1) children).map Int.ofNat
        parent := parent } :: rowsOfAll (first + 1) (some first) children

def rowsOfAll (first : Nat) (parent : Option Int) : List NaryTree → List NodeRow
  | [] => []
  | tree :: rest => rowsFrom first parent tree ++ rowsOfAll (first + size tree) parent rest

end

def table (tree : NaryTree) : NodeTable where
  rows := tree.rowsFrom 0 none
  root := 0

mutual

theorem length_rowsFrom (first : Nat) (parent : Option Int) (tree : NaryTree) :
    (tree.rowsFrom first parent).length = tree.size := by
  cases tree with
  | node text symbol children =>
      rw [rowsFrom, size, List.length_cons, length_rowsOfAll]

theorem length_rowsOfAll (first : Nat) (parent : Option Int) (trees : List NaryTree) :
    (rowsOfAll first parent trees).length = sizeAll trees := by
  cases trees with
  | nil => rfl
  | cons tree rest =>
      rw [rowsOfAll, sizeAll, List.length_append, length_rowsFrom, length_rowsOfAll]

end

mutual

/-- The subtree whose root has the given number. -/
def subtree? : NaryTree → Nat → Option NaryTree
  | tree, 0 => some tree
  | .node _ _ children, index + 1 => subtreeOfAll? children index

def subtreeOfAll? : List NaryTree → Nat → Option NaryTree
  | [], _ => none
  | tree :: rest, index =>
      if index < size tree then subtree? tree index
      else subtreeOfAll? rest (index - size tree)

end

/-- The subtree that an index names, which counts from the end if negative. -/
def subtreeAt (tree : NaryTree) (index : Int) : Except Misuse NaryTree :=
  match (position? tree.size index).bind tree.subtree? with
  | some found => .ok found
  | none => .error .indexOutOfRange

def isPointerChase (tree : NaryTree) : Bool :=
  tree.symbol.kind == .structural .pointerChase

def isIncomplete (tree : NaryTree) : Bool :=
  tree.symbol.kind == .incomplete

def pointerChase : NaryTree := .node (.text "PC") (.structural .pointerChase) []

def incomplete : NaryTree := .node (.text "INCOMP") (.terminal .incomplete) []

def ofBinary : BinaryTree → NaryTree
  | .leaf text symbol => .node text symbol.symbol []
  | .branch text operation left right =>
      .node (.text text) (.operation operation none) [ofBinary left, ofBinary right]

end NaryTree

/-- A tree of either form. -/
inductive AddressTree
  | binary (tree : BinaryTree)
  | nary (tree : NaryTree)

namespace AddressTree

/-- The name of the class of trees of one form. -/
def className : AddressTree → String
  | .binary _ => "BinaryExpressionTree"
  | .nary _ => "NaryExpressionTree"

def table : AddressTree → NodeTable
  | .binary tree => tree.table
  | .nary tree => tree.table

def isPointerChase : AddressTree → Bool
  | .binary tree => tree.isPointerChase
  | .nary tree => tree.isPointerChase

def isIncomplete : AddressTree → Bool
  | .binary tree => tree.isIncomplete
  | .nary tree => tree.isIncomplete

end AddressTree

end KernelFootprint
