import KernelFootprint.Fault

/-!
# Node tables

A node table lists the nodes of a tree with links to their children and
parents. Nodes are named by their position, counted from the end if negative.
The traversals keep a stack of pending nodes and stop when it is empty; the
number of steps they may take is bounded by the size of the table.
-/

namespace KernelFootprint

inductive TreeForm
  | binary
  | nary
  deriving DecidableEq

/-- The number of an argument or of a phi, null if there is none. -/
def Symbol.arg (symbol : Symbol) : Datum :=
  (symbol.arg?.map (fun number => Datum.integer number)).getD .null

structure NodeRow where
  /-- The number of the node. -/
  index : Int
  kind : Kind
  /-- The token of the node as it was given. -/
  text : Datum
  /-- The literal of a constant; hand-made constants may have any value. -/
  value : Option Value := none
  arg : Datum := .null
  children : List Int := []
  parent : Option Int := none

structure NodeTable where
  rows : List NodeRow
  root : Int

/-- The position that an index names among `size` elements. -/
def position? (size : Nat) (index : Int) : Option Nat :=
  if 0 ≤ index ∧ index < size then some index.toNat
  else if index < 0 ∧ -(size : Int) ≤ index then some (index + size).toNat
  else none

theorem position?_natCast {size index : Nat} (inside : index < size) :
    position? size index = some index := by
  unfold position?
  rw [if_pos ⟨Int.natCast_nonneg index, Int.ofNat_lt.mpr inside⟩]
  rfl

namespace NodeTable

def row? (table : NodeTable) (index : Int) : Except Misuse NodeRow :=
  match (position? table.rows.length index).bind (fun place => table.rows[place]?) with
  | some row => .ok row
  | none => .error .indexOutOfRange

/-- Links from a node to its parent, from there to the next parent, up to the root. -/
def ancestorsWithin (table : NodeTable) : Nat → Int → Except Misuse (List (Int × Int))
  | 0, _ => .error .unfinished
  | steps + 1, index => do
      match (← table.row? index).parent with
      | none => return []
      | some parent => return (index, parent) :: (← ancestorsWithin table steps parent)

def ancestors (table : NodeTable) (index : Int) : Except Misuse (List (Int × Int)) :=
  table.ancestorsWithin (table.rows.length + 1) index

def preorderWithin (table : NodeTable) : Nat → List Int → Except Misuse (List Int)
  | _, [] => .ok []
  | 0, _ :: _ => .error .unfinished
  | steps + 1, index :: pending => do
      let row ← table.row? index
      return index :: (← preorderWithin table steps (row.children ++ pending))

/-- Every node below `start` before its children, children in order. -/
def preorder (table : NodeTable) (start : Int) : Except Misuse (List Int) :=
  table.preorderWithin (table.rows.length + 1) [start]

/-- A pending node is flagged once its children have been put before it. -/
def postorderWithin (table : NodeTable) : Nat → List (Int × Bool) → Except Misuse (List Int)
  | _, [] => .ok []
  | 0, _ :: _ => .error .unfinished
  | steps + 1, (index, true) :: pending => do
      return index :: (← postorderWithin table steps pending)
  | steps + 1, (index, false) :: pending => do
      let row ← table.row? index
      postorderWithin table steps
        (row.children.map (fun child => (child, false)) ++ (index, true) :: pending)

/-- Every node below `start` after its children, children in order. -/
def postorder (table : NodeTable) (start : Int) : Except Misuse (List Int) :=
  table.postorderWithin (2 * table.rows.length + 2) [(start, false)]

def isFound (kind : Kind) (arg : Datum) (row : NodeRow) : Bool :=
  row.kind == kind && (arg == .null || row.arg == arg)

/-- The nodes of a kind below `start`, of those only the ones with the given number
unless it is null. -/
def findAll (table : NodeTable) (kind : Kind) (arg : Datum) (start : Int) :
    Except Misuse (List Int) := do
  (← table.preorder start).filterM (fun index => do
    return isFound kind arg (← table.row? index))

def count (table : NodeTable) (kind : Kind) : Nat :=
  table.rows.countP (fun row => row.kind == kind)

def contains (table : NodeTable) (kind : Kind) : Bool :=
  table.rows.any (fun row => row.kind == kind)

def subtreeContains (table : NodeTable) (index : Int) (kind : Kind) : Except Misuse Bool := do
  return !(← table.findAll kind .null index).isEmpty

def rootKind? (table : NodeTable) : Option Kind :=
  (table.row? table.root).toOption.map NodeRow.kind

def isPointerChase (table : NodeTable) : Bool :=
  table.rootKind? == some (.structural .pointerChase)

def isIncomplete (table : NodeTable) : Bool :=
  table.rootKind? == some .incomplete

/-- A single node that stands for a tree that was not built. -/
def isSentinel (table : NodeTable) : Bool :=
  table.rows.length == 1 && (table.isPointerChase || table.isIncomplete)

end NodeTable

end KernelFootprint
