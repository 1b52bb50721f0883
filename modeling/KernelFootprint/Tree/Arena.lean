import KernelFootprint.Tree.Table
import KernelFootprint.Value.Evaluation

/-!
# Arenas

An arena is a growing collection of nodes that are linked one by one and then
frozen into a table. A node gets at most one parent. A failing step keeps what
it has done before it failed.
-/

namespace KernelFootprint

/-- The data of a node without its links; hand-made nodes may have any text and number. -/
structure Draft where
  kind : Kind
  text : Datum
  value : Option Value := none
  arg : Datum := .null

/-- The drafts with, place by place, their children and their parents. -/
structure Arena where
  drafts : List Draft := []
  children : List (List Int) := []
  parents : List (Option Int) := []

namespace Arena

abbrev Building := ExceptT Fault (StateM Arena)

def size (arena : Arena) : Nat := arena.drafts.length

def element {Element : Type} (elements : List Element) (index : Int) : Except Fault Element :=
  match (position? elements.length index).bind (fun place => elements[place]?) with
  | some found => .ok found
  | none => .error Misuse.indexOutOfRange

def update {Element : Type} (elements : List Element) (index : Int) (change : Element → Element) :
    Except Fault (List Element) :=
  match position? elements.length index with
  | some place => .ok (elements.modify place change)
  | none => .error Misuse.indexOutOfRange

/-- Links a child to its parent. Nothing changes if the child has one already. -/
def attach (arena : Arena) (parent child : Int) : Except Fault Arena := do
  if (← element arena.parents child).isSome then
    throw (Malformation.alreadyAttached (← element arena.drafts child).text.shown : Fault)
  let children ← update arena.children parent (· ++ [child])
  let parents ← update arena.parents child (fun _ => some parent)
  return { arena with children := children, parents := parents }

def append (arena : Arena) (draft : Draft) : Arena where
  drafts := arena.drafts ++ [draft]
  children := arena.children ++ [[]]
  parents := arena.parents ++ [none]

/-- Runs a change that leaves the arena alone if it fails. -/
def apply (change : Arena → Except Fault Arena) : Building Unit := do
  match change (← get) with
  | .ok arena => set arena
  | .error fault => throw fault

def appendChild (parent child : Int) : Building Unit :=
  apply (fun arena => arena.attach parent child)

/-- Links nodes that are named by data. The child is looked at first. -/
def attachLoose (arena : Arena) (parent child : Datum) : Except Fault Arena := do
  let place ← child.toIndex.mapError Fault.misuse
  if (← element arena.parents place).isSome then
    throw (Malformation.alreadyAttached (← element arena.drafts place).text.shown : Fault)
  arena.attach (← parent.toIndex.mapError Fault.misuse) place

def attachAll (parent : Int) : List Int → Building Unit
  | [] => pure ()
  | child :: rest => do
      appendChild parent child
      attachAll parent rest

/-- Adds a node and then attaches its children one after the other. -/
def add (draft : Draft) (children : List Int) : Building Int := do
  let index : Int := (← get).size
  modify (fun arena => arena.append draft)
  attachAll index children
  return index

def ofMisuse {Result : Type} (outcome : Except Misuse Result) : Building Result :=
  match outcome with
  | .ok result => pure result
  | .error misuse => throw (misuse : Fault)

def attachGiven (parent : Int) : List Datum → Building Unit
  | [] => pure ()
  | child :: rest => do
      appendChild parent (← ofMisuse child.toIndex)
      attachGiven parent rest

/-- Adds a node whose children are given as loose data. The node stays, with the
children before the first one that names no node. -/
def addLoose (draft : Draft) (children : Datum) : Building Int := do
  let index ← add draft []
  attachGiven index (← ofMisuse children.elements)
  return index

theorem attachGiven_integer (parent : Int) (children : List Int) :
    attachGiven parent (children.map .integer) = attachAll parent children := by
  induction children with
  | nil => rfl
  | cons child rest ih =>
      change (appendChild parent child >>= fun _ => attachGiven parent (rest.map .integer)) = _
      rw [ih]
      rfl

def kindOf (arena : Arena) (index : Int) : Except Fault Kind :=
  (element arena.drafts index).map Draft.kind

def childrenOf (arena : Arena) (index : Int) : Except Fault (List Int) :=
  element arena.children index

def setKind (index : Int) (kind : Kind) : Building Unit :=
  apply (fun arena => do
    return { arena with
      drafts := ← update arena.drafts index (fun draft => { draft with kind := kind }) })

def draftOf (row : NodeRow) : Draft := ⟨row.kind, row.text, row.value, row.arg⟩

def attachRows (offset : Int) : List NodeRow → Building Unit
  | [] => pure ()
  | row :: rest => do
      attachAll (row.index + offset) (row.children.map (· + offset))
      attachRows offset rest

/-- Adds copies of all nodes of a table and returns the place of its root. -/
def copyTree (table : NodeTable) : Building Int := do
  let offset : Int := (← get).size
  modify (fun arena => table.rows.foldl (fun arena row => arena.append (draftOf row)) arena)
  attachRows offset table.rows
  return table.root + offset

/-- The rows of nodes the first of which has the number `index`. -/
def rowsOf (index : Int) : List Draft → List (List Int) → List (Option Int) → List NodeRow
  | draft :: drafts, children :: others, parent :: parents =>
      { index := index
        kind := draft.kind
        text := draft.text
        value := draft.value
        arg := draft.arg
        children := children
        parent := parent } :: rowsOf (index + 1) drafts others parents
  | _, _, _ => []

/-- The number of operands that a node of a binary tree has. -/
def arity (kind : Kind) : Nat := if kind.isOperation then 2 else 0

def checkArities : List NodeRow → Except Fault Unit
  | [] => .ok ()
  | row :: rest =>
      if row.children.length = arity row.kind then checkArities rest
      else .error (Malformation.wrongArity row.text.shown row.children.length (arity row.kind))

def freeze (arena : Arena) (form : TreeForm) (root : Int) : Except Fault NodeTable := do
  let table : NodeTable := ⟨rowsOf 0 arena.drafts arena.children arena.parents, root⟩
  if root < 0 ∨ table.rows.length ≤ root then
    throw (.quoting (do return .malformed (.rootOutOfRange (← Text.writeInteger root))))
  if (← (table.row? root).mapError Fault.misuse).parent.isSome then
    throw (Malformation.rootAttached : Fault)
  if form = .binary then checkArities table.rows
  return table

/-- Freezes an arena whose root is named by a datum. A decimal can be out of range, but
never names a node. -/
def freezeLoose (arena : Arena) (form : TreeForm) (root : Datum) : Except Fault NodeTable :=
  match root with
  | .decimal value =>
      if Operand.isWithin arena.size (.rounded value.value) then .error Misuse.wrongType
      else .error (Malformation.rootOutOfRange root.shown)
  | root => do arena.freeze form (← root.toIndex.mapError Fault.misuse)

theorem freezeLoose_integer (arena : Arena) (form : TreeForm) (root : Int) :
    arena.freezeLoose form (.integer root) = arena.freeze form root := rfl

/-- Builds in an arena of its own and freezes the result. -/
def build (form : TreeForm) (building : Building Int) : Except Fault NodeTable :=
  match building.run.run {} with
  | (.ok root, arena) => arena.freeze form root
  | (.error fault, _) => .error fault

/-- A single node of a kind, named by its token. -/
def single (form : TreeForm) (kind : Kind) : Except Fault NodeTable :=
  build form (add { kind := kind, text := .text kind.token } [])

/-- A single constant of any value, with the text of the value. -/
def constant (value : Value) : Except Fault NodeTable := do
  let text ← value.describe.mapError Fault.misuse
  build .binary (add { kind := .constant, text := .text text, value := some value } [])

/-- An operation on copies of two trees. -/
def combine (kind : Kind) (left right : NodeTable) : Except Fault NodeTable :=
  if kind.isOperation then
    build .binary (do
      let first ← copyTree left
      let second ← copyTree right
      add { kind := kind, text := .text kind.token } [first, second])
  else .error (Misuse.notAnOperation kind)

/-- An operation on copies of two trees that may be missing. -/
def combineBuilt (kind : Kind) : Option NodeTable → Option NodeTable → Except Fault NodeTable
  | some left, some right => combine kind left right
  | _, _ =>
      if kind.isOperation then .error Misuse.unsupported else .error (Misuse.notAnOperation kind)

end Arena

end KernelFootprint
