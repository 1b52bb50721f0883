import KernelFootprint.Address.Range
import KernelFootprint.Address.Stride
import KernelFootprint.Tree.Bracketed
import KernelFootprint.Tree.Postfix

/-!
# Questions about single addresses

Values, ranges and strides can be asked for of a tree of either form, and of
the subtree at a node. Concrete values and strides need a binary tree, at the
latest where an operand has to be valued. The range of a binary tree can also
be computed as that of a tree of any arity.
-/

namespace KernelFootprint

namespace AddressTree

def build (settings : Settings) (form : TreeForm) (tokens : List Datum) :
    Except Fault (Option AddressTree) :=
  match form with
  | .binary => (Postfix.build settings tokens).map (Option.map .binary)
  | .nary => (Bracketed.build settings tokens).map (Option.map .nary)

def form : AddressTree → TreeForm
  | .binary _ => .binary
  | .nary _ => .nary

/-- The subtree at a node, the whole tree if none is named. -/
def subtreeAt (start : Option Int) (tree : AddressTree) : Except Misuse AddressTree :=
  match start, tree with
  | none, tree => .ok tree
  | some index, .binary tree => (tree.subtreeAt index).map .binary
  | some index, .nary tree => (tree.subtreeAt index).map .nary

/-- The binary tree that an evaluation is asked for, which may be missing. -/
def asBinary (evaluation : BinaryEvaluation) : Option AddressTree → Except Misuse BinaryTree
  | some (.binary tree) => .ok tree
  | some (.nary tree) => .error (.notABinaryTree evaluation (AddressTree.nary tree).className)
  | none => .error (.notABinaryTree evaluation "NoneType")

def present : Option AddressTree → Except Misuse AddressTree
  | some tree => .ok tree
  | none => .error .unsupported

def ofMisuse {Result : Type} (outcome : Except Misuse Result) : Analysis Result :=
  Analysis.ofExcept (outcome.mapError Fault.misuse)

def evaluateAt (resolver : Resolver) (start : Option Int) (tree : Option AddressTree) :
    Analysis Value := do
  let tree ← ofMisuse (asBinary .concrete tree)
  match ← ofMisuse ((AddressTree.binary tree).subtreeAt start) with
  | .binary subtree => resolver.evaluate subtree
  | .nary _ => Analysis.fail Misuse.wrongType

def asNary : AddressTree → NaryTree
  | .binary tree => .ofBinary tree
  | .nary tree => tree

/-- The extreme value by the rules for trees of any arity. -/
def extremeByNaryRules (setting : RangeSetting) (start : Option Int) (tree : AddressTree) :
    Analysis Value := do
  let subtree ← ofMisuse (tree.subtreeAt start)
  match start with
  | some (.negSucc _) => subtree.asNary.rangeValueFromEnd setting
  | _ => subtree.asNary.rangeValue setting

/-- The extreme value by the rules for trees of the given form. -/
def extremeAt (setting : RangeSetting) (rules : TreeForm) (start : Option Int)
    (tree : Option AddressTree) : Analysis Value :=
  match rules with
  | .binary => do
      let tree ← ofMisuse (asBinary .interval tree)
      (← ofMisuse ((AddressTree.binary tree).subtreeAt start)).extremeValue setting
  | .nary => do (← ofMisuse (present tree)).extremeByNaryRules setting start

/-- The rules for a tree, those for trees of any arity if it is missing. -/
def ownRules (tree : Option AddressTree) : TreeForm := (tree.map form).getD .nary

def binaryStrides (resolver : Resolver) : Stride.Valuation BinaryTree where
  emitter := resolver.emitter
  value site := resolver.evaluate site.tree

/-- Trees of any arity have no concrete value. -/
def naryStrides (resolver : Resolver) : Stride.Valuation NaryTree where
  emitter := resolver.emitter
  value site :=
    Analysis.fail (Misuse.notABinaryTree .concrete (AddressTree.nary site.tree).className)

/-- Answers a question about the places of a tree of either form. -/
def onPlaces {Result : Type} (resolver : Resolver)
    (question : {Tree : Type} → Stride.Valuation Tree → List (Place Tree) → Analysis Result) :
    AddressTree → Analysis Result
  | .binary tree => question (binaryStrides resolver) tree.places
  | .nary tree => question (naryStrides resolver) tree.places

variable (resolver : Resolver)

def resolveAt (index : Int) : AddressTree → Analysis Value :=
  onPlaces resolver (fun _ places => do
    let place ← ofMisuse (placeAt places index)
    Analysis.ofExcept (resolver.resolve place.text place.symbol))

/-- The numbers of the factors above a node, each with whether it is a shift amount. -/
def factorsAt (index : Int) : AddressTree → Analysis (List (Nat × Bool)) :=
  onPlaces resolver (fun _ places => do
    let place ← ofMisuse (placeAt places index)
    let factors ← Analysis.ofExcept (Stride.factors place)
    return factors.map (fun factor => (factor.site.index, factor.isShift)))

def divisorsAt (index : Int) : AddressTree → Analysis (List Nat) :=
  onPlaces resolver (fun _ places => do
    let place ← ofMisuse (placeAt places index)
    return (← Analysis.ofExcept (Stride.divisors place)).map Site.index)

def strideAt (index : Int) : AddressTree → Analysis Value :=
  onPlaces resolver (fun valuation places => do
    Stride.coefficient valuation (← ofMisuse (placeAt places index)))

def strideAlong (kind : Kind) (arg : Datum) : AddressTree → Analysis Value :=
  onPlaces resolver (fun valuation places => Stride.along valuation places kind arg)

def strideAlongLoops : AddressTree → Analysis Value :=
  onPlaces resolver (fun valuation places => Stride.alongLoops valuation places)

def termsOfMerge (merge : Int) : AddressTree → Analysis (List Nat) :=
  onPlaces resolver (fun _ places => do
    let terms ← Analysis.ofExcept (Stride.termsOfMerge places merge)
    return terms.map (fun term => term.site.index))

/-- The numbers of what a recurrence adds, and the operand of the merge it comes through. -/
def recurrenceAt (term merge : Int) : AddressTree → Analysis (List Nat × Int) :=
  onPlaces resolver (fun _ places => do
    let (siblings, recurrent) ← Analysis.ofExcept (Stride.recurrence places term merge)
    return (siblings.map Site.index, recurrent))

end AddressTree

end KernelFootprint
