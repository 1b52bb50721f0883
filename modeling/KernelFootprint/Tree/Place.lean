import KernelFootprint.Tree.Nary

/-!
# Places in trees

A place is a node seen together with the way from it up to the root. Every
step of the way leads from one operand to the node above it and shows all
operands there, so that what is combined with the node on its way up can be
read off without links. Places are listed in preorder and work alike for both
forms of trees.
-/

namespace KernelFootprint

/-- A subtree with the number of its root. -/
structure Site (Tree : Type) where
  index : Nat
  tree : Tree

/-- A step from an operand to the node above it. -/
structure Step (Tree : Type) where
  index : Nat
  text : Datum
  symbol : Symbol
  operands : List (Site Tree)
  child : Int

structure Place (Tree : Type) where
  site : Site Tree
  text : Datum
  symbol : Symbol
  /-- The steps to the root, the one from this node first. -/
  path : List (Step Tree)

namespace Step

variable {Tree : Type}

/-- The operands other than the one the step comes from. -/
def siblings (step : Step Tree) : List (Site Tree) :=
  step.operands.filter (fun operand => (operand.index : Int) != step.child)

def comesFrom (step : Step Tree) (operand : Site Tree) : Bool :=
  (operand.index : Int) == step.child

end Step

namespace Place

variable {Tree : Type}

def kind (place : Place Tree) : Kind := place.symbol.kind

/-- The place under the name by which it was asked for. -/
def named (index : Int) (place : Place Tree) : Place Tree :=
  match place.path with
  | [] => place
  | step :: rest => { place with path := { step with child := index } :: rest }

def isAt (index : Nat) (place : Place Tree) : Bool := place.site.index == index

/-- Whether a place lies in the subtree with the given root. -/
def isWithin (index : Nat) (place : Place Tree) : Bool :=
  place.isAt index || place.path.any (fun step => step.index == index)

end Place

def placeAt {Tree : Type} (places : List (Place Tree)) (index : Int) :
    Except Misuse (Place Tree) :=
  match (position? places.length index).bind (fun number => places.find? (Place.isAt number)) with
  | some place => .ok (if index < 0 then place.named index else place)
  | none => .error .indexOutOfRange

/-- The places of a kind, of those only the ones with the given number unless it is null. -/
def placesOf {Tree : Type} (places : List (Place Tree)) (kind : Kind) (arg : Datum) :
    List (Place Tree) :=
  places.filter (fun place =>
    place.kind == kind && (arg == .null || place.symbol.arg == arg))

namespace BinaryTree

/-- The places of a subtree whose first node has the number `first`. -/
def placesFrom (first : Nat) (path : List (Step BinaryTree)) :
    BinaryTree → List (Place BinaryTree)
  | .leaf text symbol =>
      [{ site := ⟨first, .leaf text symbol⟩
         text := text
         symbol := symbol.symbol
         path := path }]
  | .branch text operation left right =>
      let second := first + left.size
      let own := second + right.size
      let step (child : Int) : Step BinaryTree :=
        { index := own
          text := .text text
          symbol := .operation operation none
          operands := [⟨second - 1, left⟩, ⟨own - 1, right⟩]
          child := child }
      { site := ⟨own, .branch text operation left right⟩
        text := .text text
        symbol := .operation operation none
        path := path } ::
        (left.placesFrom first (step ((second : Int) - 1) :: path) ++
          right.placesFrom second (step ((own : Int) - 1) :: path))

def places (tree : BinaryTree) : List (Place BinaryTree) := tree.placesFrom 0 []

end BinaryTree

namespace NaryTree

/-- Neighbouring trees with the numbers of their roots. -/
def sitesFrom (first : Nat) : List NaryTree → List (Site NaryTree)
  | [] => []
  | tree :: rest => ⟨first, tree⟩ :: sitesFrom (first + tree.size) rest

mutual

/-- The places of a subtree whose root has the number `first`. -/
def placesFrom (first : Nat) (path : List (Step NaryTree)) : NaryTree → List (Place NaryTree)
  | .node text symbol children =>
      { site := ⟨first, .node text symbol children⟩
        text := text
        symbol := symbol
        path := path } ::
        placesOfAll (first + 1)
          (fun child =>
            { index := first
              text := text
              symbol := symbol
              operands := sitesFrom (first + 1) children
              child := child })
          path children

def placesOfAll (first : Nat) (step : Int → Step NaryTree) (path : List (Step NaryTree)) :
    List NaryTree → List (Place NaryTree)
  | [] => []
  | tree :: rest =>
      placesFrom first (step first :: path) tree ++ placesOfAll (first + size tree) step path rest

end

def places (tree : NaryTree) : List (Place NaryTree) := tree.placesFrom 0 []

end NaryTree

end KernelFootprint
