import KernelFootprint.Proofs.Sensitivity

/-!
# Finding a place by its number

The places of a binary tree are listed in preorder, but numbered in postorder. The place
with a number is found by going down the tree, to the left as long as the number is small
enough. The list holds the place of every number below the size of the tree, and no other.
-/

namespace KernelFootprint

namespace BinaryTree

/-- The place of the node with a number, of a subtree whose first node has the number
`first`. A number that is too large leads to the root. -/
def placeFrom (first : Nat) (path : List (Step BinaryTree)) :
    BinaryTree → Nat → Place BinaryTree
  | .leaf text symbol, _ =>
      { site := ⟨first, .leaf text symbol⟩
        text := text
        symbol := symbol.symbol
        path := path }
  | .branch text operation left right, number =>
      if number < left.size then
        left.placeFrom first
          (stepFrom first text operation left right (((first + left.size : Nat) : Int) - 1) :: path)
          number
      else if number < left.size + right.size then
        right.placeFrom (first + left.size)
          (stepFrom first text operation left right
            (((first + left.size + right.size : Nat) : Int) - 1) :: path)
          (number - left.size)
      else
        { site := ⟨first + left.size + right.size, branch text operation left right⟩
          text := .text text
          symbol := .operation operation none
          path := path }

variable {first number : Nat} {path : List (Step BinaryTree)} {text : String}
  {operation : Operation} {left right tree : BinaryTree}

theorem placeFrom_left (inLeft : number < left.size) :
    (branch text operation left right).placeFrom first path number =
      left.placeFrom first
        (stepFrom first text operation left right (((first + left.size : Nat) : Int) - 1) :: path)
        number := by
  rw [placeFrom, if_pos inLeft]

theorem placeFrom_right (inRight : number < right.size) :
    (branch text operation left right).placeFrom first path (left.size + number) =
      right.placeFrom (first + left.size)
        (stepFrom first text operation left right
          (((first + left.size + right.size : Nat) : Int) - 1) :: path) number := by
  rw [placeFrom, if_neg (by omega), if_pos (by omega), Nat.add_sub_cancel_left]

theorem placeFrom_root :
    (branch text operation left right).placeFrom first path (left.size + right.size) =
      { site := ⟨first + left.size + right.size, branch text operation left right⟩
        text := .text text
        symbol := .operation operation none
        path := path } := by
  rw [placeFrom, if_neg (by omega), if_neg (by omega)]

/-- A number of a branch is one of the left operand, one of the right operand, or that of
the root. -/
theorem number_cases (inside : number < (branch text operation left right).size) :
    number < left.size ∨ (∃ other < right.size, number = left.size + other) ∨
      number = left.size + right.size := by
  rw [size] at inside
  rcases Nat.lt_or_ge number left.size with inLeft | beyond
  · exact .inl inLeft
  · rcases Nat.lt_or_ge number (left.size + right.size) with inRight | last
    · exact .inr (.inl ⟨number - left.size, by omega, by omega⟩)
    · exact .inr (.inr (by omega))

theorem index_placeFrom (tree : BinaryTree) (first : Nat) (path : List (Step BinaryTree))
    (inside : number < tree.size) :
    (tree.placeFrom first path number).site.index = first + number := by
  induction tree generalizing first path number with
  | leaf text symbol =>
      rw [size] at inside
      rw [Nat.lt_one_iff.mp inside]
      rfl
  | branch text operation left right leftIH rightIH =>
      rcases number_cases inside with inLeft | ⟨other, inRight, rfl⟩ | rfl
      · rw [placeFrom_left inLeft, leftIH _ _ inLeft]
      · rw [placeFrom_right inRight, rightIH _ _ inRight, Nat.add_assoc]
      · rw [placeFrom_root, Nat.add_assoc]

theorem length_placesFrom (tree : BinaryTree) (first : Nat) (path : List (Step BinaryTree)) :
    (tree.placesFrom first path).length = tree.size := by
  induction tree generalizing first path with
  | leaf text symbol => rfl
  | branch text operation left right leftIH rightIH =>
      rw [placesFrom_branch, List.length_cons, List.length_append, leftIH, rightIH, size]

/-- The listed places are those of the numbers below the size. -/
theorem mem_placesFrom {place : Place BinaryTree} :
    place ∈ tree.placesFrom first path ↔
      ∃ number < tree.size, place = tree.placeFrom first path number := by
  induction tree generalizing first path with
  | leaf text symbol =>
      constructor
      · intro member
        exact ⟨0, Nat.one_pos, List.mem_singleton.mp member⟩
      · rintro ⟨number, -, rfl⟩
        exact List.mem_singleton.mpr rfl
  | branch text operation left right leftIH rightIH =>
      rw [placesFrom_branch, List.mem_cons, List.mem_append, leftIH, rightIH]
      constructor
      · rintro (rfl | ⟨number, inLeft, rfl⟩ | ⟨number, inRight, rfl⟩)
        · exact ⟨_, Nat.lt_succ_self _, placeFrom_root.symm⟩
        · refine ⟨number, ?_, (placeFrom_left inLeft).symm⟩
          rw [size]
          omega
        · refine ⟨left.size + number, ?_, (placeFrom_right inRight).symm⟩
          rw [size]
          omega
      · rintro ⟨number, inside, rfl⟩
        rcases number_cases inside with inLeft | ⟨other, inRight, rfl⟩ | rfl
        · exact .inr (.inl ⟨number, inLeft, placeFrom_left inLeft⟩)
        · exact .inr (.inr ⟨other, inRight, placeFrom_right inRight⟩)
        · exact .inl placeFrom_root

/-- Only one of the listed places has a given number. -/
theorem find?_placesFrom (first : Nat) (path : List (Step BinaryTree))
    (inside : number < tree.size) :
    (tree.placesFrom first path).find? (Place.isAt (first + number)) =
      some (tree.placeFrom first path number) := by
  have listed : tree.placeFrom first path number ∈ tree.placesFrom first path :=
    mem_placesFrom.mpr ⟨number, inside, rfl⟩
  have found : ((tree.placesFrom first path).find? (Place.isAt (first + number))).isSome := by
    rw [List.find?_isSome]
    exact ⟨_, listed, beq_iff_eq.mpr (index_placeFrom tree first path inside)⟩
  obtain ⟨place, isFound⟩ := Option.isSome_iff_exists.mp found
  obtain ⟨other, otherInside, rfl⟩ := mem_placesFrom.mp (List.mem_of_find?_eq_some isFound)
  have numbered : Place.isAt (first + number) (tree.placeFrom first path other) = true :=
    List.find?_some isFound
  rw [Place.isAt, index_placeFrom tree first path otherInside, beq_iff_eq] at numbered
  rw [isFound, Nat.add_left_cancel numbered]

/-- The place of the node with a number. -/
def placeOf (tree : BinaryTree) (number : Nat) : Place BinaryTree := tree.placeFrom 0 [] number

theorem placeAt_places (inside : number < tree.size) :
    placeAt tree.places number = .ok (tree.placeOf number) := by
  have positive : ¬ (number : Int) < 0 := by omega
  have found := find?_placesFrom 0 [] inside
  rw [Nat.zero_add] at found
  rw [placeAt, places, length_placesFrom, position?_natCast inside, Option.bind_some, found]
  change Except.ok (if (number : Int) < 0 then _ else _) = _
  rw [if_neg positive]
  rfl

theorem mem_places {place : Place BinaryTree} :
    place ∈ tree.places ↔ ∃ number < tree.size, place = tree.placeOf number :=
  mem_placesFrom

/-- A place shows the root of the subtree that it is the place of. -/
theorem placeFrom_of_subtree? {node : BinaryTree} (found : tree.subtree? number = some node)
    (first : Nat) (path : List (Step BinaryTree)) :
    number < tree.size ∧ (tree.placeFrom first path number).site.tree = node ∧
      (tree.placeFrom first path number).text = node.text ∧
      (tree.placeFrom first path number).symbol = node.symbol := by
  induction tree generalizing first path number with
  | leaf text symbol =>
      rw [subtree?] at found
      split at found
      · next root =>
          cases found
          exact ⟨root ▸ Nat.one_pos, rfl, rfl, rfl⟩
      · cases found
  | branch text operation left right leftIH rightIH =>
      rw [subtree?] at found
      rw [placeFrom, size]
      split at found
      · next inLeft =>
          rw [if_pos inLeft]
          exact ⟨by omega, (leftIH found _ _).2⟩
      · next beyond =>
          rw [if_neg beyond]
          split at found
          · next inRight =>
              rw [if_pos inRight]
              exact ⟨by omega, (rightIH found _ _).2⟩
          · next last =>
              rw [if_neg last]
              split at found
              · next root =>
                  cases found
                  exact ⟨by omega, rfl, rfl, rfl⟩
              · cases found

theorem placeOf_of_subtree? {node : BinaryTree} (found : tree.subtree? number = some node) :
    number < tree.size ∧ (tree.placeOf number).site.tree = node ∧
      (tree.placeOf number).text = node.text ∧ (tree.placeOf number).symbol = node.symbol :=
  placeFrom_of_subtree? found 0 []

end BinaryTree

end KernelFootprint
