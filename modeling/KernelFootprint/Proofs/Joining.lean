import KernelFootprint.Proofs.Assembly

/-!
# Two tables below a new root

An operation copies two tables into an arena and adds a node with their roots as its
operands. What comes of it holds the rows of both tables, moved, and one more row. It is
linked if the tables are: their links are moved along, and all their nodes are one level
further from the root.
-/

namespace KernelFootprint

theorem map_add_numbersFrom (first count offset : Nat) :
    (numbersFrom first count).map (· + (offset : Int)) = numbersFrom (offset + first) count := by
  rw [numbersFrom, numbersFrom, ← List.map_add_range', List.map_map, List.map_map]
  refine List.map_congr_left (fun number _ => ?_)
  simp [Int.add_comm]

namespace NodeTable

variable {table left right : NodeTable}

theorem childLinks_moved (offset : Int) (above : Option Int) (rows : List NodeRow) :
    childLinks (rows.map (NodeRow.moved offset above)) =
      (childLinks rows).map (fun link => (link.1 + offset, link.2 + offset)) := by
  induction rows with
  | nil => rfl
  | cons row rest ih =>
      rw [List.map_cons, childLinks_cons, childLinks_cons, ih, List.map_append]
      simp [NodeRow.moved]

theorem parentLinks_moved_of_attached (offset : Int) (above : Option Int) {rows : List NodeRow}
    (attached : ∀ row ∈ rows, row.parent ≠ none) :
    parentLinks (rows.map (NodeRow.moved offset above)) =
      (parentLinks rows).map (fun link => (link.1 + offset, link.2 + offset)) := by
  induction rows with
  | nil => rfl
  | cons row rest ih =>
      obtain ⟨first, others⟩ := List.forall_mem_cons.mp attached
      obtain ⟨parent, found⟩ := Option.ne_none_iff_exists'.mp first
      rw [List.map_cons, parentLinks_cons, parentLinks_cons, ih others, List.map_append]
      simp [NodeRow.moved, found]

/-- A moved table records its own links, moved, and the one to its root from above. -/
theorem IsLinked.parentLinks_moved (linked : table.IsLinked) (offset above : Int) :
    (parentLinks (table.rows.map (NodeRow.moved offset (some above)))).Perm
      ((above, table.root + offset) ::
        childLinks (table.rows.map (NodeRow.moved offset (some above)))) := by
  obtain ⟨root, member, rootIndex, parentless⟩ := linked.root
  obtain ⟨before, after, split⟩ := List.append_of_mem member
  have distinct := linked.numbered.distinct
  have attached : ∀ row ∈ before ++ after, row.parent ≠ none := by
    intro row inside unattached
    have rowMember : row ∈ table.rows := by grind
    have sameIndex := (linked.parent_eq_none_iff rowMember).mp unattached
    rw [split] at distinct
    grind
  have own := linked.linked.map (fun link => (link.1 + offset, link.2 + offset))
  rw [← childLinks_moved offset (some above), split, parentLinks_append, parentLinks_cons,
    parentless, upLink_none, List.nil_append, ← parentLinks_append,
    ← parentLinks_moved_of_attached offset (some above) attached] at own
  rw [split]
  refine List.Perm.trans ?_ (own.cons _)
  rw [List.map_append, List.map_append, List.map_cons, parentLinks_append, parentLinks_append,
    parentLinks_cons]
  simp [NodeRow.moved, parentless, rootIndex, List.perm_middle]

/-- The root of a moved table gets the node above it as its parent. -/
theorem IsLinked.modify_moved (linked : table.IsLinked) (offset above : Int) {place : Nat}
    (isRoot : table.root = place) :
    (table.rows.map (NodeRow.moved offset none)).modify place (NodeRow.withParent above) =
      table.rows.map (NodeRow.moved offset (some above)) := by
  rw [modify_map linked.numbered]
  refine List.map_congr_left (fun row member => ?_)
  have unattached := linked.parent_eq_none_iff member
  rw [isRoot] at unattached
  cases found : row.parent with
  | none =>
      rw [if_pos (unattached.mp found)]
      simp [NodeRow.moved, NodeRow.withParent, found]
  | some parent =>
      rw [if_neg (fun same => by cases found.symm.trans (unattached.mpr same))]
      simp [NodeRow.moved, found]

/-- The rows of two tables below one new root, which is an operation on them. -/
def joined (kind : Kind) (left right : NodeTable) : NodeTable :=
  let second := left.rows.length
  let own := second + right.rows.length
  { rows := left.rows.map (NodeRow.moved 0 (some own)) ++
      right.rows.map (NodeRow.moved second (some own)) ++
      [{ index := own
         kind := kind
         text := .text kind.token
         children := [left.root, right.root + second] }]
    root := own }

/-- A moved table is linked to a node above it, one level further from the root. -/
theorem IsLinked.nearer_moved (linked : table.IsLinked) {depth deeper : Int → Nat}
    (nearer : ∀ row ∈ table.rows, depth row.index < table.rows.length ∧
      (row.index = table.root ∨
        ∃ parent, row.parent = some parent ∧ depth parent < depth row.index))
    (offset : Int) {above : Int} (top : deeper above = 0)
    (below : ∀ row ∈ table.rows, deeper (row.index + offset) = depth row.index + 1) :
    ∀ row ∈ table.rows.map (NodeRow.moved offset (some above)),
      deeper row.index < table.rows.length + 1 ∧
        ∃ parent, row.parent = some parent ∧ deeper parent < deeper row.index := by
  intro moved member
  obtain ⟨row, rowMember, rfl⟩ := List.mem_map.mp member
  change deeper (row.index + offset) < _ ∧ ∃ parent, _ ∧ deeper parent < deeper (row.index + offset)
  rw [below row rowMember]
  obtain ⟨bounded, place⟩ := nearer row rowMember
  refine ⟨Nat.succ_lt_succ bounded, ?_⟩
  rcases place with isRoot | ⟨parent, found, closer⟩
  · have unattached := (linked.parent_eq_none_iff rowMember).mpr isRoot
    refine ⟨above, by simp [NodeRow.moved, unattached], ?_⟩
    rw [top]
    exact Nat.succ_pos _
  · obtain ⟨outer, outerMember, rfl, _⟩ := linked.exists_parent rowMember found
    refine ⟨outer.index + offset, by simp [NodeRow.moved, found], ?_⟩
    rw [below outer outerMember]
    exact Nat.succ_lt_succ closer

theorem IsLinked.index_bounds (linked : table.IsLinked) {row : NodeRow}
    (member : row ∈ table.rows) : 0 ≤ row.index ∧ row.index < table.rows.length := by
  obtain ⟨place, _, index, inside⟩ := linked.numbered.exists_place member
  omega

theorem length_joined (kind : Kind) (left right : NodeTable) :
    (joined kind left right).rows.length = left.rows.length + right.rows.length + 1 := by
  simp [joined, Nat.add_assoc]

theorem isNumbered_joined (kind : Kind) (onLeft : left.IsLinked) (onRight : right.IsLinked) :
    IsNumbered (joined kind left right).rows := by
  have moved (offset : Nat) (above : Option Int) {table : NodeTable} (linked : table.IsLinked) :
      (table.rows.map (NodeRow.moved offset above)).map NodeRow.index =
        numbersFrom offset table.rows.length := by
    have shifted := congrArg (List.map (· + (offset : Int))) linked.numbered
    rw [map_add_numbersFrom] at shifted
    rw [← Nat.add_zero offset, ← shifted, List.map_map, List.map_map]
    rfl
  rw [IsNumbered, length_joined, joined, List.map_append, List.map_append,
    moved left.rows.length _ onRight]
  have first := moved 0 (some ((left.rows.length + right.rows.length : Nat) : Int)) onLeft
  rw [Int.natCast_zero] at first
  rw [first]
  have second := numbersFrom_append 0 left.rows.length right.rows.length
  have last := numbersFrom_append 0 (left.rows.length + right.rows.length) 1
  rw [Nat.zero_add] at second last
  rw [second, ← last]
  rfl

/-- An operation on linked tables is linked. -/
theorem isLinked_joined (kind : Kind) (onLeft : left.IsLinked) (onRight : right.IsLinked) :
    (joined kind left right).IsLinked where
  numbered := isNumbered_joined kind onLeft onRight
  linked := by
    have first := onLeft.parentLinks_moved 0 ((left.rows.length + right.rows.length : Nat) : Int)
    have second := onRight.parentLinks_moved left.rows.length
      ((left.rows.length + right.rows.length : Nat) : Int)
    rw [joined]
    simp only [parentLinks_append, childLinks_append, parentLinks_cons, childLinks_cons,
      parentLinks_nil, childLinks_nil, upLink_none]
    rw [List.perm_iff_count] at first second ⊢
    intro link
    have firstCount := first link
    have secondCount := second link
    simp only [List.count_append, List.count_cons, List.map_cons, List.map_nil, List.count_nil,
      Int.add_zero] at firstCount secondCount ⊢
    omega
  root := ⟨_, List.mem_append_right _ (List.mem_singleton_self _), rfl, rfl⟩
  nearer := by
    obtain ⟨leftDepth, leftNearer⟩ := onLeft.nearer
    obtain ⟨rightDepth, rightNearer⟩ := onRight.nearer
    let depth (index : Int) : Nat :=
      if index < left.rows.length then leftDepth index + 1
      else if index < (left.rows.length + right.rows.length : Nat) then
        rightDepth (index - left.rows.length) + 1
      else 0
    have top : depth ((left.rows.length + right.rows.length : Nat) : Int) = 0 := by
      simp only [depth]
      rw [if_neg (by omega), if_neg (by omega)]
    have first := onLeft.nearer_moved leftNearer 0 top (fun row member => by
      have bounds := onLeft.index_bounds member
      simp only [depth, Int.add_zero]
      rw [if_pos bounds.2])
    have second := onRight.nearer_moved rightNearer left.rows.length top
      (fun row member => by
        have bounds := onRight.index_bounds member
        simp only [depth, Int.add_sub_cancel]
        rw [if_neg (by omega), if_pos (by omega)])
    refine ⟨depth, fun row member => ?_⟩
    rw [length_joined]
    rw [joined, List.mem_append, List.mem_append, List.mem_singleton] at member
    rcases member with (inLeft | inRight) | rfl
    · obtain ⟨bounded, closer⟩ := first row inLeft
      exact ⟨by omega, .inr closer⟩
    · obtain ⟨bounded, closer⟩ := second row inRight
      exact ⟨by omega, .inr closer⟩
    · exact ⟨by rw [top]; omega, .inl rfl⟩

theorem hasArities_joined {kind : Kind} (isOperation : kind.isOperation)
    (onLeft : HasArities left.rows) (onRight : HasArities right.rows) :
    HasArities (joined kind left right).rows := by
  intro row member
  rw [joined, List.mem_append, List.mem_append, List.mem_singleton] at member
  rcases member with (inLeft | inRight) | rfl
  · obtain ⟨own, ownMember, rfl⟩ := List.mem_map.mp inLeft
    exact (List.length_map _).trans (onLeft own ownMember)
  · obtain ⟨own, ownMember, rfl⟩ := List.mem_map.mp inRight
    exact (List.length_map _).trans (onRight own ownMember)
  · simp [Arena.arity, isOperation]

end NodeTable

namespace Arena

open NodeTable

variable {left right : NodeTable}

theorem rowsOf_holding {rows : List NodeRow} (first : Nat)
    (numbered : rows.map NodeRow.index = numbersFrom first rows.length) :
    rowsOf first (rows.map draftOf) (rows.map NodeRow.children) (rows.map NodeRow.parent) =
      rows := by
  induction rows generalizing first with
  | nil => rfl
  | cons row rest ih =>
      rw [List.length_cons, ← numbersFrom_succ, List.map_cons, List.cons.injEq] at numbered
      obtain ⟨index, others⟩ := numbered
      have further := ih (first + 1) others
      rw [Int.natCast_add, Int.natCast_one] at further
      rw [List.map_cons, List.map_cons, List.map_cons, rowsOf, further, ← index]
      rfl

theorem checkArities_eq_ok {rows : List NodeRow} :
    checkArities rows = .ok () ↔ HasArities rows := by
  induction rows with
  | nil => exact ⟨fun _ => nofun, fun _ => rfl⟩
  | cons row rest ih =>
      rw [checkArities, HasArities, List.forall_mem_cons, ← HasArities]
      by_cases proper : row.children.length = arity row.kind
      · rw [if_pos proper, ih]
        exact ⟨fun others => ⟨proper, others⟩, And.right⟩
      · rw [if_neg proper]
        exact ⟨nofun, fun both => absurd both.1 proper⟩

/-- Freezing an arena with numbered rows gives their table. -/
theorem freeze_holding {table : NodeTable} (linked : table.IsLinked)
    (arities : HasArities table.rows) :
    (holding table.rows).freeze .binary table.root = .ok table := by
  obtain ⟨row, member, isRoot, parentless⟩ := linked.root
  have bounds := linked.index_bounds member
  have found := linked.row?_index member
  rw [isRoot] at bounds found
  have frozen : (⟨rowsOf 0 (holding table.rows).drafts (holding table.rows).children
      (holding table.rows).parents, table.root⟩ : NodeTable) = table :=
    congrArg (NodeTable.mk · table.root) (rowsOf_holding 0 linked.numbered)
  rw [freeze, frozen, if_neg (by omega)]
  simp only [found, if_pos, checkArities_eq_ok.mpr arities]
  change (if row.parent.isSome = true then _ else _) = _
  rw [parentless]
  rfl

/-- What a frozen arena is like: the root is a node without a parent. -/
theorem freeze_eq_ok {arena : Arena} {form : TreeForm} {root : Int} {table : NodeTable}
    (frozen : arena.freeze form root = .ok table) :
    table = ⟨rowsOf 0 arena.drafts arena.children arena.parents, root⟩ ∧
      (0 ≤ root ∧ root < table.rows.length) ∧
      (∃ row, table.row? root = .ok row ∧ row.parent = none) ∧
      (form = .binary → HasArities table.rows) := by
  unfold freeze at frozen
  dsimp only at frozen
  split at frozen
  · cases frozen
  · next outside =>
      obtain ⟨low, high⟩ := not_or.mp outside
      have inside := And.intro (Int.not_lt.mp low) (Int.not_le.mp high)
      cases found : (NodeTable.mk (rowsOf 0 arena.drafts arena.children arena.parents)
          root).row? root with
      | error misuse =>
          rw [found] at frozen
          cases frozen
      | ok row =>
          rw [found] at frozen
          change (if row.parent.isSome = true then _ else _) = _ at frozen
          split at frozen
          · cases frozen
          · next attached =>
              have free : row.parent = none := by simpa using attached
              split at frozen
              · cases checked : checkArities
                    (rowsOf 0 arena.drafts arena.children arena.parents) with
                | error fault =>
                    rw [checked] at frozen
                    cases frozen
                | ok done =>
                    rw [checked] at frozen
                    cases frozen
                    exact ⟨rfl, inside, ⟨row, found, free⟩,
                      fun _ => checkArities_eq_ok.mp checked⟩
              · next other =>
                  cases frozen
                  exact ⟨rfl, inside, ⟨row, found, free⟩, fun binary => absurd binary other⟩

theorem eq_of_freeze {rows : List NodeRow} {form : TreeForm} {root : Int} {table : NodeTable}
    (numbered : IsNumbered rows) (frozen : (holding rows).freeze form root = .ok table) :
    table = ⟨rows, root⟩ ∧ (form = .binary → HasArities table.rows) := by
  have held : rowsOf 0 (holding rows).drafts (holding rows).children (holding rows).parents =
      rows := rowsOf_holding 0 numbered
  obtain ⟨whole, _, _, arities⟩ := freeze_eq_ok frozen
  rw [held] at whole
  exact ⟨whole, arities⟩

/-- The root of a moved table is put below the latest node. -/
theorem builds_appendRoot {table : NodeTable} (linked : table.IsLinked)
    (before after : List NodeRow) {offset own : Nat} (start : before.length = offset)
    (last : (before ++ table.rows.map (NodeRow.moved offset none) ++ after).length = own)
    (new : NodeRow) :
    Builds (appendChild own (table.root + offset))
      (holding (before ++ table.rows.map (NodeRow.moved offset none) ++ after ++ [new])) ()
      (holding (before ++ table.rows.map (NodeRow.moved offset (some own)) ++ after ++
        [new.withChild (table.root + offset)])) := by
  obtain ⟨row, member, isRoot, parentless⟩ := linked.root
  obtain ⟨place, found, index, inside⟩ := linked.numbered.exists_place member
  have rootPlace : table.root = place := isRoot.symm.trans index
  have standing : (before ++ table.rows.map (NodeRow.moved offset none) ++ after ++
      [new])[offset + place]? = some (row.moved offset none) := by
    rw [List.append_assoc, List.append_assoc, List.getElem?_append_right (by omega), start,
      Nat.add_sub_cancel_left, List.getElem?_append_left (by rwa [List.length_map]),
      List.getElem?_map, found]
    rfl
  have free : (row.moved offset none).parent = none := by simp [NodeRow.moved, parentless]
  have bounded : own < (before ++ table.rows.map (NodeRow.moved offset none) ++ after ++
      [new]).length := by
    rw [List.length_append, last]
    exact Nat.lt_succ_self own
  refine builds_apply ?_
  rw [rootPlace, Int.add_comm, ← Int.natCast_add, attach_holding bounded standing free]
  refine congrArg (fun rows => Except.ok (holding rows)) ?_
  have onNew := modify_append_right (before ++ table.rows.map (NodeRow.moved offset none) ++ after)
    [new] 0 (NodeRow.withChild ((offset + place : Nat) : Int))
  rw [last, Nat.add_zero] at onNew
  rw [onNew, List.append_assoc, List.append_assoc, ← start, modify_append_right,
    modify_append_left _ (by rwa [List.length_map]), linked.modify_moved _ _ rootPlace]
  simp

/-- The row of an operation that has no operands yet. -/
def fresh (kind : Kind) (own : Nat) : NodeRow :=
  { index := own, kind := kind, text := .text kind.token }

theorem builds_add (kind : Kind) (onLeft : left.IsLinked) (onRight : right.IsLinked) :
    Builds (add { kind := kind, text := .text kind.token }
        [left.root, right.root + left.rows.length])
      (holding (left.rows.map (NodeRow.moved 0 none) ++
        right.rows.map (NodeRow.moved left.rows.length none)))
      (joined kind left right).root (holding (joined kind left right).rows) := by
  have size : (holding (left.rows.map (NodeRow.moved 0 none) ++
      right.rows.map (NodeRow.moved left.rows.length none))).size =
        left.rows.length + right.rows.length := by
    simp [size_holding]
  have added : (holding (left.rows.map (NodeRow.moved 0 none) ++
      right.rows.map (NodeRow.moved left.rows.length none))).append
        { kind := kind, text := .text kind.token } = _ :=
    append_holding _ (fresh kind (left.rows.length + right.rows.length)) rfl rfl
  have first := builds_appendRoot onLeft []
    (right.rows.map (NodeRow.moved left.rows.length none)) List.length_nil
    (show _ = left.rows.length + right.rows.length by simp)
    (fresh kind (left.rows.length + right.rows.length))
  have second := builds_appendRoot onRight
    (left.rows.map (NodeRow.moved 0 (some ((left.rows.length + right.rows.length : Nat) : Int))))
    [] (List.length_map _) (show _ = left.rows.length + right.rows.length by simp)
    ((fresh kind (left.rows.length + right.rows.length)).withChild left.root)
  rw [List.nil_append, List.nil_append, Int.natCast_zero, Int.add_zero] at first
  rw [List.append_nil, List.append_nil] at second
  refine (builds_get _).bind ((builds_modify _ _).bind ?_)
  simp only [size, added]
  exact (first.bind (second.bind (Builds.pure _ _))).bind (Builds.pure _ _)

/-- An operation on linked tables is their joined table. -/
theorem combine_eq {kind : Kind} (isOperation : kind.isOperation) (onLeft : left.IsLinked)
    (onRight : right.IsLinked) (leftArities : HasArities left.rows)
    (rightArities : HasArities right.rows) :
    combine kind left right = .ok (joined kind left right) := by
  have first := builds_copyTree onLeft []
  have second := builds_copyTree onRight (left.rows.map (NodeRow.moved 0 none))
  rw [List.nil_append, List.length_nil, Int.natCast_zero, Int.add_zero] at first
  rw [List.length_map] at second
  have built : Builds
      (do
        let first ← copyTree left
        let second ← copyTree right
        add { kind := kind, text := .text kind.token } [first, second])
      (holding []) (joined kind left right).root (holding (joined kind left right).rows) :=
    first.bind (second.bind (builds_add kind onLeft onRight))
  rw [combine, if_pos isOperation]
  exact (build_of_builds .binary built).trans
    (freeze_holding (isLinked_joined kind onLeft onRight)
      (hasArities_joined isOperation leftArities rightArities))

end Arena

namespace BinaryTree

open NodeTable

theorem map_moved_rowsFrom (tree : BinaryTree) (first offset : Nat) (parent above : Option Int) :
    (tree.rowsFrom first parent).map (NodeRow.moved offset above) =
      tree.rowsFrom (offset + first) ((parent.map (· + (offset : Int))).or above) := by
  induction tree generalizing first parent with
  | leaf text symbol => simp [rowsFrom, NodeRow.moved, Int.add_comm]
  | branch text operation left right leftIH rightIH =>
      have second : offset + (first + left.size) = offset + first + left.size := by omega
      have own : offset + first + left.size + right.size =
          first + left.size + right.size + offset := by omega
      have secondRoot : ((offset + first + left.size : Nat) : Int) - 1 =
          ((first + left.size : Nat) : Int) - 1 + offset := by omega
      have ownRoot : ((first + left.size + right.size + offset : Nat) : Int) - 1 =
          ((first + left.size + right.size : Nat) : Int) - 1 + offset := by omega
      rw [rowsFrom, rowsFrom, List.map_append, List.map_append, leftIH, rightIH, second, own,
        secondRoot, ownRoot, Int.natCast_add _ offset]
      rfl

/-- An operation on copies of two trees is the tree of that operation. -/
theorem combine_table (operation : Operation) (left right : BinaryTree) :
    Arena.combine (.operation operation) left.table right.table =
      .ok (combine operation left right).table := by
  have moved (tree : BinaryTree) (offset : Nat) (above : Option Int) :
      tree.table.rows.map (NodeRow.moved offset above) = tree.rowsFrom offset above := by
    rw [table, map_moved_rowsFrom]
    rfl
  have first := moved left 0
  rw [Int.natCast_zero] at first
  rw [Arena.combine_eq rfl left.isLinked_table right.isLinked_table
    (left.hasArities_rowsFrom 0 none) (right.hasArities_rowsFrom 0 none), joined, first, moved]
  have lengths (tree : BinaryTree) : tree.table.rows.length = tree.size :=
    tree.length_rowsFrom 0 none
  simp only [lengths]
  rw [combine]
  simp only [table, rowsFrom, size, Nat.zero_add]
  have rightRoot : (right.size : Int) - 1 + left.size =
      ((left.size + right.size : Nat) : Int) - 1 := by omega
  have root : ((left.size + right.size : Nat) : Int) =
      ((left.size + right.size + 1 : Nat) : Int) - 1 := by omega
  rw [rightRoot, ← root]
  rfl

end BinaryTree

end KernelFootprint
