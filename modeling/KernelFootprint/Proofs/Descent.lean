import KernelFootprint.Proofs.Links

/-!
# The way down in a table

The links of a table may run in circles. Where no node has two parents, none of these circles can
be reached from a node without a parent: the number of links from there to a node is determined,
and smaller than the number of nodes. So everything below the root is a finite tree, which can be
listed by recursion, and the traversals list it in the same order with a stack of pending nodes.
-/

namespace KernelFootprint

/-- A node with everything below it. -/
inductive Subtree
  | node (place : Nat) (branches : List Subtree)

namespace Subtree

/-- The place of the root. -/
def place : Subtree → Nat
  | .node place _ => place

mutual

/-- Every node before what is below it, branches from left to right. -/
def preorder : Subtree → List Int
  | .node place branches => (place : Int) :: preorderAll branches

def preorderAll : List Subtree → List Int
  | [] => []
  | first :: rest => first.preorder ++ preorderAll rest

end

mutual

/-- Every node after what is below it, branches from left to right. -/
def postorder : Subtree → List Int
  | .node place branches => postorderAll branches ++ [(place : Int)]

def postorderAll : List Subtree → List Int
  | [] => []
  | first :: rest => first.postorder ++ postorderAll rest

end

theorem preorder_node (place : Nat) (branches : List Subtree) :
    (node place branches).preorder = (place : Int) :: branches.flatMap preorder := by
  have all : preorderAll branches = branches.flatMap preorder := by
    induction branches with
    | nil => rfl
    | cons first rest ih => rw [preorderAll, ih, List.flatMap_cons]
  rw [preorder, all]

theorem postorder_node (place : Nat) (branches : List Subtree) :
    (node place branches).postorder = branches.flatMap postorder ++ [(place : Int)] := by
  have all : postorderAll branches = branches.flatMap postorder := by
    induction branches with
    | nil => rfl
    | cons first rest ih => rw [postorderAll, ih, List.flatMap_cons]
  rw [postorder, all]

mutual

theorem postorder_perm (subtree : Subtree) : subtree.postorder.Perm subtree.preorder := by
  cases subtree with
  | node place branches =>
      rw [postorder, preorder]
      exact (List.perm_append_singleton _ _).trans (.cons _ (postorderAll_perm branches))

theorem postorderAll_perm (branches : List Subtree) :
    (postorderAll branches).Perm (preorderAll branches) := by
  cases branches with
  | nil => exact .nil
  | cons first rest =>
      rw [postorderAll, preorderAll]
      exact first.postorder_perm.append (postorderAll_perm rest)

end

end Subtree

namespace NodeTable

open Subtree

variable {table : NodeTable} {subtree : Subtree} {root start place outer inner links : Nat}

/-- Whether a table has a subtree: the branches of every node in it are the children of its row,
in order. -/
inductive Shows (table : NodeTable) : Subtree → Prop
  | node {place : Nat} {row : NodeRow} {branches : List Subtree} :
      table.rows[place]? = some row →
      row.children = branches.map (fun branch => (branch.place : Int)) →
      (∀ branch ∈ branches, Shows table branch) → Shows table (.node place branches)

theorem Shows.lists_preorder (shown : table.Shows subtree) :
    Lists table.preorderWithin (1 * subtree.preorder.length) [(subtree.place : Int)]
      subtree.preorder := by
  induction shown with
  | @node place row branches found children _ ih =>
      have below := lists_flatMap ih
      rw [← children] at below
      rw [preorder_node, List.length_cons, Nat.mul_succ]
      exact lists_preorder_of_children (row?_of_getElem? found) below

theorem Shows.lists_postorder (shown : table.Shows subtree) :
    Lists table.postorderWithin (2 * subtree.postorder.length) [((subtree.place : Int), false)]
      subtree.postorder := by
  induction shown with
  | @node place row branches found children _ ih =>
      have below := lists_flatMap ih
      rw [postorder_node, List.length_append, Nat.mul_add]
      refine lists_postorder_of_children (row?_of_getElem? found) ?_
      rw [children, List.map_map]
      exact below

/-! ## What is reached -/

theorem Shows.mem_preorder_iff (shown : table.Shows subtree) (index : Int) :
    index ∈ subtree.preorder ↔
      ∃ place : Nat, index = place ∧
        Relation.ReflTransGen table.IsChild subtree.place place := by
  induction shown with
  | @node place row branches found children _ ih =>
      rw [preorder_node, List.mem_cons, List.mem_flatMap]
      constructor
      · rintro (rfl | ⟨branch, member, listed⟩)
        · exact ⟨place, rfl, .refl⟩
        · obtain ⟨other, rfl, below⟩ := (ih branch member).mp listed
          have child : table.IsChild place branch.place :=
            ⟨row, found, children ▸ List.mem_map_of_mem member⟩
          exact ⟨other, rfl, .head child below⟩
      · rintro ⟨other, rfl, reached⟩
        rcases reached.cases_head with same | ⟨next, ⟨row', found', listed⟩, below⟩
        · exact .inl (congrArg Nat.cast same.symm)
        · cases found.symm.trans found'
          rw [children] at listed
          obtain ⟨branch, member, same⟩ := List.mem_map.mp listed
          cases Int.ofNat.inj same
          exact .inr ⟨branch, member, (ih branch member).mpr ⟨other, rfl, below⟩⟩

/-- A way down from one node to another one, by its number of links. -/
inductive Descends (table : NodeTable) (start : Nat) : Nat → Nat → Prop
  | here : Descends table start 0 start
  | down {links outer inner : Nat} : Descends table start links outer →
      table.IsChild outer inner → Descends table start (links + 1) inner

theorem exists_descends (reached : Relation.ReflTransGen table.IsChild start place) :
    ∃ links, table.Descends start links place := by
  induction reached with
  | refl => exact ⟨0, .here⟩
  | tail _ child ih =>
      obtain ⟨links, down⟩ := ih
      exact ⟨links + 1, down.down child⟩

theorem Descends.trans {further : Nat} (upper : table.Descends root links start)
    (lower : table.Descends start further place) :
    table.Descends root (links + further) place := by
  induction lower with
  | here => exact upper
  | down _ child ih => exact ih.down child

theorem Shows.exists_descends_of_mem (shown : table.Shows subtree) {index : Int}
    (listed : index ∈ subtree.preorder) :
    ∃ inner : Nat, index = inner ∧ ∃ links, table.Descends subtree.place links inner := by
  obtain ⟨inner, same, below⟩ := (shown.mem_preorder_iff index).mp listed
  exact ⟨inner, same, exists_descends below⟩

/-- Whether no node of a table has two parents: children are nodes that are listed once, with
the parent that they record. -/
structure HasSingleParents (table : NodeTable) : Prop where
  inside : ∀ row ∈ table.rows, ∀ child ∈ row.children,
    ∃ place : Nat, child = place ∧ place < table.rows.length
  once : ∀ row ∈ table.rows, row.children.Nodup
  recorded : ∀ outer inner row, table.IsChild outer inner → table.rows[inner]? = some row →
    row.parent = some (outer : Int)

namespace HasSingleParents

theorem lt_of_isChild (single : table.HasSingleParents) (child : table.IsChild outer inner) :
    inner < table.rows.length := by
  obtain ⟨row, found, listed⟩ := child
  obtain ⟨place, same, below⟩ := single.inside row (List.mem_of_getElem? found) inner listed
  cases Int.ofNat.inj same
  exact below

theorem eq_of_isChild {other : Nat} (single : table.HasSingleParents)
    (child : table.IsChild outer inner) (same : table.IsChild other inner) : outer = other := by
  have found := List.getElem?_eq_getElem (single.lt_of_isChild child)
  have above := single.recorded outer inner _ child found
  rw [single.recorded other inner _ same found] at above
  exact (Int.ofNat.inj (Option.some.inj above)).symm

/-- The end of a way down and its number of links determine where it starts. -/
theorem start_eq {other : Nat} (single : table.HasSingleParents)
    (down : table.Descends start links place) (same : table.Descends other links place) :
    start = other := by
  induction down with
  | here =>
      cases same
      rfl
  | down _ child ih =>
      cases same with
      | down before last =>
          cases single.eq_of_isChild child last
          exact ih before

variable (single : table.HasSingleParents) (parentless : ∀ outer, ¬table.IsChild outer root)
include single parentless

/-- All ways down from a node without a parent to the same node are of one length. -/
theorem links_eq {others : Nat} (down : table.Descends root links place)
    (same : table.Descends root others place) : links = others := by
  induction down generalizing others with
  | here =>
      cases same with
      | here => rfl
      | down _ last => exact absurd last (parentless _)
  | down _ child ih =>
      cases same with
      | here => exact absurd child (parentless _)
      | down before last =>
          cases single.eq_of_isChild child last
          rw [ih before]

/-- The nodes on a way down are all different, because each is reached over a number of links of
its own. -/
theorem exists_passed (inside : root < table.rows.length)
    (down : table.Descends root links place) :
    ∃ passed : List Nat, passed.length = links + 1 ∧ passed.Nodup ∧
      ∀ node ∈ passed, node < table.rows.length ∧
        ∃ before ≤ links, table.Descends root before node := by
  induction down with
  | here =>
      refine ⟨[root], rfl, List.nodup_singleton root, List.forall_mem_singleton.mpr ⟨inside, ?_⟩⟩
      exact ⟨0, Nat.le_refl 0, .here⟩
  | @down links outer inner down child ih =>
      obtain ⟨passed, counted, distinct, each⟩ := ih
      have fresh : inner ∉ passed := by
        intro member
        obtain ⟨before, le, other⟩ := (each inner member).2
        have same := single.links_eq parentless other (down.down child)
        omega
      refine ⟨inner :: passed, ?_, List.nodup_cons.mpr ⟨fresh, distinct⟩,
        List.forall_mem_cons.mpr ⟨⟨single.lt_of_isChild child, links + 1, Nat.le_refl _,
          down.down child⟩, ?_⟩⟩
      · rw [List.length_cons, counted]
      · intro node member
        obtain ⟨below, before, le, other⟩ := each node member
        exact ⟨below, before, Nat.le_succ_of_le le, other⟩

/-- A way down has fewer links than the table has nodes. -/
theorem links_lt (inside : root < table.rows.length) (down : table.Descends root links place) :
    links < table.rows.length := by
  obtain ⟨passed, counted, distinct, each⟩ := single.exists_passed parentless inside down
  have among : passed ⊆ List.range table.rows.length :=
    fun node member => List.mem_range.mpr (each node member).1
  have bounded := (List.subperm_of_subset distinct among).length_le
  rw [counted, List.length_range] at bounded
  exact bounded

end HasSingleParents

theorem exists_branches {children : List Int}
    (each : ∀ child ∈ children, ∃ branch : Subtree, (branch.place : Int) = child ∧
      table.Shows branch) :
    ∃ branches : List Subtree, children = branches.map (fun branch => (branch.place : Int)) ∧
      ∀ branch ∈ branches, table.Shows branch := by
  induction children with
  | nil => exact ⟨[], rfl, List.forall_mem_nil _⟩
  | cons child rest ih =>
      obtain ⟨⟨branch, same, shown⟩, others⟩ := List.forall_mem_cons.mp each
      obtain ⟨branches, listed, onRest⟩ := ih others
      refine ⟨branch :: branches, ?_, List.forall_mem_cons.mpr ⟨shown, onRest⟩⟩
      rw [List.map_cons, same, listed]

namespace HasSingleParents

variable (single : table.HasSingleParents) (parentless : ∀ outer, ¬table.IsChild outer root)
include single parentless

/-- What is below a node is finite, by induction on what the links on the way down to it leave of
the number of nodes. -/
theorem exists_shown_within (inside : root < table.rows.length) {left : Nat}
    (room : table.rows.length ≤ links + left)
    (down : table.Descends root links place) :
    ∃ subtree : Subtree, subtree.place = place ∧ table.Shows subtree := by
  have below := single.links_lt parentless inside down
  induction left generalizing links place with
  | zero => omega
  | succ left ih =>
      have here : place < table.rows.length := by
        cases down with
        | here => exact inside
        | down _ child => exact single.lt_of_isChild child
      have found := List.getElem?_eq_getElem here
      have each : ∀ child ∈ table.rows[place].children, ∃ branch : Subtree,
          (branch.place : Int) = child ∧ table.Shows branch := by
        intro child listed
        obtain ⟨inner, rfl, _⟩ := single.inside _ (List.getElem_mem here) child listed
        have further := down.down ⟨_, found, listed⟩
        obtain ⟨branch, same, shown⟩ := ih (by omega) further
          (single.links_lt parentless inside further)
        exact ⟨branch, congrArg Nat.cast same, shown⟩
      obtain ⟨branches, children, shown⟩ := exists_branches each
      exact ⟨.node place branches, rfl, .node found children shown⟩

/-- Below a child there is no way back to its parent. -/
theorem not_mem_preorder_of_isChild (down : table.Descends root links place)
    (child : table.IsChild place subtree.place) (shown : table.Shows subtree) :
    (place : Int) ∉ subtree.preorder := by
  intro listed
  obtain ⟨inner, same, further, below⟩ := shown.exists_descends_of_mem listed
  cases Int.ofNat.inj same
  have circle := single.links_eq parentless ((down.down child).trans below) down
  omega

/-- Different subtrees that are equally far from the root have no node in common. -/
theorem disjoint_preorder {first second : Subtree} (onFirst : table.Shows first)
    (onSecond : table.Shows second) (toFirst : table.Descends root links first.place)
    (toSecond : table.Descends root links second.place) (apart : first.place ≠ second.place) :
    first.preorder.Disjoint second.preorder := by
  intro index listed other
  obtain ⟨inner, rfl, further, below⟩ := onFirst.exists_descends_of_mem listed
  obtain ⟨inner', same, others, below'⟩ := onSecond.exists_descends_of_mem other
  cases Int.ofNat.inj same
  have even := single.links_eq parentless (toFirst.trans below) (toSecond.trans below')
  cases Nat.add_left_cancel even
  exact apart (single.start_eq below below')

theorem nodup_preorder (shown : table.Shows subtree)
    (down : table.Descends root links subtree.place) : subtree.preorder.Nodup := by
  induction shown generalizing links with
  | @node place row branches found children shown ih =>
      have isChild (branch : Subtree) (member : branch ∈ branches) :
          table.IsChild place branch.place :=
        ⟨row, found, children ▸ List.mem_map_of_mem member⟩
      have below (branch : Subtree) (member : branch ∈ branches) :
          table.Descends root (links + 1) branch.place := down.down (isChild branch member)
      rw [preorder_node, List.nodup_cons, List.nodup_flatMap]
      refine ⟨?_, fun branch member => ih branch member (below branch member), ?_⟩
      · intro listed
        obtain ⟨branch, member, inBranch⟩ := List.mem_flatMap.mp listed
        exact single.not_mem_preorder_of_isChild parentless down (isChild branch member)
          (shown branch member) inBranch
      · have distinct := single.once row (List.mem_of_getElem? found)
        rw [children, List.Nodup, List.pairwise_map] at distinct
        refine distinct.imp_of_mem (fun {first second} onFirst onSecond apart => ?_)
        exact single.disjoint_preorder parentless (shown first onFirst) (shown second onSecond)
          (below first onFirst) (below second onSecond) (fun same => apart (congrArg _ same))

end HasSingleParents

/-- Both traversals from a node end, and list what is below it by recursion: the nodes that can be
reached, each of them once. -/
structure IsTraversed (table : NodeTable) (start : Nat) (subtree : Subtree) : Prop where
  root : subtree.place = start
  shown : table.Shows subtree
  preorder : table.preorder start = .ok subtree.preorder
  postorder : table.postorder start = .ok subtree.postorder
  once : subtree.preorder.Nodup
  reached : ∀ index : Int, index ∈ subtree.preorder ↔
    ∃ place : Nat, index = place ∧ Relation.ReflTransGen table.IsChild start place
  permuted : subtree.postorder.Perm subtree.preorder

theorem HasSingleParents.length_preorder_le (single : table.HasSingleParents)
    (shown : table.Shows subtree) (once : subtree.preorder.Nodup) :
    subtree.preorder.length ≤ table.rows.length := by
  have among : subtree.preorder ⊆ numbersFrom 0 table.rows.length := by
    intro index listed
    obtain ⟨place, rfl, reached⟩ := (shown.mem_preorder_iff index).mp listed
    have below : place < table.rows.length := by
      rcases reached.cases_tail with same | ⟨outer, _, child⟩
      · rw [same]
        cases shown with
        | node found => exact (List.getElem?_eq_some_iff.mp found).1
      · exact single.lt_of_isChild child
    rw [mem_numbersFrom]
    omega
  have bounded := (List.subperm_of_subset once among).length_le
  rwa [numbersFrom, List.length_map, List.length_range'] at bounded

theorem HasSingleParents.exists_isTraversed (single : table.HasSingleParents)
    (parentless : ∀ outer, ¬table.IsChild outer root) (inside : root < table.rows.length)
    (reached : Relation.ReflTransGen table.IsChild root start) :
    ∃ subtree, table.IsTraversed start subtree := by
  obtain ⟨links, down⟩ := exists_descends reached
  obtain ⟨subtree, rfl, shown⟩ := single.exists_shown_within parentless inside
    (Nat.le_add_left table.rows.length links) down
  have once := single.nodup_preorder parentless shown down
  have few := single.length_preorder_le shown once
  have same := subtree.postorder_perm.length_eq
  refine ⟨subtree, rfl, shown, ?_, ?_, once, shown.mem_preorder_iff, subtree.postorder_perm⟩
  · exact shown.lists_preorder.preorder_eq_ok (by omega)
  · exact shown.lists_postorder.postorder_eq_ok (by omega)

end NodeTable

end KernelFootprint
