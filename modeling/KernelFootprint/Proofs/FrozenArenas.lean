import KernelFootprint.Proofs.ArenaLinks
import KernelFootprint.Proofs.Descent
import KernelFootprint.Proofs.Joining

/-!
# Traversals of frozen arenas

Freezing an arena looks at the parent of the root and at nothing else of its links. This is enough:
the links agree on both sides, so no node has two parents, and whatever runs in a circle is out of
reach of the root.
-/

namespace KernelFootprint

namespace Arena

open NodeTable

variable {arena : Arena} {table : NodeTable} {place : Nat} {row : NodeRow}

/-- The rows of an arena have the links recorded there. -/
theorem map_links_rowsOf (first : Int) {drafts : List Draft} {children : List (List Int)}
    {parents : List (Option Int)} (childLists : children.length = drafts.length)
    (above : parents.length = drafts.length) :
    (rowsOf first drafts children parents).map (fun row => (row.children, row.parent)) =
      children.zip parents := by
  induction drafts generalizing first children parents with
  | nil =>
      rw [List.length_eq_zero_iff.mp childLists]
      rfl
  | cons draft drafts ih =>
      obtain ⟨own, others, rfl⟩ := List.exists_cons_of_length_eq_add_one childLists
      obtain ⟨parent, rest, rfl⟩ := List.exists_cons_of_length_eq_add_one above
      rw [rowsOf, List.map_cons, List.zip_cons_cons,
        ih (first + 1) (Nat.succ.inj childLists) (Nat.succ.inj above)]

/-- The table of all nodes of an arena. -/
def tableOf (arena : Arena) (root : Int) : NodeTable :=
  ⟨rowsOf 0 arena.drafts arena.children arena.parents, root⟩

namespace IsConsistent

variable (consistent : arena.IsConsistent) {root : Int}
include consistent

theorem length_tableOf : (arena.tableOf root).rows.length = arena.size := by
  have links := congrArg List.length
    (map_links_rowsOf 0 consistent.childLists consistent.parents)
  rw [List.length_map, List.length_zip, consistent.childLists, consistent.parents,
    Nat.min_self] at links
  exact links

theorem links_tableOf (found : (arena.tableOf root).rows[place]? = some row) :
    arena.childList place = row.children ∧ arena.parent? place = row.parent := by
  have links := congrArg (fun links => links[place]?)
    (map_links_rowsOf 0 consistent.childLists consistent.parents)
  rw [List.getElem?_map] at links
  change ((arena.tableOf root).rows[place]?).map _ = _ at links
  rw [found] at links
  obtain ⟨children, parents⟩ := List.getElem?_zip_eq_some.mp links.symm
  rw [childList, parent?, children, parents]
  exact ⟨rfl, rfl⟩

theorem hasSingleParents_tableOf : (arena.tableOf root).HasSingleParents := by
  constructor
  case inside =>
    intro row member child listed
    obtain ⟨place, found⟩ := List.mem_iff_getElem?.mp member
    rw [← (consistent.links_tableOf found).1] at listed
    rw [consistent.length_tableOf]
    exact (consistent.childInside place child listed).exists_place
  case once =>
    intro row member
    obtain ⟨place, found⟩ := List.mem_iff_getElem?.mp member
    rw [← (consistent.links_tableOf found).1, childList]
    cases among : arena.children[place]? with
    | none => exact List.nodup_nil
    | some children =>
        exact (List.nodup_flatten.mp consistent.once).1 children (List.mem_of_getElem? among)
  case recorded =>
    rintro outer inner row ⟨above, atOuter, listed⟩ atInner
    rw [← (consistent.links_tableOf atOuter).1, consistent.linked,
      (consistent.links_tableOf atInner).2] at listed
    exact listed

end IsConsistent

/-- In whatever order an arena is built, circles of links included: if it can be frozen with a
root, then from every node below the root, the root included, both traversals end. They list what
is below the node by recursion, which is what can be reached from it, each node once. -/
theorem isTraversed_of_freeze (built : Leads {} arena) {form : TreeForm} {root : Int}
    (frozen : arena.freeze form root = .ok table) :
    ∃ top : Nat, root = top ∧ table.root = top ∧
      ∀ start, Relation.ReflTransGen table.IsChild top start →
        ∃ subtree, table.IsTraversed start subtree := by
  have consistent := (built.follows isConsistent_empty).consistent
  obtain ⟨whole, ⟨low, high⟩, ⟨row, found, free⟩, _⟩ := freeze_eq_ok frozen
  have single : table.HasSingleParents := by
    rw [whole]
    exact consistent.hasSingleParents_tableOf
  obtain ⟨top, rfl⟩ := Int.eq_ofNat_of_zero_le low
  have inside : top < table.rows.length := Int.ofNat_lt.mp high
  have atTop := List.getElem?_eq_getElem inside
  have parentless (outer : Nat) : ¬table.IsChild outer top := by
    intro child
    cases found.symm.trans (row?_of_getElem? atTop)
    rw [single.recorded outer top _ child atTop] at free
    cases free
  refine ⟨top, rfl, by rw [whole], fun start reached => ?_⟩
  exact single.exists_isTraversed parentless inside reached

/-- Two nodes in a circle, and a tree with one that could not get all the children it was to
have. -/
def grove : Arena :=
  [.add (drafted .mul) [], .add (drafted .add) [0], .appendChild 0 1, .add (drafted .sub) [],
    .add (drafted .shl) [2, 0], .add (drafted .add) [], .add (drafted .mul) [3, 4]].foldl
    (fun arena call => Call.effect call arena) {}

/-- The last node is above the fourth and the fifth, and the fourth above the third. -/
theorem isTraversed_grove :
    Leads {} grove ∧ grove.freeze .nary 5 = .ok (grove.tableOf 5) ∧
      (grove.tableOf 5).preorder 5 = .ok [5, 3, 2, 4] ∧
      (grove.tableOf 5).postorder 5 = .ok [2, 3, 4, 5] ∧
      (grove.tableOf 5).preorder 3 = .ok [3, 2] ∧
      ((grove.tableOf 5).preorder 0).isOk = false ∧
      ∃ top : Nat, (5 : Int) = top ∧ (grove.tableOf 5).root = top ∧
        ∀ start, Relation.ReflTransGen (grove.tableOf 5).IsChild top start →
          ∃ subtree, (grove.tableOf 5).IsTraversed start subtree := by
  have first := Leads.call (.add (drafted .mul) []) (.refl {}) (List.forall_mem_nil _)
  have second := Leads.call (.add (drafted .add) [0]) first
    (List.forall_mem_singleton.mpr (by decide))
  have third := Leads.call (.appendChild 0 1) second
    ⟨⟨by decide, by decide⟩, by decide, by decide⟩
  have fourth := Leads.call (.add (drafted .sub) []) third (List.forall_mem_nil _)
  have failed := Leads.call (.add (drafted .shl) [2, 0]) fourth
    (by simp only [Call.IsInRange]; decide)
  have leaf := Leads.call (.add (drafted .add) []) failed (List.forall_mem_nil _)
  have built : Leads {} grove :=
    .call (.add (drafted .mul) [3, 4]) leaf (by simp only [Call.IsInRange]; decide)
  have frozen : grove.freeze .nary 5 = .ok (grove.tableOf 5) := rfl
  exact ⟨built, frozen, rfl, rfl, rfl, rfl, isTraversed_of_freeze built frozen⟩

end Arena

end KernelFootprint
