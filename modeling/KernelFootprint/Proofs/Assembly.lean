import KernelFootprint.Proofs.TreeTables

/-!
# Operations on copies of trees

A table is copied into an arena by adding its nodes without links and then linking them
one by one. What the links made so far have done to the copies is known at every step, and
after the last one the copies are the rows of the table moved to their new numbers. Hence
an operation on two linked tables holds both of them, moved below one new root, and is
linked as they are.
-/

namespace KernelFootprint

namespace NodeRow

/-- A row whose number and links are moved. A node without a parent gets the one above. -/
def moved (offset : Int) (above : Option Int) (row : NodeRow) : NodeRow :=
  { row with
    index := row.index + offset
    children := row.children.map (· + offset)
    parent := (row.parent.map (· + offset)).or above }

/-- A copy of a row for which only some links have been made yet. -/
def linkedBy (offset : Int) (links : List (Int × Int)) (row : NodeRow) : NodeRow :=
  { row with
    index := row.index + offset
    children := (links.filter (·.1 == row.index)).map (·.2 + offset)
    parent := (links.find? (·.2 == row.index)).map (·.1 + offset) }

def withChild (child : Int) (row : NodeRow) : NodeRow :=
  { row with children := row.children ++ [child] }

def withParent (parent : Int) (row : NodeRow) : NodeRow :=
  { row with parent := some parent }

theorem draftOf_withChild (child : Int) (row : NodeRow) :
    Arena.draftOf (row.withChild child) = Arena.draftOf row := rfl

theorem children_withChild (child : Int) (row : NodeRow) :
    (row.withChild child).children = row.children ++ [child] := rfl

theorem parent_withChild (child : Int) (row : NodeRow) :
    (row.withChild child).parent = row.parent := rfl

theorem draftOf_withParent (parent : Int) (row : NodeRow) :
    Arena.draftOf (row.withParent parent) = Arena.draftOf row := rfl

theorem children_withParent (parent : Int) (row : NodeRow) :
    (row.withParent parent).children = row.children := rfl

theorem parent_withParent (parent : Int) (row : NodeRow) :
    (row.withParent parent).parent = some parent := rfl

theorem find?_eq_none {links : List (Int × Int)} {child : Int}
    (free : child ∉ links.map Prod.snd) : links.find? (·.2 == child) = none := by
  rw [List.find?_eq_none]
  intro link member same
  exact free (List.mem_map.mpr ⟨link, member, eq_of_beq same⟩)

/-- One more link is recorded in the copies of its parent and its child. -/
theorem linkedBy_concat (offset : Int) {links : List (Int × Int)} {parent child : Int}
    (free : child ∉ links.map Prod.snd) (row : NodeRow) :
    row.linkedBy offset (links ++ [(parent, child)]) =
      let copy := row.linkedBy offset links
      let copy := if row.index = parent then copy.withChild (child + offset) else copy
      if row.index = child then copy.withParent (parent + offset) else copy := by
  have children : (row.linkedBy offset (links ++ [(parent, child)])).children =
      if row.index = parent then (row.linkedBy offset links).children ++ [child + offset]
        else (row.linkedBy offset links).children := by
    by_cases isParent : row.index = parent
    · simp [linkedBy, isParent]
    · simp [linkedBy, isParent, Ne.symm isParent]
  have above : (row.linkedBy offset (links ++ [(parent, child)])).parent =
      if row.index = child then some (parent + offset) else (row.linkedBy offset links).parent := by
    by_cases isChild : row.index = child
    · subst isChild
      simp [linkedBy, find?_eq_none free]
    · simp [linkedBy, isChild, Ne.symm isChild]
  have shape : row.linkedBy offset (links ++ [(parent, child)]) =
      { row.linkedBy offset links with
        children := (row.linkedBy offset (links ++ [(parent, child)])).children
        parent := (row.linkedBy offset (links ++ [(parent, child)])).parent } := rfl
  rw [shape, children, above]
  split_ifs <;> rfl

end NodeRow

theorem map_modify {First Second : Type} {view : First → Second} {change : First → First}
    (changeView : Second → Second)
    (seen : ∀ element, view (change element) = changeView (view element))
    (elements : List First) (place : Nat) :
    (elements.modify place change).map view = (elements.map view).modify place changeView := by
  induction elements generalizing place with
  | nil => simp
  | cons first rest ih =>
      cases place with
      | zero => simp [seen]
      | succ place => simp [ih]

theorem map_modify_unseen {First Second : Type} {view : First → Second} {change : First → First}
    (unseen : ∀ element, view (change element) = view element)
    (elements : List First) (place : Nat) :
    (elements.modify place change).map view = elements.map view := by
  rw [map_modify id unseen, List.modify_id]

theorem modify_append_right {Element : Type} (before after : List Element) (place : Nat)
    (change : Element → Element) :
    (before ++ after).modify (before.length + place) change = before ++ after.modify place change :=
  List.modifyTailIdx_add (List.modifyHead change) place before after

theorem modify_append_left {Element : Type} {before : List Element} (after : List Element)
    {place : Nat} (inside : place < before.length) (change : Element → Element) :
    (before ++ after).modify place change = before.modify place change ++ after := by
  induction before generalizing place with
  | nil => cases inside
  | cons first rest ih =>
      cases place with
      | zero => rfl
      | succ place =>
          simp only [List.cons_append, List.modify_succ_cons]
          rw [ih (Nat.lt_of_succ_lt_succ inside)]

namespace NodeTable

/-- A change at one place of numbered rows is a change of the row with its number. -/
theorem modify_map {rows : List NodeRow} (numbered : IsNumbered rows) (view : NodeRow → NodeRow)
    (change : NodeRow → NodeRow) (place : Nat) :
    (rows.map view).modify place change =
      rows.map (fun row =>
        if row.index = (place : Int) then change (view row) else view row) := by
  refine List.ext_getElem? (fun other => ?_)
  rw [List.getElem?_modify, List.getElem?_map, List.getElem?_map]
  cases found : rows[other]? with
  | none => rfl
  | some row =>
      simp only [Option.map_some, Option.map_eq_map, numbered.index_eq found, Int.ofNat_inj,
        eq_comm (a := place)]

end NodeTable

namespace Arena

open NodeTable

variable {First Second : Type} {arena middle after : Arena}

/-- Whether building succeeds, with which result and what then is in the arena. -/
def Builds (building : Building First) (arena : Arena) (result : First) (after : Arena) : Prop :=
  building.run.run arena = (.ok result, after)

theorem Builds.pure (result : First) (arena : Arena) :
    Builds (Pure.pure result) arena result arena := rfl

theorem Builds.bind {building : Building First} {next : First → Building Second} {value : First}
    {result : Second} (first : Builds building arena value middle)
    (second : Builds (next value) middle result after) :
    Builds (building >>= next) arena result after := by
  unfold Builds at first second ⊢
  rw [ExceptT.run_bind, StateT.run_bind]
  change (match building.run.run arena with | (value, after) => _) = _
  rw [first]
  exact second

theorem builds_get (arena : Arena) : Builds get arena arena arena := rfl

theorem builds_modify (change : Arena → Arena) (arena : Arena) :
    Builds (modify change) arena () (change arena) := rfl

theorem builds_apply {change : Arena → Except Fault Arena} (changed : change arena = .ok after) :
    Builds (apply change) arena () after := by
  refine (builds_get arena).bind ?_
  rw [changed]
  rfl

theorem build_of_builds {building : Building Int} {root : Int} (form : TreeForm)
    (built : Builds building {} root arena) : build form building = arena.freeze form root := by
  rw [build, built]

/-- The arena with the data and the links of some rows. -/
def holding (rows : List NodeRow) : Arena :=
  ⟨rows.map draftOf, rows.map NodeRow.children, rows.map NodeRow.parent⟩

theorem size_holding (rows : List NodeRow) : (holding rows).size = rows.length :=
  List.length_map _

theorem append_holding (rows : List NodeRow) (row : NodeRow) (childless : row.children = [])
    (parentless : row.parent = none) :
    (holding rows).append (draftOf row) = holding (rows ++ [row]) := by
  simp [holding, append, childless, parentless]

theorem element_map {Element : Type} {rows : List NodeRow} (view : NodeRow → Element)
    {place : Nat} {row : NodeRow} (found : rows[place]? = some row) :
    element (rows.map view) place = .ok (view row) := by
  have inside : place < (rows.map view).length := by
    rw [List.length_map]
    exact (List.getElem?_eq_some_iff.mp found).1
  rw [element, position?_natCast inside, Option.bind_some, List.getElem?_map, found]
  rfl

theorem update_eq {Element : Type} {elements : List Element} {place : Nat}
    (inside : place < elements.length) (change : Element → Element) :
    update elements place change = .ok (elements.modify place change) := by
  rw [update, position?_natCast inside]

/-- A link is recorded with the parent and with the child. -/
theorem attach_holding {rows : List NodeRow} {parent child : Nat} {row : NodeRow}
    (inside : parent < rows.length) (found : rows[child]? = some row) (free : row.parent = none) :
    (holding rows).attach parent child =
      .ok (holding ((rows.modify parent (NodeRow.withChild child)).modify child
        (NodeRow.withParent parent))) := by
  have childInside : child < rows.length := (List.getElem?_eq_some_iff.mp found).1
  have onChildren : update (rows.map NodeRow.children) parent (· ++ [(child : Int)]) = .ok _ :=
    update_eq (by rwa [List.length_map]) _
  have onParents : update (rows.map NodeRow.parent) child (fun _ => some (parent : Int)) = .ok _ :=
    update_eq (by rwa [List.length_map]) _
  rw [attach]
  simp only [holding, element_map NodeRow.parent found, free, onChildren, onParents]
  rw [map_modify_unseen (NodeRow.draftOf_withParent parent),
    map_modify_unseen (NodeRow.draftOf_withChild child),
    map_modify_unseen (NodeRow.children_withParent parent),
    map_modify (· ++ [(child : Int)]) (NodeRow.children_withChild child),
    map_modify (fun _ => some (parent : Int)) (NodeRow.parent_withParent parent),
    map_modify_unseen (NodeRow.parent_withChild child)]
  rfl

/-- The copies of numbered rows after some links, behind other rows. -/
def copying (before rows : List NodeRow) (links : List (Int × Int)) : Arena :=
  holding (before ++ rows.map (NodeRow.linkedBy before.length links))

variable (before : List NodeRow) {rows : List NodeRow} (links : List (Int × Int))

/-- The copy of a node that no link leads to yet can be linked. -/
theorem builds_appendChild (numbered : IsNumbered rows) {outer inner : NodeRow}
    (outerMember : outer ∈ rows) (innerMember : inner ∈ rows)
    {links : List (Int × Int)}
    (free : inner.index ∉ links.map Prod.snd) :
    Builds (appendChild (outer.index + before.length) (inner.index + before.length))
      (copying before rows links) ()
      (copying before rows (links ++ [(outer.index, inner.index)])) := by
  obtain ⟨parent, _, parentIndex, parentInside⟩ := numbered.exists_place outerMember
  obtain ⟨child, found, childIndex, childInside⟩ := numbered.exists_place innerMember
  have placed :
      (before ++ rows.map (NodeRow.linkedBy before.length links))[before.length + child]? =
        some (inner.linkedBy before.length links) := by
    rw [List.getElem?_append_right (Nat.le_add_right _ _), Nat.add_sub_cancel_left,
      List.getElem?_map, found]
    rfl
  have parentless : (inner.linkedBy before.length links).parent = none := by
    rw [NodeRow.linkedBy, NodeRow.find?_eq_none free]
    rfl
  refine builds_apply ?_
  rw [parentIndex, childIndex, Int.add_comm (parent : Int), Int.add_comm (child : Int),
    ← Int.natCast_add, ← Int.natCast_add, copying,
    attach_holding (by rw [List.length_append, List.length_map]; omega) placed parentless,
    modify_append_right, modify_append_right, copying, modify_map numbered, modify_map numbered]
  refine congrArg (fun copies => Except.ok (holding (before ++ copies))) (List.map_congr_left ?_)
  intro row _
  rw [childIndex] at free
  rw [NodeRow.linkedBy_concat _ free, Int.natCast_add, Int.natCast_add,
    Int.add_comm (before.length : Int), Int.add_comm (before.length : Int)]

theorem builds_attachAll (numbered : IsNumbered rows) {outer : NodeRow}
    (outerMember : outer ∈ rows) {children : List Int}
    (inside : ∀ child ∈ children, ∃ inner ∈ rows, inner.index = child)
    (free : (links.map Prod.snd ++ children).Nodup) :
    Builds (attachAll (outer.index + before.length) (children.map (· + (before.length : Int))))
      (copying before rows links) ()
      (copying before rows (links ++ children.map (outer.index, ·))) := by
  induction children generalizing links with
  | nil =>
      rw [List.map_nil, List.map_nil, List.append_nil]
      exact Builds.pure () _
  | cons child rest ih =>
      obtain ⟨⟨inner, innerMember, rfl⟩, others⟩ := List.forall_mem_cons.mp inside
      have unlinked : inner.index ∉ links.map Prod.snd := by
        intro listed
        exact (List.nodup_append.mp free).2.2 _ listed _ List.mem_cons_self rfl
      refine (builds_appendChild before numbered outerMember innerMember unlinked).bind ?_
      have further := ih (links ++ [(outer.index, inner.index)]) others (by simpa using free)
      rwa [List.append_assoc] at further

theorem builds_attachRows (numbered : IsNumbered rows) {rest : List NodeRow} (subset : rest ⊆ rows)
    (inside : ∀ link ∈ childLinks rest, ∃ inner ∈ rows, inner.index = link.2)
    (free : ((links ++ childLinks rest).map Prod.snd).Nodup) :
    Builds (attachRows before.length rest) (copying before rows links) ()
      (copying before rows (links ++ childLinks rest)) := by
  induction rest generalizing links with
  | nil =>
      rw [childLinks, List.flatMap_nil, List.append_nil]
      exact Builds.pure () _
  | cons row rest ih =>
      obtain ⟨member, others⟩ := List.cons_subset.mp subset
      rw [childLinks_cons] at inside free ⊢
      have children : (row.children.map (row.index, ·)).map Prod.snd = row.children := by
        simp [Function.comp_def]
      rw [← List.append_assoc] at free ⊢
      refine (builds_attachAll before links numbered member ?_ ?_).bind (ih _ others ?_ free)
      · intro child listed
        exact inside _ (List.mem_append_left _ (List.mem_map_of_mem listed))
      · rw [List.map_append, List.map_append, children] at free
        exact (List.nodup_append.mp free).1
      · intro link listed
        exact inside link (List.mem_append_right _ listed)

theorem foldl_append (rows : List NodeRow) (arena : Arena) :
    rows.foldl (fun arena row => arena.append (draftOf row)) arena =
      { drafts := arena.drafts ++ rows.map draftOf
        children := arena.children ++ rows.map (fun _ => [])
        parents := arena.parents ++ rows.map (fun _ => none) } := by
  induction rows generalizing arena with
  | nil => simp
  | cons row rest ih =>
      rw [List.foldl_cons, ih]
      simp [append]

theorem copying_nil (before rows : List NodeRow) :
    rows.foldl (fun arena row => arena.append (draftOf row)) (holding before) =
      copying before rows [] := by
  rw [foldl_append, copying, holding, holding]
  simp [NodeRow.linkedBy, draftOf, Function.comp_def]

end Arena

namespace NodeTable

theorem filter_childLinks {rows : List NodeRow} (distinct : (rows.map NodeRow.index).Nodup)
    {row : NodeRow} (member : row ∈ rows) :
    (childLinks rows).filter (·.1 == row.index) = row.children.map (row.index, ·) := by
  have others {rest : List NodeRow} (absent : row.index ∉ rest.map NodeRow.index) :
      (childLinks rest).filter (·.1 == row.index) = [] := by
    rw [List.filter_eq_nil_iff]
    rintro ⟨outer, inner⟩ listed same
    obtain ⟨other, otherMember, index, _⟩ := mem_childLinks.mp listed
    exact absent (List.mem_map.mpr ⟨other, otherMember, index.trans (eq_of_beq same)⟩)
  induction rows with
  | nil => cases member
  | cons first rest ih =>
      obtain ⟨fresh, distinct⟩ := List.nodup_cons.mp distinct
      rw [childLinks_cons, List.filter_append]
      rcases List.mem_cons.mp member with rfl | inRest
      · rw [others fresh]
        simp
      · have differ : first.index ≠ row.index := fun same =>
          fresh (List.mem_map.mpr ⟨row, inRest, same.symm⟩)
        rw [ih distinct inRest]
        simp [differ]

theorem map_snd_parentLinks (rows : List NodeRow) :
    ((parentLinks rows).map Prod.snd).Sublist (rows.map NodeRow.index) := by
  induction rows with
  | nil => exact .slnil
  | cons row rest ih =>
      rw [parentLinks_cons]
      cases row.parent with
      | none => exact ih.cons _
      | some outer => exact ih.cons_cons _

namespace IsLinked

variable {table : NodeTable}

theorem eq_of_index_eq (linked : table.IsLinked) {row other : NodeRow} (member : row ∈ table.rows)
    (otherMember : other ∈ table.rows) (same : row.index = other.index) : row = other :=
  List.inj_on_of_nodup_map linked.numbered.distinct member otherMember same

theorem mem_childLinks_iff (linked : table.IsLinked) {row : NodeRow} (member : row ∈ table.rows)
    {outer : Int} : (outer, row.index) ∈ childLinks table.rows ↔ row.parent = some outer := by
  rw [← linked.linked.mem_iff, mem_parentLinks]
  constructor
  · rintro ⟨other, otherMember, same, above⟩
    rwa [← linked.eq_of_index_eq otherMember member same]
  · intro above
    exact ⟨row, member, rfl, above⟩

/-- No node is the child of two nodes, or of one node twice. -/
theorem nodup_children (linked : table.IsLinked) :
    ((childLinks table.rows).map Prod.snd).Nodup := by
  rw [← (linked.linked.map Prod.snd).nodup_iff]
  exact linked.numbered.distinct.sublist (map_snd_parentLinks table.rows)

/-- The one link to a node comes from its parent. -/
theorem find?_childLinks (linked : table.IsLinked) {row : NodeRow} (member : row ∈ table.rows) :
    (childLinks table.rows).find? (·.2 == row.index) = row.parent.map (·, row.index) := by
  cases found : (childLinks table.rows).find? (·.2 == row.index) with
  | none =>
      cases above : row.parent with
      | none => rfl
      | some outer =>
          rw [List.find?_eq_none] at found
          exact absurd (beq_self_eq_true row.index)
            (found _ ((linked.mem_childLinks_iff member).mpr above))
  | some link =>
      obtain ⟨outer, inner⟩ := link
      have same : inner = row.index := by simpa using List.find?_some found
      subst same
      rw [(linked.mem_childLinks_iff member).mp (List.mem_of_find?_eq_some found)]
      rfl

theorem parent_eq_none_iff (linked : table.IsLinked) {row : NodeRow} (member : row ∈ table.rows) :
    row.parent = none ↔ row.index = table.root := by
  obtain ⟨root, rootMember, rootIndex, parentless⟩ := linked.root
  constructor
  · intro unlinked
    obtain ⟨depth, nearer⟩ := linked.nearer
    rcases (nearer row member).2 with isRoot | ⟨outer, above, _⟩
    · exact isRoot
    · cases unlinked.symm.trans above
  · intro isRoot
    rwa [linked.eq_of_index_eq member rootMember (isRoot.trans rootIndex.symm)]

/-- Once all links are made a copy is its row moved. -/
theorem linkedBy_childLinks (linked : table.IsLinked) (offset : Int) {row : NodeRow}
    (member : row ∈ table.rows) :
    row.linkedBy offset (childLinks table.rows) = row.moved offset none := by
  rw [NodeRow.linkedBy, filter_childLinks linked.numbered.distinct member,
    linked.find?_childLinks member, List.map_map, Option.map_map, NodeRow.moved, Option.or_none]
  rfl

end IsLinked

end NodeTable

namespace Arena

open NodeTable

/-- A linked table is copied behind what is in the arena. -/
theorem builds_copyTree {table : NodeTable} (linked : table.IsLinked) (before : List NodeRow) :
    Builds (copyTree table) (holding before) (table.root + before.length)
      (holding (before ++ table.rows.map (NodeRow.moved before.length none))) := by
  have inside : ∀ link ∈ childLinks table.rows, ∃ inner ∈ table.rows, inner.index = link.2 := by
    rintro ⟨outer, inner⟩ listed
    obtain ⟨row, member, index, _⟩ := mem_parentLinks.mp (linked.linked.mem_iff.mpr listed)
    exact ⟨row, member, index⟩
  have attached := builds_attachRows before [] linked.numbered (List.Subset.refl _)
    inside linked.nodup_children
  have complete : copying before table.rows ([] ++ childLinks table.rows) =
      holding (before ++ table.rows.map (NodeRow.moved before.length none)) := by
    rw [copying, List.nil_append]
    refine congrArg (fun copies => holding (before ++ copies)) (List.map_congr_left ?_)
    exact fun row member => linked.linkedBy_childLinks before.length member
  rw [complete, ← copying_nil] at attached
  refine (builds_get _).bind ((builds_modify _ _).bind ?_)
  rw [size_holding]
  exact attached.bind (Builds.pure _ _)

end Arena

end KernelFootprint
