import KernelFootprint.Proofs.Traversal
import Mathlib.Data.List.Count
import Mathlib.Data.List.Nodup
import Mathlib.Logic.Relation

/-!
# Links between the nodes of a table

A table records a link twice, with the parent and with the child. In a linked table the
nodes are numbered by their places, both records agree, and every node but the root has
a parent that is nearer to the root. Such a table is a rooted tree: each link is recorded
once on either side, every node can be reached from the root, and the way up from a node
ends there.
-/

namespace KernelFootprint

theorem nodup_numbersFrom (first count : Nat) : (numbersFrom first count).Nodup :=
  List.Nodup.map (fun _ _ => Int.ofNat.inj) List.nodup_range'

theorem mem_numbersFrom {first count : Nat} {number : Int} :
    number ∈ numbersFrom first count ↔ (first : Int) ≤ number ∧ number < first + count := by
  simp only [numbersFrom, List.mem_map, List.mem_range'_1]
  constructor
  · rintro ⟨value, bounds, rfl⟩
    exact ⟨Int.ofNat_le.mpr bounds.1, Int.ofNat_lt.mpr bounds.2⟩
  · rintro ⟨least, below⟩
    exact ⟨number.toNat, ⟨by omega, by omega⟩, Int.toNat_of_nonneg (by omega)⟩

theorem getElem?_numbersFrom {first count place : Nat} {number : Int}
    (found : (numbersFrom first count)[place]? = some number) :
    number = ((first + place : Nat) : Int) := by
  rw [numbersFrom, List.getElem?_map, Option.map_eq_some_iff] at found
  obtain ⟨value, listed, rfl⟩ := found
  obtain ⟨_, rfl⟩ := List.getElem?_eq_some_iff.mp listed
  simp

namespace NodeTable

/-- The links recorded with the parents. A link is a pair of a parent and a child. -/
def childLinks (rows : List NodeRow) : List (Int × Int) :=
  rows.flatMap (fun row => row.children.map (row.index, ·))

/-- The links recorded with the children. -/
def parentLinks (rows : List NodeRow) : List (Int × Int) :=
  rows.flatMap (fun row => (row.parent.map (·, row.index)).toList)

/-- Whether every row has the number of its place. -/
def IsNumbered (rows : List NodeRow) : Prop :=
  rows.map NodeRow.index = numbersFrom 0 rows.length

structure IsLinked (table : NodeTable) : Prop where
  numbered : IsNumbered table.rows
  linked : (parentLinks table.rows).Perm (childLinks table.rows)
  root : ∃ row ∈ table.rows, row.index = table.root ∧ row.parent = none
  nearer : ∃ depth : Int → Nat, ∀ row ∈ table.rows, depth row.index < table.rows.length ∧
    (row.index = table.root ∨
      ∃ parent, row.parent = some parent ∧ depth parent < depth row.index)

def IsChild (table : NodeTable) (outer inner : Nat) : Prop :=
  ∃ row, table.rows[outer]? = some row ∧ (inner : Int) ∈ row.children

/-- Whether a table is a tree whose root is reached from every node on the way up, and from
which every node is reached on the way down. -/
structure IsRooted (table : NodeTable) : Prop where
  numbered : ∀ (place : Nat) (row : NodeRow), table.rows[place]? = some row → row.index = place
  root : ∃ (place : Nat) (row : NodeRow), table.root = place ∧
    table.rows[place]? = some row ∧ row.parent = none ∧
      ∀ other < table.rows.length, Relation.ReflTransGen table.IsChild place other
  childrenInside : ∀ row ∈ table.rows, ∀ child ∈ row.children,
    ∃ place : Nat, child = place ∧ place < table.rows.length
  parentInside : ∀ row ∈ table.rows, ∀ parent, row.parent = some parent →
    ∃ place : Nat, parent = place ∧ place < table.rows.length
  links : ∀ (outer inner : Nat) (outerRow innerRow : NodeRow),
    table.rows[outer]? = some outerRow → table.rows[inner]? = some innerRow →
      outerRow.children.count (inner : Int) =
        if innerRow.parent = some (outer : Int) then 1 else 0
  ancestors : ∀ place < table.rows.length, ∃ links, table.ancestors place = .ok links ∧
    links.length < table.rows.length ∧
      ((place : Int) :: links.map Prod.snd).getLast? = some table.root

theorem IsNumbered.index_eq {rows : List NodeRow} (numbered : IsNumbered rows) {place : Nat}
    {row : NodeRow} (found : rows[place]? = some row) : row.index = place := by
  have listed : (rows.map NodeRow.index)[place]? = some row.index := by
    rw [List.getElem?_map, found]
    rfl
  rw [numbered] at listed
  rw [getElem?_numbersFrom listed, Nat.zero_add]

theorem IsNumbered.distinct {rows : List NodeRow} (numbered : IsNumbered rows) :
    (rows.map NodeRow.index).Nodup := by
  rw [numbered]
  exact nodup_numbersFrom 0 rows.length

/-- A row stands at the place that is its number. -/
theorem IsNumbered.exists_place {rows : List NodeRow} (numbered : IsNumbered rows)
    {row : NodeRow} (member : row ∈ rows) :
    ∃ place : Nat, rows[place]? = some row ∧ row.index = place ∧ place < rows.length := by
  obtain ⟨place, found⟩ := List.mem_iff_getElem?.mp member
  exact ⟨place, found, numbered.index_eq found, (List.getElem?_eq_some_iff.mp found).1⟩

/-- Where every link belongs to one row, its records are found with that row. -/
theorem count_flatMap (linksOf : NodeRow → List (Int × Int)) (owner : Int × Int → Int)
    (owned : ∀ row, ∀ link ∈ linksOf row, owner link = row.index) {rows : List NodeRow}
    (distinct : (rows.map NodeRow.index).Nodup) {row : NodeRow} (member : row ∈ rows)
    {link : Int × Int} (own : owner link = row.index) :
    (rows.flatMap linksOf).count link = (linksOf row).count link := by
  induction rows with
  | nil => cases member
  | cons first rest ih =>
      obtain ⟨fresh, distinct⟩ := List.nodup_cons.mp distinct
      rw [List.flatMap_cons, List.count_append]
      rcases List.mem_cons.mp member with rfl | inRest
      · have absent : link ∉ rest.flatMap linksOf := by
          intro listed
          obtain ⟨other, otherMember, inside⟩ := List.mem_flatMap.mp listed
          refine fresh (List.mem_map.mpr ⟨other, otherMember, ?_⟩)
          rw [← own, owned other link inside]
        rw [List.count_eq_zero.mpr absent, Nat.add_zero]
      · have absent : link ∉ linksOf first := by
          intro inside
          refine fresh (List.mem_map.mpr ⟨row, inRest, ?_⟩)
          rw [← own, owned first link inside]
        rw [List.count_eq_zero.mpr absent, Nat.zero_add, ih distinct inRest]

theorem count_childLinks {rows : List NodeRow} (distinct : (rows.map NodeRow.index).Nodup)
    {row : NodeRow} (member : row ∈ rows) (child : Int) :
    (childLinks rows).count (row.index, child) = row.children.count child := by
  rw [childLinks, count_flatMap _ Prod.fst ?_ distinct member rfl]
  · exact List.count_map_of_injective _ _ (fun _ _ same => (Prod.mk.inj same).2) child
  · intro other link listed
    obtain ⟨_, _, rfl⟩ := List.mem_map.mp listed
    rfl

theorem count_parentLinks {rows : List NodeRow} (distinct : (rows.map NodeRow.index).Nodup)
    {row : NodeRow} (member : row ∈ rows) (parent : Int) :
    (parentLinks rows).count (parent, row.index) = if row.parent = some parent then 1 else 0 := by
  rw [parentLinks, count_flatMap _ Prod.snd ?_ distinct member rfl]
  · cases row.parent with
    | none => rfl
    | some found => simp [List.count_singleton]
  · intro other link listed
    cases above : other.parent with
    | none => simp [above] at listed
    | some found =>
        have same : link = (found, other.index) := by simpa [above] using listed
        rw [same]

theorem mem_childLinks {rows : List NodeRow} {outer inner : Int} :
    (outer, inner) ∈ childLinks rows ↔
      ∃ row ∈ rows, row.index = outer ∧ inner ∈ row.children := by
  simp only [childLinks, List.mem_flatMap, List.mem_map, Prod.mk.injEq]
  constructor
  · rintro ⟨row, member, child, inside, rfl, rfl⟩
    exact ⟨row, member, rfl, inside⟩
  · rintro ⟨row, member, rfl, inside⟩
    exact ⟨row, member, inner, inside, rfl, rfl⟩

theorem mem_parentLinks {rows : List NodeRow} {outer inner : Int} :
    (outer, inner) ∈ parentLinks rows ↔
      ∃ row ∈ rows, row.index = inner ∧ row.parent = some outer := by
  simp only [parentLinks, List.mem_flatMap, Option.mem_toList,
    Option.map_eq_some_iff, Prod.mk.injEq]
  constructor
  · rintro ⟨row, member, parent, above, rfl, rfl⟩
    exact ⟨row, member, rfl, above⟩
  · rintro ⟨row, member, rfl, above⟩
    exact ⟨row, member, outer, above, rfl, rfl⟩

theorem row?_of_getElem? {table : NodeTable} {place : Nat} {row : NodeRow}
    (found : table.rows[place]? = some row) : table.row? place = .ok row := by
  have inside : place < table.rows.length := (List.getElem?_eq_some_iff.mp found).1
  rw [row?, position?_natCast inside, Option.bind_some, found]

theorem ancestorsWithin_of_parentless {table : NodeTable} {index : Int} {row : NodeRow}
    (found : table.row? index = .ok row) (parentless : row.parent = none) (steps : Nat) :
    table.ancestorsWithin (steps + 1) index = .ok [] := by
  simp only [ancestorsWithin, found, parentless, bind, Except.bind]
  rfl

theorem ancestorsWithin_of_parent {table : NodeTable} {index parent : Int} {row : NodeRow}
    (found : table.row? index = .ok row) (above : row.parent = some parent) {steps : Nat}
    {links : List (Int × Int)} (climbed : table.ancestorsWithin steps parent = .ok links) :
    table.ancestorsWithin (steps + 1) index = .ok ((index, parent) :: links) := by
  simp only [ancestorsWithin, found, above, climbed, bind, Except.bind]
  rfl

namespace IsLinked

variable {table : NodeTable}

theorem row?_index (linked : table.IsLinked) {row : NodeRow} (member : row ∈ table.rows) :
    table.row? row.index = .ok row := by
  obtain ⟨place, found, index, _⟩ := linked.numbered.exists_place member
  rw [index]
  exact row?_of_getElem? found

theorem count_children (linked : table.IsLinked) {outer inner : NodeRow}
    (outerMember : outer ∈ table.rows) (innerMember : inner ∈ table.rows) :
    outer.children.count inner.index = if inner.parent = some outer.index then 1 else 0 := by
  rw [← count_childLinks linked.numbered.distinct outerMember,
    ← count_parentLinks linked.numbered.distinct innerMember]
  exact (linked.linked.count_eq _).symm

theorem exists_child (linked : table.IsLinked) {row : NodeRow} (member : row ∈ table.rows)
    {child : Int} (inside : child ∈ row.children) :
    ∃ other ∈ table.rows, other.index = child ∧ other.parent = some row.index :=
  mem_parentLinks.mp (linked.linked.mem_iff.mpr (mem_childLinks.mpr ⟨row, member, rfl, inside⟩))

theorem exists_parent (linked : table.IsLinked) {row : NodeRow} (member : row ∈ table.rows)
    {parent : Int} (above : row.parent = some parent) :
    ∃ other ∈ table.rows, other.index = parent ∧ row.index ∈ other.children :=
  mem_childLinks.mp (linked.linked.mem_iff.mp (mem_parentLinks.mpr ⟨row, member, rfl, above⟩))

/-- The way up from a node is no longer than the node is deep. -/
theorem ancestorsWithin_eq (linked : table.IsLinked) {depth : Int → Nat}
    (nearer : ∀ row ∈ table.rows, row.index = table.root ∨
      ∃ parent, row.parent = some parent ∧ depth parent < depth row.index)
    {row : NodeRow} (member : row ∈ table.rows) {steps : Nat} (enough : depth row.index < steps) :
    ∃ links, table.ancestorsWithin steps row.index = .ok links ∧
      links.length ≤ depth row.index ∧
        (row.index :: links.map Prod.snd).getLast? = some table.root := by
  induction steps generalizing row with
  | zero => cases enough
  | succ steps ih =>
      have found := linked.row?_index member
      cases above : row.parent with
      | none =>
          refine ⟨[], ancestorsWithin_of_parentless found above steps, Nat.zero_le _, ?_⟩
          rcases nearer row member with isRoot | ⟨parent, other, _⟩
          · rw [isRoot]
            rfl
          · cases above.symm.trans other
      | some parent =>
          obtain ⟨other, otherMember, rfl, inside⟩ := linked.exists_parent member above
          rcases nearer row member with isRoot | ⟨_, same, closer⟩
          · obtain ⟨rootRow, rootMember, rootIndex, parentless⟩ := linked.root
            have same := linked.row?_index rootMember
            rw [rootIndex, ← isRoot, found] at same
            cases same
            cases above.symm.trans parentless
          · cases above.symm.trans same
            obtain ⟨links, climbed, short, ends⟩ :=
              ih otherMember (Nat.lt_of_lt_of_le closer (Nat.le_of_lt_succ enough))
            refine ⟨(row.index, other.index) :: links,
              ancestorsWithin_of_parent found above climbed, ?_, ?_⟩
            · exact Nat.le_trans (Nat.succ_le_succ short) closer
            · rw [List.map_cons, List.getLast?_cons_cons]
              exact ends

theorem reachable (linked : table.IsLinked) {depth : Int → Nat}
    (nearer : ∀ row ∈ table.rows, row.index = table.root ∨
      ∃ parent, row.parent = some parent ∧ depth parent < depth row.index)
    {root : Nat} (isRoot : table.root = root) {row : NodeRow} (member : row ∈ table.rows)
    {place : Nat} (index : row.index = place) :
    Relation.ReflTransGen table.IsChild root place := by
  induction deep : depth row.index using Nat.strongRecOn generalizing row place with
  | ind total ih =>
      subst deep
      rcases nearer row member with atRoot | ⟨parent, above, closer⟩
      · have same : root = place := Int.ofNat.inj (isRoot.symm.trans (atRoot.symm.trans index))
        rw [same]
      · obtain ⟨other, otherMember, rfl, inside⟩ := linked.exists_parent member above
        obtain ⟨otherPlace, found, otherIndex, _⟩ := linked.numbered.exists_place otherMember
        have reached := ih _ closer otherMember otherIndex rfl
        rw [index] at inside
        exact reached.tail ⟨other, found, inside⟩

/-- A linked table is a rooted tree. -/
theorem isRooted (linked : table.IsLinked) : table.IsRooted where
  numbered _ _ found := linked.numbered.index_eq found
  root := by
    obtain ⟨row, member, isRoot, parentless⟩ := linked.root
    obtain ⟨place, found, index, _⟩ := linked.numbered.exists_place member
    obtain ⟨depth, nearer⟩ := linked.nearer
    refine ⟨place, row, isRoot.symm.trans index, found, parentless, ?_⟩
    intro other inside
    have listed := List.getElem?_eq_getElem inside
    exact linked.reachable (fun row member => (nearer row member).2) (isRoot.symm.trans index)
      (List.mem_of_getElem? listed) (linked.numbered.index_eq listed)
  childrenInside row member child inside := by
    obtain ⟨other, otherMember, rfl, _⟩ := linked.exists_child member inside
    obtain ⟨place, _, index, bounded⟩ := linked.numbered.exists_place otherMember
    exact ⟨place, index, bounded⟩
  parentInside row member parent above := by
    obtain ⟨other, otherMember, rfl, _⟩ := linked.exists_parent member above
    obtain ⟨place, _, index, bounded⟩ := linked.numbered.exists_place otherMember
    exact ⟨place, index, bounded⟩
  links outer inner outerRow innerRow outerFound innerFound := by
    rw [← linked.numbered.index_eq outerFound, ← linked.numbered.index_eq innerFound]
    exact linked.count_children (List.mem_of_getElem? outerFound)
      (List.mem_of_getElem? innerFound)
  ancestors place inside := by
    obtain ⟨depth, nearer⟩ := linked.nearer
    have found := List.getElem?_eq_getElem inside
    have member := List.mem_of_getElem? found
    have short := (nearer _ member).1
    obtain ⟨links, climbed, bounded, ends⟩ :=
      linked.ancestorsWithin_eq (fun row member => (nearer row member).2) member
        (Nat.lt_succ_of_lt short)
    rw [linked.numbered.index_eq found] at climbed ends
    exact ⟨links, climbed, Nat.lt_of_le_of_lt bounded short, ends⟩

end IsLinked

end NodeTable

end KernelFootprint
