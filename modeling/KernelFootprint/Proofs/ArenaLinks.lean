import KernelFootprint.Proofs.Assembly

/-!
# Links in an arena

An arena records a link twice, in the list of the parent and with the child. Calls of which
some fail keep both records in agreement: a node is in one list of children at most, it is in
that of its parent, and it keeps its parent for good. Nothing here is about trees. Nodes may be
linked in circles, and a node that was added with too many claims on its children stays, with
those before the first that belongs to another node.
-/

namespace KernelFootprint

/-- An element is put at the end of one of several lists. -/
theorem flatten_modify_perm {Element : Type} {lists : List (List Element)} {place : Nat}
    (inside : place < lists.length) (element : Element) :
    (lists.modify place (· ++ [element])).flatten.Perm (element :: lists.flatten) := by
  induction lists generalizing place with
  | nil => cases inside
  | cons first rest ih =>
      cases place with
      | zero =>
          simp only [List.modify_zero_cons, List.flatten_cons, List.append_assoc]
          exact List.perm_middle
      | succ place =>
          have onRest := ih (Nat.lt_of_succ_lt_succ inside)
          simp only [List.modify_succ_cons, List.flatten_cons]
          exact (onRest.append_left first).trans List.perm_middle

namespace Arena

variable {arena middle after : Arena} {parent child place : Nat} {draft : Draft}

/-- Whether a number is that of a node. -/
def Has (arena : Arena) (index : Int) : Prop := 0 ≤ index ∧ index < arena.size

/-- The children recorded with a node. -/
def childList (arena : Arena) (place : Nat) : List Int := (arena.children[place]?).getD []

/-- The parent recorded with a node. -/
def parent? (arena : Arena) (place : Nat) : Option Int := (arena.parents[place]?).join

/-- Both records of the links agree, and there are no links to anything but nodes. -/
structure IsConsistent (arena : Arena) : Prop where
  childLists : arena.children.length = arena.size
  parents : arena.parents.length = arena.size
  once : arena.children.flatten.Nodup
  linked : ∀ parent child : Nat,
    (child : Int) ∈ arena.childList parent ↔ arena.parent? child = some (parent : Int)
  childInside : ∀ place, ∀ child ∈ arena.childList place, arena.Has child
  parentInside : ∀ place parent, arena.parent? place = some parent → arena.Has parent

/-- A consistent arena with the nodes of another one, in which every node has the parent it
had before. -/
structure Follows (arena after : Arena) : Prop where
  consistent : after.IsConsistent
  size_le : arena.size ≤ after.size
  parents : ∀ child parent, arena.parent? child = some parent → after.parent? child = some parent

theorem IsConsistent.follows (consistent : arena.IsConsistent) : arena.Follows arena :=
  ⟨consistent, Nat.le_refl _, fun _ _ same => same⟩

theorem Follows.trans (first : arena.Follows middle) (second : middle.Follows after) :
    arena.Follows after :=
  ⟨second.consistent, Nat.le_trans first.size_le second.size_le,
    fun child parent above => second.parents child parent (first.parents child parent above)⟩

theorem Has.mono {index : Int} (has : arena.Has index) (le : arena.size ≤ after.size) :
    after.Has index := ⟨has.1, by have := has.2; omega⟩

theorem Has.exists_place {index : Int} (has : arena.Has index) :
    ∃ place : Nat, index = place ∧ place < arena.size :=
  ⟨index.toNat, (Int.toNat_of_nonneg has.1).symm, by have := has.1; have := has.2; omega⟩

/-- The arena with one more link. -/
def link (arena : Arena) (parent child : Nat) : Arena :=
  { arena with
    children := arena.children.modify parent (· ++ [(child : Int)])
    parents := arena.parents.modify child (fun _ => some (parent : Int)) }

theorem childList_link (inside : parent < arena.children.length) :
    (arena.link parent child).childList place =
      if place = parent then arena.childList place ++ [(child : Int)]
      else arena.childList place := by
  rw [childList, link, List.getElem?_modify, childList]
  by_cases same : place = parent
  · subst same
    rw [List.getElem?_eq_getElem inside]
    simp
  · simp [same, Ne.symm same]

theorem parent?_link (inside : child < arena.parents.length) :
    (arena.link parent child).parent? place =
      if place = child then some (parent : Int) else arena.parent? place := by
  rw [parent?, link, List.getElem?_modify, parent?]
  by_cases same : place = child
  · subst same
    rw [List.getElem?_eq_getElem inside]
    simp
  · simp [same, Ne.symm same]

theorem childList_append (arena : Arena) (draft : Draft) (place : Nat) :
    (arena.append draft).childList place = arena.childList place := by
  rw [childList, append, childList, List.getElem?_append]
  split
  · rfl
  · next outside =>
      rw [List.getElem?_eq_none (Nat.not_lt.mp outside), List.getElem?_singleton]
      split <;> rfl

theorem parent?_append (arena : Arena) (draft : Draft) (place : Nat) :
    (arena.append draft).parent? place = arena.parent? place := by
  rw [parent?, append, parent?, List.getElem?_append]
  split
  · rfl
  · next outside =>
      rw [List.getElem?_eq_none (Nat.not_lt.mp outside), List.getElem?_singleton]
      split <;> rfl

/-- A node without a parent is in no list of children. -/
theorem IsConsistent.not_mem_flatten (consistent : arena.IsConsistent)
    (free : arena.parent? child = none) : (child : Int) ∉ arena.children.flatten := by
  intro member
  obtain ⟨children, among, inside⟩ := List.mem_flatten.mp member
  obtain ⟨place, found⟩ := List.mem_iff_getElem?.mp among
  have listed : (child : Int) ∈ arena.childList place := by rwa [childList, found]
  rw [consistent.linked, free] at listed
  cases listed

theorem IsConsistent.link (consistent : arena.IsConsistent) (parentInside : parent < arena.size)
    (childInside : child < arena.size) (free : arena.parent? child = none) :
    arena.Follows (arena.link parent child) := by
  have onChildren (place : Nat) := @childList_link arena parent child place
    (consistent.childLists ▸ parentInside)
  have onParents (place : Nat) := @parent?_link arena parent child place
    (consistent.parents ▸ childInside)
  refine ⟨⟨?_, ?_, ?_, ?_, ?_, ?_⟩, Nat.le_refl _, ?_⟩
  · exact (List.length_modify ..).trans consistent.childLists
  · exact (List.length_modify ..).trans consistent.parents
  · have perm := flatten_modify_perm (consistent.childLists ▸ parentInside) (child : Int)
    exact perm.nodup_iff.mpr
      (List.nodup_cons.mpr ⟨consistent.not_mem_flatten free, consistent.once⟩)
  · intro above below
    have before := consistent.linked above below
    rw [onChildren, onParents]
    by_cases isParent : above = parent
    · subst isParent
      by_cases isChild : below = child
      · simp [isChild]
      · have apart : (below : Int) ≠ child := fun same => isChild (Int.ofNat.inj same)
        simpa [isChild, apart] using before
    · by_cases isChild : below = child
      · subst isChild
        rw [free] at before
        have apart : (parent : Int) ≠ above := fun same => isParent (Int.ofNat.inj same).symm
        simpa [isParent, apart] using before
      · simpa [isParent, isChild] using before
  · intro place below listed
    rw [onChildren] at listed
    split at listed
    · rcases List.mem_append.mp listed with before | new
      · exact consistent.childInside place below before
      · rw [List.mem_singleton.mp new]
        exact ⟨Int.natCast_nonneg child, Int.ofNat_lt.mpr childInside⟩
    · exact consistent.childInside place below listed
  · intro place above found
    rw [onParents] at found
    split at found
    · rw [← Option.some.inj found]
      exact ⟨Int.natCast_nonneg parent, Int.ofNat_lt.mpr parentInside⟩
    · exact consistent.parentInside place above found
  · intro below above found
    have apart : below ≠ child := by
      rintro rfl
      rw [free] at found
      cases found
    rw [onParents, if_neg apart, found]

theorem IsConsistent.append (consistent : arena.IsConsistent) (draft : Draft) :
    arena.Follows (arena.append draft) := by
  have grows : arena.size ≤ (arena.append draft).size := by simp [size, Arena.append]
  refine ⟨⟨?_, ?_, ?_, ?_, ?_, ?_⟩, grows, ?_⟩
  · simp [size, Arena.append, consistent.childLists]
  · simp [size, Arena.append, consistent.parents]
  · simpa [Arena.append] using consistent.once
  · intro above below
    rw [childList_append, parent?_append]
    exact consistent.linked above below
  · intro place below listed
    rw [childList_append] at listed
    exact (consistent.childInside place below listed).mono grows
  · intro place above found
    rw [parent?_append] at found
    exact (consistent.parentInside place above found).mono grows
  · intro below above found
    rwa [parent?_append]

theorem element_eq {Element : Type} {elements : List Element} (inside : place < elements.length) :
    element elements place = .ok elements[place] := by
  rw [element, position?_natCast inside, Option.bind_some, List.getElem?_eq_getElem inside]

theorem IsConsistent.element_parents (consistent : arena.IsConsistent)
    (inside : place < arena.size) : element arena.parents place = .ok (arena.parent? place) := by
  have listed : place < arena.parents.length := consistent.parents ▸ inside
  rw [element_eq listed, parent?, List.getElem?_eq_getElem listed]
  rfl

/-- A child that has a parent is not attached. -/
theorem IsConsistent.attach_of_parent (consistent : arena.IsConsistent)
    (inside : child < arena.size) {above : Int} (found : arena.parent? child = some above)
    (parent : Int) : ∃ text, arena.attach parent child =
      .error (Malformation.alreadyAttached text : Fault) := by
  have onDrafts : element arena.drafts child = .ok arena.drafts[child] := element_eq inside
  refine ⟨arena.drafts[child].text.shown, ?_⟩
  rw [attach, consistent.element_parents inside, found, onDrafts]
  rfl

theorem IsConsistent.attach_of_free (consistent : arena.IsConsistent)
    (parentInside : parent < arena.size) (inside : child < arena.size)
    (free : arena.parent? child = none) :
    arena.attach parent child = .ok (arena.link parent child) := by
  have onChildren := update_eq (consistent.childLists ▸ parentInside)
    (fun children : List Int => children ++ [(child : Int)])
  have onParents := update_eq (consistent.parents ▸ inside) (fun _ => some (parent : Int))
  rw [attach, consistent.element_parents inside, free, onChildren, onParents]
  rfl

section Building

variable {First Second : Type} {fault : Fault}

/-- What becomes of building, and of the arena in which it is done. -/
def perform (building : Building First) (arena : Arena) : Except Fault First × Arena :=
  building.run.run arena

theorem perform_bind (first : Building First) (next : First → Building Second) (arena : Arena) :
    perform (first >>= next) arena =
      match perform first arena with
      | (.ok value, after) => perform (next value) after
      | (.error fault, after) => (.error fault, after) := by
  unfold perform
  rw [ExceptT.run_bind, StateT.run_bind]
  change (match first.run.run arena with | (value, after) => _) = _
  rcases first.run.run arena with ⟨fault | value, after⟩ <;> rfl

theorem perform_apply (change : Arena → Except Fault Arena) (arena : Arena) :
    perform (apply change) arena =
      match change arena with
      | .ok after => (.ok (), after)
      | .error fault => (.error fault, arena) := by
  unfold apply
  rw [perform_bind]
  change perform (match change arena with | .ok after => _ | .error fault => _) arena = _
  cases change arena <;> rfl

/-- Building that keeps an arena consistent and fails for no other reason than a malformed
tree. -/
structure Maintains (building : Building First) (arena : Arena) : Prop where
  follows : arena.Follows (perform building arena).2
  malformed : ∀ fault, (perform building arena).1 = .error fault →
    ∃ cause : Malformation, fault = cause

theorem Maintains.bind {first : Building First} {next : First → Building Second}
    (onFirst : Maintains first arena)
    (onNext : ∀ value after, perform first arena = (.ok value, after) → arena.Follows after →
      Maintains (next value) after) : Maintains (first >>= next) arena := by
  have follows := onFirst.follows
  have malformed := onFirst.malformed
  have bound := perform_bind first next arena
  rcases found : perform first arena with ⟨fault | value, after⟩
  · rw [found] at follows malformed bound
    constructor
    · rwa [bound]
    · rw [bound]
      exact fun other same => malformed other (congrArg Except.error (Except.error.inj same))
  · rw [found] at follows bound
    have further := onNext value after found follows
    constructor
    · rw [bound]
      exact follows.trans further.follows
    · rw [bound]
      exact further.malformed

theorem maintains_pure (consistent : arena.IsConsistent) (value : First) :
    Maintains (pure value) arena := ⟨consistent.follows, nofun⟩

/-- A step links two nodes, or fails and changes nothing if the child has a parent. -/
theorem perform_appendChild (consistent : arena.IsConsistent) (parentInside : parent < arena.size)
    (childInside : child < arena.size) :
    (∃ cause : Malformation, perform (appendChild parent child) arena = (.error cause, arena)) ∧
        (arena.parent? child).isSome ∨
      perform (appendChild parent child) arena = (.ok (), arena.link parent child) ∧
        arena.parent? child = none := by
  have performed := perform_apply (fun arena => arena.attach parent child) arena
  cases found : arena.parent? child with
  | some above =>
      obtain ⟨text, failed⟩ := consistent.attach_of_parent childInside found parent
      rw [failed] at performed
      exact .inl ⟨⟨_, performed⟩, rfl⟩
  | none =>
      rw [consistent.attach_of_free parentInside childInside found] at performed
      exact .inr ⟨performed, rfl⟩

theorem maintains_appendChild (consistent : arena.IsConsistent) {parent child : Int}
    (parentInside : arena.Has parent) (childInside : arena.Has child) :
    Maintains (appendChild parent child) arena := by
  obtain ⟨parent, rfl, parentBelow⟩ := parentInside.exists_place
  obtain ⟨child, rfl, childBelow⟩ := childInside.exists_place
  rcases perform_appendChild consistent parentBelow childBelow with
    ⟨⟨cause, failed⟩, _⟩ | ⟨linked, free⟩
  · constructor
    · rw [failed]
      exact consistent.follows
    · rw [failed]
      rintro _ ⟨⟩
      exact ⟨cause, rfl⟩
  · constructor
    · rw [linked]
      exact consistent.link parentBelow childBelow free
    · rw [linked]
      exact nofun

theorem maintains_attachAll (consistent : arena.IsConsistent) {parent : Int}
    {children : List Int} (parentInside : arena.Has parent)
    (inside : ∀ child ∈ children, arena.Has child) :
    Maintains (attachAll parent children) arena := by
  induction children generalizing arena with
  | nil => exact maintains_pure consistent ()
  | cons first rest ih =>
      obtain ⟨onFirst, onRest⟩ := List.forall_mem_cons.mp inside
      refine (maintains_appendChild consistent parentInside onFirst).bind
        (fun _ after _ follows => ?_)
      exact ih follows.consistent (parentInside.mono follows.size_le)
        (fun child member => (onRest child member).mono follows.size_le)

theorem perform_get (arena : Arena) : perform get arena = (.ok arena, arena) := rfl

theorem perform_modify (change : Arena → Arena) (arena : Arena) :
    perform (modify change) arena = (.ok (), change arena) := rfl

/-- Nodes are appended first and attached afterwards. -/
def grow (change : Arena → Arena) (attaching : Int → Building Unit) (result : Int → Int) :
    Building Int := do
  let index : Int := (← get).size
  modify change
  attaching index
  return result index

theorem add_eq_grow (draft : Draft) (children : List Int) :
    add draft children =
      grow (fun arena => arena.append draft) (fun index => attachAll index children) id := rfl

theorem copyTree_eq_grow (table : NodeTable) :
    copyTree table =
      grow (fun arena => table.rows.foldl (fun arena row => arena.append (draftOf row)) arena)
        (fun offset => attachRows offset table.rows) (fun offset => table.root + offset) := rfl

variable {change : Arena → Arena} {attaching : Int → Building Unit} {result : Int → Int}

theorem perform_grow :
    perform (grow change attaching result) arena =
      match perform (attaching arena.size) (change arena) with
      | (.ok _, after) => (.ok (result arena.size), after)
      | (.error fault, after) => (.error fault, after) := by
  unfold grow
  rw [perform_bind, perform_get]
  dsimp only
  rw [perform_bind, perform_modify]
  dsimp only
  rw [perform_bind]
  rcases perform (attaching arena.size) (change arena) with ⟨fault | value, after⟩ <;> rfl

theorem maintains_grow (grown : arena.Follows (change arena))
    (attached : Maintains (attaching arena.size) (change arena)) :
    Maintains (grow change attaching result) arena := by
  have follows := attached.follows
  have malformed := attached.malformed
  have performed := @perform_grow arena change attaching result
  rcases found : perform (attaching arena.size) (change arena) with ⟨fault | value, after⟩
  · rw [found] at follows malformed performed
    constructor
    · rw [performed]
      exact grown.trans follows
    · rw [performed]
      exact fun other same => malformed other (congrArg Except.error (Except.error.inj same))
  · rw [found] at follows performed
    constructor
    · rw [performed]
      exact grown.trans follows
    · rw [performed]
      exact nofun

theorem has_size_append (arena : Arena) (draft : Draft) :
    (arena.append draft).Has arena.size := by
  have grows : (arena.append draft).size = arena.size + 1 := by simp [size, append]
  exact ⟨Int.natCast_nonneg _, by omega⟩

/-- The new node may be named among its own children. -/
theorem maintains_add (consistent : arena.IsConsistent) (draft : Draft) {children : List Int}
    (inside : ∀ child ∈ children, (arena.append draft).Has child) :
    Maintains (add draft children) arena := by
  have appended := consistent.append draft
  rw [add_eq_grow]
  exact maintains_grow appended
    (maintains_attachAll appended.consistent (has_size_append arena draft) inside)

/-- The arena with another kind for a node. -/
def relabel (arena : Arena) (place : Nat) (kind : Kind) : Arena :=
  { arena with drafts := arena.drafts.modify place (fun draft => { draft with kind := kind }) }

theorem follows_relabel (consistent : arena.IsConsistent) (place : Nat) (kind : Kind) :
    arena.Follows (arena.relabel place kind) := by
  have same : arena.size = (arena.relabel place kind).size := (List.length_modify ..).symm
  have kept {number : Int} (has : arena.Has number) : (arena.relabel place kind).Has number :=
    has.mono (Nat.le_of_eq same)
  refine ⟨⟨?_, ?_, consistent.once, consistent.linked, ?_, ?_⟩, Nat.le_of_eq same,
    fun _ _ found => found⟩
  · exact consistent.childLists.trans same
  · exact consistent.parents.trans same
  · exact fun place child listed => kept (consistent.childInside place child listed)
  · exact fun place parent found => kept (consistent.parentInside place parent found)

theorem maintains_setKind (consistent : arena.IsConsistent) {index : Int}
    (inside : arena.Has index) (kind : Kind) : Maintains (setKind index kind) arena := by
  obtain ⟨place, rfl, below⟩ := inside.exists_place
  have performed : perform (setKind place kind) arena = (.ok (), arena.relabel place kind) := by
    rw [setKind, perform_apply, update_eq below]
    rfl
  constructor
  · rw [performed]
    exact follows_relabel consistent place kind
  · rw [performed]
    exact nofun

theorem follows_foldl_append (consistent : arena.IsConsistent) (rows : List NodeRow) :
    arena.Follows (rows.foldl (fun arena row => arena.append (draftOf row)) arena) := by
  induction rows generalizing arena with
  | nil => exact consistent.follows
  | cons first rest ih =>
      have appended := consistent.append (draftOf first)
      exact appended.trans (ih appended.consistent)

/-- Whether the nodes of a table are numbered by their places and have children in the table. -/
structure IsProper (table : NodeTable) : Prop where
  numbered : NodeTable.IsNumbered table.rows
  children : ∀ row ∈ table.rows, ∀ child ∈ row.children, 0 ≤ child ∧ child < table.rows.length

theorem maintains_attachRows (consistent : arena.IsConsistent) {offset : Int}
    {rows : List NodeRow}
    (inside : ∀ row ∈ rows, arena.Has (row.index + offset) ∧
      ∀ child ∈ row.children, arena.Has (child + offset)) :
    Maintains (attachRows offset rows) arena := by
  induction rows generalizing arena with
  | nil => exact maintains_pure consistent ()
  | cons first rest ih =>
      obtain ⟨⟨onFirst, onChildren⟩, onRest⟩ := List.forall_mem_cons.mp inside
      refine (maintains_attachAll consistent onFirst (List.forall_mem_map.mpr onChildren)).bind
        (fun _ after _ follows => ih follows.consistent (fun row member => ?_))
      obtain ⟨own, below⟩ := onRest row member
      exact ⟨own.mono follows.size_le,
        fun child listed => (below child listed).mono follows.size_le⟩

theorem maintains_copyTree (consistent : arena.IsConsistent) {table : NodeTable}
    (proper : IsProper table) : Maintains (copyTree table) arena := by
  have appended := follows_foldl_append consistent table.rows
  have grows : (table.rows.foldl (fun arena row => arena.append (draftOf row)) arena).size =
      arena.size + table.rows.length := by simp [foldl_append, size]
  have moved {index : Int} (low : 0 ≤ index) (high : index < table.rows.length) :
      (table.rows.foldl (fun arena row => arena.append (draftOf row)) arena).Has
        (index + arena.size) := ⟨by omega, by omega⟩
  rw [copyTree_eq_grow]
  refine maintains_grow appended
    (maintains_attachRows appended.consistent (fun row member => ⟨?_, fun child listed => ?_⟩))
  · obtain ⟨place, _, index, below⟩ := proper.numbered.exists_place member
    exact moved (by omega) (by omega)
  · obtain ⟨low, high⟩ := proper.children row member child listed
    exact moved low high

/-- Exactly these children are attached to a node. -/
structure HasAttached (arena : Arena) (parent : Nat) (attached : List Int) (after : Arena) :
    Prop where
  drafts : after.drafts = arena.drafts
  children : after.children = arena.children.modify parent (· ++ attached)
  parents : ∀ place : Nat, after.parent? place =
    if (place : Int) ∈ attached then some (parent : Int) else arena.parent? place

theorem hasAttached_nil (arena : Arena) (parent : Nat) : arena.HasAttached parent [] arena := by
  have same : (fun children : List Int => children ++ []) = id := funext List.append_nil
  refine ⟨rfl, ?_, fun place => rfl⟩
  rw [same, List.modify_id]

theorem HasAttached.cons {children : List Int} (inside : child < arena.parents.length)
    (attached : (arena.link parent child).HasAttached parent children after) :
    arena.HasAttached parent ((child : Int) :: children) after := by
  refine ⟨attached.drafts, ?_, fun place => ?_⟩
  · rw [attached.children, Arena.link, List.modify_modify_eq]
    simp [Function.comp_def]
  · rw [attached.parents, parent?_link inside]
    by_cases own : place = child
    · simp [own]
    · have apart : (place : Int) ≠ child := fun same => own (Int.ofNat.inj same)
      simp [own, apart]

/-- Attaching fails at the first child with a parent, and the children before it stay attached. -/
theorem perform_attachAll_eq_error (consistent : arena.IsConsistent)
    (parentInside : parent < arena.size) {children : List Int}
    (inside : ∀ child ∈ children, arena.Has child)
    (failed : perform (attachAll parent children) arena = (.error fault, after)) :
    ∃ before rest, ∃ child : Nat, children = before ++ (child : Int) :: rest ∧
      arena.HasAttached parent before after ∧ (after.parent? child).isSome := by
  induction children generalizing arena with
  | nil => cases failed
  | cons first rest ih =>
      obtain ⟨onFirst, onRest⟩ := List.forall_mem_cons.mp inside
      obtain ⟨child, rfl, childInside⟩ := onFirst.exists_place
      rw [attachAll, perform_bind] at failed
      rcases perform_appendChild consistent parentInside childInside with
        ⟨⟨cause, refused⟩, taken⟩ | ⟨performed, free⟩
      · rw [refused] at failed
        cases failed
        exact ⟨[], rest, child, rfl, hasAttached_nil _ parent, taken⟩
      · rw [performed] at failed
        have linked := consistent.link parentInside childInside free
        obtain ⟨before, others, other, rfl, attached, taken⟩ := ih linked.consistent
          (Nat.lt_of_lt_of_le parentInside linked.size_le)
          (fun child member => (onRest child member).mono linked.size_le) failed
        exact ⟨child :: before, others, other, rfl,
          attached.cons (consistent.parents ▸ childInside), taken⟩

end Building

/-- The calls by which an arena is built. -/
inductive Call
  | add (draft : Draft) (children : List Int)
  | appendChild (parent child : Int)
  | setKind (index : Int) (kind : Kind)
  | copyTree (table : NodeTable)

namespace Call

/-- What a call does. Some calls return the number of a node. -/
def building : Call → Building (Option Int)
  | .add draft children => do return some (← Arena.add draft children)
  | .appendChild parent child => do
      Arena.appendChild parent child
      return none
  | .setKind index kind => do
      Arena.setKind index kind
      return none
  | .copyTree table => do return some (← Arena.copyTree table)

def outcome (call : Call) (arena : Arena) : Except Fault (Option Int) :=
  (perform call.building arena).1

/-- The arena that a call leaves behind, whether it fails or not. -/
def effect (call : Call) (arena : Arena) : Arena := (perform call.building arena).2

/-- Whether a call names nothing but nodes of the arena, or of the tree that it copies. A node
that is added may be named among its own children. -/
def IsInRange (arena : Arena) : Call → Prop
  | .add _ children => ∀ child ∈ children, 0 ≤ child ∧ child ≤ arena.size
  | .appendChild parent child => arena.Has parent ∧ arena.Has child
  | .setKind index _ => arena.Has index
  | .copyTree table => IsProper table

theorem has_append (draft : Draft) {children : List Int}
    (inRange : (Call.add draft children).IsInRange arena) :
    ∀ child ∈ children, (arena.append draft).Has child := by
  intro child member
  obtain ⟨low, high⟩ := inRange child member
  have own := (has_size_append arena draft).2
  exact ⟨low, by omega⟩

theorem maintains (consistent : arena.IsConsistent) {call : Call} (inRange : call.IsInRange arena) :
    Maintains call.building arena := by
  cases call with
  | add draft children =>
      exact (maintains_add consistent draft (has_append draft inRange)).bind
        (fun _ _ _ follows => maintains_pure follows.consistent _)
  | appendChild parent child =>
      exact (maintains_appendChild consistent inRange.1 inRange.2).bind
        (fun _ _ _ follows => maintains_pure follows.consistent _)
  | setKind index kind =>
      exact (maintains_setKind consistent inRange kind).bind
        (fun _ _ _ follows => maintains_pure follows.consistent _)
  | copyTree table =>
      exact (maintains_copyTree consistent inRange).bind
        (fun _ _ _ follows => maintains_pure follows.consistent _)

end Call

/-- Any number of calls, with nodes that are there when they are named. -/
inductive Leads : Arena → Arena → Prop
  | refl (arena : Arena) : Leads arena arena
  | call {arena middle : Arena} (call : Call) :
      Leads arena middle → call.IsInRange middle → Leads arena (call.effect middle)

theorem Leads.follows (consistent : arena.IsConsistent) (leads : arena.Leads after) :
    arena.Follows after := by
  induction leads with
  | refl => exact consistent.follows
  | call _ _ inRange ih => exact ih.trans (Call.maintains ih.consistent inRange).follows

theorem isConsistent_empty : IsConsistent {} where
  childLists := rfl
  parents := rfl
  once := List.nodup_nil
  linked := by simp [childList, parent?]
  childInside := by simp [childList]
  parentInside := by simp [parent?]

/-- A node is added with exactly these children. -/
structure HasAdded (arena : Arena) (draft : Draft) (attached : List Int) (after : Arena) :
    Prop where
  drafts : after.drafts = arena.drafts ++ [draft]
  children : after.children = arena.children ++ [attached]
  parents : ∀ place : Nat, after.parent? place =
    if (place : Int) ∈ attached then some (arena.size : Int) else arena.parent? place

theorem HasAttached.hasAdded (consistent : arena.IsConsistent) {attached : List Int}
    (whole : (arena.append draft).HasAttached arena.size attached after) :
    arena.HasAdded draft attached after := by
  refine ⟨whole.drafts, ?_, fun place => ?_⟩
  · have last := modify_append_right arena.children [[]] 0 (fun children => children ++ attached)
    rw [Nat.add_zero, consistent.childLists] at last
    rw [whole.children]
    exact last
  · rw [whole.parents, parent?_append]

theorem perform_eq_error {First Second : Type} {first : Building First} {next : First → Second}
    {fault : Fault} (failed : (perform (do return next (← first)) arena).1 = .error fault) :
    ∃ after, perform first arena = (.error fault, after) ∧
      (perform (do return next (← first)) arena).2 = after := by
  rw [perform_bind] at failed ⊢
  rcases performed : perform first arena with ⟨cause | value, after⟩
  · rw [performed] at failed
    cases failed
    exact ⟨after, rfl, rfl⟩
  · rw [performed] at failed
    cases failed

theorem perform_grow_eq_error {change : Arena → Arena} {attaching : Int → Building Unit}
    {result : Int → Int} {fault : Fault}
    (failed : perform (grow change attaching result) arena = (.error fault, after)) :
    perform (attaching arena.size) (change arena) = (.error fault, after) := by
  rw [perform_grow] at failed
  rcases performed : perform (attaching arena.size) (change arena) with ⟨cause | value, middle⟩
  · rw [performed] at failed
    cases failed
    rfl
  · rw [performed] at failed
    cases failed

/-- What calls that fail leave behind. -/
structure FailsCleanly (arena : Arena) : Prop where
  malformed : ∀ call : Call, call.IsInRange arena → ∀ fault,
    call.outcome arena = .error fault → ∃ cause : Malformation, fault = cause
  appendChild : ∀ parent child, (Call.appendChild parent child).IsInRange arena → ∀ fault,
    (Call.appendChild parent child).outcome arena = .error fault →
      (Call.appendChild parent child).effect arena = arena
  add : ∀ draft children, (Call.add draft children).IsInRange arena → ∀ fault,
    (Call.add draft children).outcome arena = .error fault →
      ∃ before rest, ∃ child : Nat, children = before ++ (child : Int) :: rest ∧
        arena.HasAdded draft before ((Call.add draft children).effect arena) ∧
          (((Call.add draft children).effect arena).parent? child).isSome

theorem failsCleanly (consistent : arena.IsConsistent) : arena.FailsCleanly := by
  constructor
  case malformed =>
    exact fun call inRange fault failed =>
      (call.maintains consistent inRange).malformed fault failed
  case appendChild =>
    intro parent child inRange fault failed
    obtain ⟨parent, rfl, parentBelow⟩ := inRange.1.exists_place
    obtain ⟨child, rfl, childBelow⟩ := inRange.2.exists_place
    obtain ⟨after, performed, left⟩ := perform_eq_error failed
    rcases perform_appendChild consistent parentBelow childBelow with
      ⟨⟨cause, refused⟩, _⟩ | ⟨linked, _⟩
    · rw [refused] at performed
      cases performed
      exact left
    · rw [linked] at performed
      cases performed
  case add =>
    intro draft children inRange fault failed
    obtain ⟨after, performed, left⟩ := perform_eq_error failed
    have inside := Call.has_append draft inRange
    have below : arena.size < (arena.append draft).size :=
      Int.ofNat_lt.mp (has_size_append arena draft).2
    rw [add_eq_grow] at performed
    obtain ⟨before, rest, child, split, attached, taken⟩ := perform_attachAll_eq_error
      (consistent.append draft).consistent below inside (perform_grow_eq_error performed)
    have same : (Call.add draft children).effect arena = after := left
    rw [same]
    exact ⟨before, rest, child, split, attached.hasAdded consistent, taken⟩

/-- In whatever order an arena is built, with calls that fail among the others, both records of
its links agree, and go on to agree, with the parents that nodes have. A failing step changes
nothing, and a failing addition leaves the node with the children before the one that has a
parent already. -/
theorem isConsistent_of_leads (built : Leads {} arena) :
    arena.IsConsistent ∧ (∀ later, arena.Leads later → arena.Follows later) ∧
      arena.FailsCleanly := by
  have consistent := (built.follows isConsistent_empty).consistent
  exact ⟨consistent, fun later leads => leads.follows consistent, failsCleanly consistent⟩

def drafted (operation : Operation) : Draft :=
  { kind := .operation operation, text := .text (Kind.operation operation).token }

/-- Two nodes that are the children of each other, and a third one by itself. -/
def circle : Arena :=
  [.add (drafted .mul) [], .add (drafted .add) [0], .appendChild 0 1, .add (drafted .sub) []].foldl
    (fun arena call => Call.effect call arena) {}

/-- A node that is added to these gets the third node before it fails to get one of the circle. -/
theorem isConsistent_circle :
    Leads {} circle ∧
      ((Call.add (drafted .shl) [2, 0]).outcome circle).isOk = false ∧
      ((Call.add (drafted .shl) [2, 0]).effect circle).children = [[1], [0], [], [2]] ∧
      circle.IsConsistent ∧ (∀ later, circle.Leads later → circle.Follows later) ∧
      circle.FailsCleanly := by
  have first := Leads.call (.add (drafted .mul) []) (.refl {}) (List.forall_mem_nil _)
  have second := Leads.call (.add (drafted .add) [0]) first
    (List.forall_mem_singleton.mpr (by decide))
  have third := Leads.call (.appendChild 0 1) second
    ⟨⟨by decide, by decide⟩, by decide, by decide⟩
  have built : Leads {} circle :=
    .call (.add (drafted .sub) []) third (List.forall_mem_nil _)
  exact ⟨built, rfl, rfl, isConsistent_of_leads built⟩

end Arena

end KernelFootprint
