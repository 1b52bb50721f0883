import KernelFootprint.Catalogue

/-!
# Registers and groups

What is found in a register that was filled entry by entry: nothing but what was put in,
something under every key that was put in, and what was put in last. The entries of a
register can be changed before or after it is filled, and entries with new keys are put at
its end. Sorting leaves out nothing and adds nothing.
-/

namespace KernelFootprint

namespace Register

section Sorting

variable {Element : Type} {before : Element → Element → Bool} {element other : Element}

theorem place_perm (element : Element) (sorted : List Element) :
    (place before element sorted).Perm (element :: sorted) := by
  induction sorted with
  | nil => exact .refl _
  | cons first rest ih =>
      rw [place]
      split
      · exact (ih.cons first).trans (.swap element first rest)
      · exact .refl _

/-- Sorting leaves out nothing and adds nothing. -/
theorem sort_perm (elements : List Element) : (sort before elements).Perm elements := by
  have placed (elements sorted : List Element) :
      (elements.foldl (fun sorted element => place before element sorted) sorted).Perm
        (elements ++ sorted) := by
    induction elements generalizing sorted with
    | nil => exact .refl _
    | cons first rest ih =>
        have onward := (ih (place before first sorted)).trans
          ((place_perm first sorted).append_left rest)
        exact onward.trans List.perm_middle
  have all := placed elements []
  rwa [List.append_nil] at all

theorem mem_sort {elements : List Element} :
    element ∈ sort before elements ↔ element ∈ elements := (sort_perm elements).mem_iff

theorem pairwise_place (total : ∀ first second, before first second ∨ before second first)
    (trans : ∀ first second third, before first second → before second third →
      before first third) {sorted : List Element}
    (ordered : sorted.Pairwise (fun first second => before first second)) :
    (place before element sorted).Pairwise (fun first second => before first second) := by
  induction sorted with
  | nil => exact List.pairwise_singleton _ _
  | cons first rest ih =>
      obtain ⟨onFirst, onRest⟩ := List.pairwise_cons.mp ordered
      rw [place]
      split
      · next precedes =>
          refine List.pairwise_cons.mpr ⟨fun other member => ?_, ih onRest⟩
          rcases List.mem_cons.mp ((place_perm element rest).mem_iff.mp member) with
            rfl | inRest
          · exact precedes
          · exact onFirst other inRest
      · next follows =>
          have precedes := (total first element).resolve_left follows
          refine List.pairwise_cons.mpr ⟨fun other member => ?_, ordered⟩
          rcases List.mem_cons.mp member with rfl | inRest
          · exact precedes
          · exact trans element first other precedes (onFirst other inRest)

/-- Sorting by a total order puts everything in order. -/
theorem pairwise_sort (total : ∀ first second, before first second ∨ before second first)
    (trans : ∀ first second third, before first second → before second third →
      before first third) (elements : List Element) :
    (sort before elements).Pairwise (fun first second => before first second) := by
  have placed (elements sorted : List Element)
      (ordered : sorted.Pairwise (fun first second => before first second)) :
      (elements.foldl (fun sorted element => place before element sorted) sorted).Pairwise
        (fun first second => before first second) := by
    induction elements generalizing sorted with
    | nil => exact ordered
    | cons first rest ih => exact ih _ (pairwise_place total trans ordered)
  exact placed elements [] .nil

end Sorting

section Appending

variable {Key Entry : Type} [BEq Key] {key : Key} {entry : Entry}
  {entries start : List (Key × Entry)}

/-- No two entries have the same key. -/
def IsRegister (entries : List (Key × Entry)) : Prop :=
  entries.Pairwise (fun first second => (first.1 == second.1) = false)

theorem find_of_forall_ne (different : ∀ other ∈ entries, (other.1 == key) = false) :
    find key entries = none := by
  induction entries with
  | nil => rfl
  | cons first rest ih =>
      obtain ⟨onFirst, onRest⟩ := List.forall_mem_cons.mp different
      rw [find, onFirst]
      exact ih onRest

/-- A new key is put at the end. -/
theorem insert_of_forall_ne (different : ∀ other ∈ entries, (other.1 == key) = false) :
    insert key entry entries = entries ++ [(key, entry)] := by
  induction entries with
  | nil => rfl
  | cons first rest ih =>
      obtain ⟨onFirst, onRest⟩ := List.forall_mem_cons.mp different
      rw [insert, onFirst, List.cons_append, ← ih onRest]
      rfl

/-- Entries with new keys are put at the end one after the other. -/
theorem insertAll_of_isRegister (distinct : IsRegister (start ++ entries)) :
    insertAll start entries = start ++ entries := by
  induction entries generalizing start with
  | nil => exact (List.append_nil start).symm
  | cons first rest ih =>
      have fresh : ∀ other ∈ start, (other.1 == first.1) = false :=
        fun other member => (List.pairwise_append.mp distinct).2.2 other member first
          (List.mem_cons_self ..)
      rw [List.append_cons] at distinct ⊢
      rw [insertAll, List.foldl_cons, insert_of_forall_ne fresh]
      exact ih distinct

theorem insertAll_nil_of_isRegister (distinct : IsRegister entries) :
    insertAll [] entries = entries := insertAll_of_isRegister (List.nil_append entries ▸ distinct)

end Appending

variable {Key Entry Other : Type} [BEq Key] {key : Key} {entry : Entry}
  {entries start : List (Key × Entry)}

theorem insert_map (change : Entry → Other) (key : Key) (entry : Entry)
    (entries : List (Key × Entry)) :
    insert key (change entry) (entries.map (fun entry => (entry.1, change entry.2))) =
      (insert key entry entries).map (fun entry => (entry.1, change entry.2)) := by
  induction entries with
  | nil => rfl
  | cons first rest ih =>
      rw [List.map_cons, insert, insert]
      split
      · rfl
      · rw [ih]
        rfl

/-- Entries can be changed before they are put in or afterwards. -/
theorem ofList_map (change : Entry → Other) :
    ofList (entries.map (fun entry => (entry.1, change entry.2))) =
      (ofList entries).map (fun entry => (entry.1, change entry.2)) := by
  have filled (start : List (Key × Entry)) :
      insertAll (start.map (fun entry => (entry.1, change entry.2)))
          (entries.map (fun entry => (entry.1, change entry.2))) =
        (insertAll start entries).map (fun entry => (entry.1, change entry.2)) := by
    induction entries generalizing start with
    | nil => rfl
    | cons first rest ih =>
        have step := insert_map change first.1 first.2 start
        rw [List.map_cons, insertAll, List.foldl_cons, step]
        exact ih _
  exact filled []

variable [LawfulBEq Key]

theorem mem_of_find_eq_some (found : find key entries = some entry) : (key, entry) ∈ entries := by
  induction entries with
  | nil => cases found
  | cons first rest ih =>
      rw [find] at found
      split at found
      · next same =>
          cases found
          rw [← eq_of_beq same]
          exact List.mem_cons_self ..
      · exact List.mem_cons_of_mem _ (ih found)

theorem exists_find_of_mem (member : (key, entry) ∈ entries) :
    ∃ found, find key entries = some found := by
  induction entries with
  | nil => cases member
  | cons first rest ih =>
      rw [find]
      split
      · exact ⟨_, rfl⟩
      · next different =>
          rcases List.mem_cons.mp member with rfl | inRest
          · exact absurd (beq_self_eq_true key) different
          · exact ih inRest

theorem mem_of_mem_insert {other : Key × Entry} (member : other ∈ insert key entry entries) :
    other = (key, entry) ∨ other ∈ entries := by
  induction entries with
  | nil => exact .inl (List.mem_singleton.mp member)
  | cons first rest ih =>
      rw [insert] at member
      split at member
      · next same =>
          rw [eq_of_beq same] at member
          exact (List.mem_cons.mp member).imp_right (List.mem_cons_of_mem first)
      · rcases List.mem_cons.mp member with rfl | inRest
        · exact .inr (List.mem_cons_self ..)
        · exact (ih inRest).imp_right (List.mem_cons_of_mem first)

/-- A register holds nothing but what was put in. -/
theorem mem_of_mem_insertAll {other : Key × Entry} (member : other ∈ insertAll start entries) :
    other ∈ entries ∨ other ∈ start := by
  induction entries generalizing start with
  | nil => exact .inr member
  | cons first rest ih =>
      rcases ih member with later | inserted
      · exact .inl (List.mem_cons_of_mem first later)
      · rcases mem_of_mem_insert inserted with rfl | before
        · exact .inl (List.mem_cons_self ..)
        · exact .inr before

theorem mem_of_mem_ofList {other : Key × Entry} (member : other ∈ ofList entries) :
    other ∈ entries := (mem_of_mem_insertAll member).resolve_right List.not_mem_nil

theorem exists_find_insertAll
    (present : (∃ found, find key start = some found) ∨ ∃ entry, (key, entry) ∈ entries) :
    ∃ found, find key (insertAll start entries) = some found := by
  induction entries generalizing start with
  | nil => exact present.resolve_right nofun
  | cons first rest ih =>
      refine ih ?_
      by_cases same : key = first.1
      · subst same
        exact .inl ⟨first.2, find_insert_self first.1 first.2 start⟩
      · refine present.imp ?_ ?_
        · rintro ⟨found, before⟩
          exact ⟨found, (find_insert_of_ne same first.2 start).trans before⟩
        · rintro ⟨entry, later⟩
          refine ⟨entry, (List.mem_cons.mp later).resolve_left ?_⟩
          rintro rfl
          exact same rfl

/-- Something is found under every key that was put in. -/
theorem exists_find_ofList (member : (key, entry) ∈ entries) :
    ∃ found, find key (ofList entries) = some found :=
  exists_find_insertAll (.inr ⟨entry, member⟩)

/-- Entries can be changed before they are looked up or afterwards. -/
theorem find_map (change : Key → Entry → Other) (key : Key) (entries : List (Key × Entry)) :
    find key (entries.map (fun entry => (entry.1, change entry.1 entry.2))) =
      (find key entries).map (change key) := by
  induction entries with
  | nil => rfl
  | cons first rest ih =>
      rw [List.map_cons, find, find]
      by_cases same : first.1 = key
      · subst same
        simp
      · simpa [same] using ih

end Register

namespace Catalogue

variable {Group Key Entry Other : Type} [BEq Group] [LawfulBEq Group] [BEq Key] {group : Group}
  {key : Key} {entry : Entry}

/-- Changes every entry of every group. -/
def mapGroups (change : Entry → Other) (groups : List (Group × List (Key × Entry))) :
    List (Group × List (Key × Other)) :=
  groups.map (fun members => (members.1, members.2.map (fun entry => (entry.1, change entry.2))))

theorem insertIn_mapGroups (change : Entry → Other) (group : Group) (key : Key) (entry : Entry)
    (groups : List (Group × List (Key × Entry))) :
    insertIn group key (change entry) (mapGroups change groups) =
      mapGroups change (insertIn group key entry groups) := by
  have found : (Register.find group (mapGroups change groups)).getD [] =
      ((Register.find group groups).getD []).map (fun entry => (entry.1, change entry.2)) := by
    have moved := Register.find_map (fun _ (members : List (Key × Entry)) =>
      members.map (fun entry => (entry.1, change entry.2))) group groups
    rw [mapGroups, moved]
    cases Register.find group groups <;> rfl
  rw [insertIn, found, Register.insert_map]
  exact Register.insert_map (fun members : List (Key × Entry) =>
    members.map (fun entry => (entry.1, change entry.2))) group _ groups

/-- Entries can be changed before they are grouped or afterwards. -/
theorem grouped_map (change : Entry → Other) (entries : List (Group × Key × Entry)) :
    grouped (entries.map (fun entry => (entry.1, entry.2.1, change entry.2.2))) =
      mapGroups change (grouped entries) := by
  have filled (groups : List (Group × List (Key × Entry))) :
      (entries.map (fun entry => (entry.1, entry.2.1, change entry.2.2))).foldl
          (fun groups entry => insertIn entry.1 entry.2.1 entry.2.2 groups)
          (mapGroups change groups) =
        mapGroups change (entries.foldl
          (fun groups entry => insertIn entry.1 entry.2.1 entry.2.2 groups) groups) := by
    induction entries generalizing groups with
    | nil => rfl
    | cons first rest ih =>
        have step := insertIn_mapGroups change first.1 first.2.1 first.2.2 groups
        rw [List.map_cons, List.foldl_cons, List.foldl_cons, step]
        exact ih _
  exact filled []

variable [LawfulBEq Key]

/-- The entry of a key in a group. -/
def lookUp (group : Group) (key : Key) (groups : List (Group × List (Key × Entry))) :
    Option Entry :=
  Register.find key ((Register.find group groups).getD [])

theorem lookUp_insertIn_self (groups : List (Group × List (Key × Entry))) :
    lookUp group key (insertIn group key entry groups) = some entry := by
  rw [lookUp, insertIn, Register.find_insert_self]
  exact Register.find_insert_self key entry _

theorem lookUp_insertIn_of_ne {other : Group} {otherKey : Key}
    (different : ¬ (other = group ∧ otherKey = key)) (groups : List (Group × List (Key × Entry))) :
    lookUp group key (insertIn other otherKey entry groups) = lookUp group key groups := by
  rw [lookUp, insertIn, lookUp]
  by_cases same : group = other
  · subst same
    have further : key ≠ otherKey := fun equal => different ⟨rfl, equal.symm⟩
    rw [Register.find_insert_self]
    exact Register.find_insert_of_ne further entry _
  · rw [Register.find_insert_of_ne same]

/-- Of several entries of one key in one group the last one counts. -/
theorem lookUp_grouped (before : List (Group × Key × Entry)) {after : List (Group × Key × Entry)}
    (last : ∀ other ∈ after, ¬ (other.1 = group ∧ other.2.1 = key)) :
    lookUp group key (grouped (before ++ (group, key, entry) :: after)) = some entry := by
  have later (groups : List (Group × List (Key × Entry)))
      (present : lookUp group key groups = some entry) :
      lookUp group key (after.foldl
        (fun groups entry => insertIn entry.1 entry.2.1 entry.2.2 groups) groups) =
          some entry := by
    induction after generalizing groups with
    | nil => exact present
    | cons first rest ih =>
        obtain ⟨onFirst, onRest⟩ := List.forall_mem_cons.mp last
        exact ih onRest _ ((lookUp_insertIn_of_ne onFirst groups).trans present)
  rw [grouped, List.foldl_append, List.foldl_cons]
  exact later _ (lookUp_insertIn_self _)

end Catalogue

end KernelFootprint
