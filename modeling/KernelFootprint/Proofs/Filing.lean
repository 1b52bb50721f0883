import Mathlib.Data.List.Nodup
import KernelFootprint.Proofs.PostfixLanguage
import KernelFootprint.Proofs.Turns

/-!
# Filed kernels

The loops and the accesses of a kernel are filed under their numbers: every number stands
once, and an access stands under its own. Catalogues that are read from tables are filed,
whatever the tables hold. The accesses of a filed kernel are estimated in strictly ascending
order, and so are its loops counted.
-/

namespace KernelFootprint

namespace Register

variable {Key Entry : Type} [BEq Key] [LawfulBEq Key] {key : Key} {entry : Entry}
  {entries start : List (Key × Entry)}

theorem IsRegister.insert (distinct : IsRegister entries) :
    IsRegister (insert key entry entries) := by
  induction entries with
  | nil => exact List.pairwise_singleton _ _
  | cons first rest ih =>
      obtain ⟨onFirst, onRest⟩ := List.pairwise_cons.mp distinct
      rw [Register.insert]
      split
      · exact List.pairwise_cons.mpr ⟨onFirst, onRest⟩
      · next different =>
          refine List.pairwise_cons.mpr ⟨fun other member => ?_, ih onRest⟩
          rcases mem_of_mem_insert member with rfl | inRest
          · exact Bool.eq_false_iff.mpr different
          · exact onFirst other inRest

/-- Sorting by different numbers puts these in strictly ascending order. -/
theorem ascending_sort {Element : Type} {number : Element → Int} {elements : List Element}
    (distinct : elements.Pairwise (fun first second => number first ≠ number second)) :
    (sort (fun first second => number first ≤ number second) elements).Pairwise
      (fun first second => number first < number second) := by
  have ordered : (sort (fun first second => number first ≤ number second) elements).Pairwise
      (fun first second => decide (number first ≤ number second) = true) := by
    refine pairwise_sort ?_ ?_ elements
    · intro first second
      simpa using le_total (number first) (number second)
    · intro first second third
      simpa using le_trans
  have apart : (sort (fun first second => number first ≤ number second) elements).Pairwise
      (fun first second => number first ≠ number second) :=
    ((sort_perm elements).pairwise_iff Ne.symm).mpr distinct
  refine (ordered.and apart).imp ?_
  rintro first second ⟨atMost, different⟩
  exact lt_of_le_of_ne (of_decide_eq_true atMost) different

end Register

namespace KernelRecord

/-- Every number stands once, and accesses stand under their own numbers. -/
structure IsFiled (kernel : KernelRecord) : Prop where
  loops : Register.IsRegister kernel.loops
  accesses : Register.IsRegister kernel.accesses
  numbered : ∀ entry ∈ kernel.accesses, entry.2.id = entry.1

/-- The number of an access names no other access. -/
theorem IsFiled.eq_of_id {kernel : KernelRecord} (filed : kernel.IsFiled)
    {first second : Int × AccessRecord} (inFirst : first ∈ kernel.accesses)
    (inSecond : second ∈ kernel.accesses) (same : first.2.id = second.2.id) : first = second := by
  have distinct : (kernel.accesses.map Prod.fst).Nodup :=
    List.pairwise_map.mpr (filed.accesses.imp (fun different => by simpa using different))
  rw [filed.numbered first inFirst, filed.numbered second inSecond] at same
  exact List.inj_on_of_nodup_map distinct inFirst inSecond same

end KernelRecord

namespace Catalogue

variable {Group Key Entry : Type} [BEq Key]

/-- All entries of a group have different keys, and belong under these. -/
structure IsGroup (belongs : Key → Entry → Prop) (members : List (Key × Entry)) : Prop where
  distinct : Register.IsRegister members
  belong : ∀ entry ∈ members, belongs entry.1 entry.2

theorem IsGroup.insert [LawfulBEq Key] {belongs : Key → Entry → Prop} {members : List (Key × Entry)}
    (isGroup : IsGroup belongs members) {key : Key} {entry : Entry} (belong : belongs key entry) :
    IsGroup belongs (Register.insert key entry members) := by
  refine ⟨isGroup.distinct.insert, fun other member => ?_⟩
  rcases Register.mem_of_mem_insert member with rfl | before
  · exact belong
  · exact isGroup.belong other before

variable [BEq Group] [LawfulBEq Group]

theorem isGroup_find {belongs : Key → Entry → Prop} {groups : List (Group × List (Key × Entry))}
    (each : ∀ group ∈ groups, IsGroup belongs group.2) (name : Group) :
    IsGroup belongs ((Register.find name groups).getD []) := by
  cases found : Register.find name groups with
  | none => exact ⟨.nil, nofun⟩
  | some members => exact each (name, members) (Register.mem_of_find_eq_some found)

/-- Entries that belong under their keys are grouped under these. -/
theorem isGroup_grouped [LawfulBEq Key] {belongs : Key → Entry → Prop}
    {entries : List (Group × Key × Entry)}
    (belong : ∀ entry ∈ entries, belongs entry.2.1 entry.2.2) (name : Group) :
    IsGroup belongs ((Register.find name (grouped entries)).getD []) := by
  have filled (groups : List (Group × List (Key × Entry)))
      (each : ∀ group ∈ groups, IsGroup belongs group.2) :
      ∀ group ∈ entries.foldl
        (fun groups entry => insertIn entry.1 entry.2.1 entry.2.2 groups) groups,
        IsGroup belongs group.2 := by
    induction entries generalizing groups with
    | nil => exact each
    | cons first rest ih =>
        obtain ⟨onFirst, onRest⟩ := List.forall_mem_cons.mp belong
        refine ih onRest _ (fun group member => ?_)
        rcases Register.mem_of_mem_insert member with rfl | before
        · exact (isGroup_find each first.1).insert onFirst
        · exact each group before
  exact isGroup_find (filled [] nofun) name

/-- All kernels of a catalogue are filed. -/
def IsFiled (catalogue : Catalogue) : Prop := ∀ entry ∈ catalogue, entry.2.IsFiled

theorem exists_mem_of_find? {catalogue : Catalogue} {name : Datum} {kernel : KernelRecord}
    (found : catalogue.find? name = .ok (some kernel)) : ∃ key, (key, kernel) ∈ catalogue := by
  rw [Catalogue.find?] at found
  cases named : name.toKey with
  | error cause =>
      rw [named] at found
      cases found
  | ok key =>
      rw [named] at found
      exact ⟨key, Register.mem_of_find_eq_some (Except.ok.inj found)⟩

theorem IsFiled.find? {catalogue : Catalogue} (filed : catalogue.IsFiled) {name : Datum}
    {kernel : KernelRecord} (found : catalogue.find? name = .ok (some kernel)) :
    kernel.IsFiled := by
  obtain ⟨key, member⟩ := exists_mem_of_find? found
  exact filed (key, kernel) member

theorem mem_of_mem_keyed {Record : Type} {kernel : Record → Datum} {records : List Record}
    {entry : Datum.Key × Record} (member : entry ∈ keyed kernel records) : entry.2 ∈ records := by
  obtain ⟨record, inside, same⟩ := List.mem_filterMap.mp member
  obtain ⟨key, _, rfl⟩ := Option.map_eq_some_iff.mp same
  exact inside

variable {loops : List LoopRecord} {accesses : List AccessRecord} {phis : List PhiRow}
  {catalogue : Catalogue}

/-- What holds of all records of accesses holds of the accesses of every kernel. -/
theorem isGroup_accesses (built : ofRecords loops accesses phis = .ok catalogue)
    {belongs : Int → AccessRecord → Prop} (each : ∀ access ∈ accesses, belongs access.id access) :
    ∀ entry ∈ catalogue, IsGroup belongs entry.2.accesses := by
  obtain ⟨names, _, same⟩ := Postfix.bind_eq_ok.mp built
  cases same
  intro entry member
  obtain ⟨⟨key, name⟩, _, rfl⟩ := List.mem_map.mp member
  refine isGroup_grouped (fun entry among => ?_) key
  obtain ⟨access, inside, rfl⟩ := List.mem_map.mp among
  exact each access.2 (mem_of_mem_keyed inside)

theorem isRegister_loops (built : ofRecords loops accesses phis = .ok catalogue) :
    ∀ entry ∈ catalogue, Register.IsRegister entry.2.loops := by
  obtain ⟨names, _, same⟩ := Postfix.bind_eq_ok.mp built
  cases same
  intro entry member
  obtain ⟨⟨key, name⟩, _, rfl⟩ := List.mem_map.mp member
  have isGroup : IsGroup (fun (_ : Int) (_ : LoopRecord) => True)
      ((Register.find key (grouped ((keyed LoopRecord.kernel loops).map
        (fun loop => (loop.1, loop.2.id, loop.2))))).getD []) :=
    isGroup_grouped (fun _ _ => trivial) key
  exact isGroup.distinct

theorem isFiled_ofRecords (built : ofRecords loops accesses phis = .ok catalogue) :
    catalogue.IsFiled := by
  intro entry member
  have isGroup := @isGroup_accesses loops accesses phis catalogue built
    (fun number access => access.id = number)
    (fun _ _ => rfl) entry member
  exact ⟨isRegister_loops built entry member, isGroup.distinct, isGroup.belong⟩

theorem reading_eq_ok {Result : Type} {outcome : Except Misuse Result} {result : Result} :
    reading outcome = .ok result ↔ outcome = .ok result := by
  cases outcome with
  | error cause => exact ⟨nofun, nofun⟩
  | ok value => exact ⟨fun same => Except.ok.inj same ▸ rfl, fun same => Except.ok.inj same ▸ rfl⟩

/-- The record of an access that a row of a table is about. -/
def readAccess (settings : Settings) (separate : List (AccessName × Datum)) (datum : Datum) :
    Reading AccessRecord := do
  let row ← reading datum.entries
  catalogued AccessRecord.kernel (← accessRecord settings row (← treeTokens separate row))

/-- A catalogue of tables is made of the records of their rows. -/
theorem exists_records_of_ofTables {settings : Settings} {tables : Tables}
    (built : ofTables settings tables = .ok catalogue) :
    ∃ data separate loops accesses phis, rows tables.accessRows = .ok data ∧
      data.mapM (readAccess settings separate) = .ok accesses ∧
        ofRecords loops accesses phis = .ok catalogue := by
  obtain ⟨_, _, built⟩ := Postfix.bind_eq_ok.mp built
  obtain ⟨loops, _, built⟩ := Postfix.bind_eq_ok.mp built
  obtain ⟨_, _, built⟩ := Postfix.bind_eq_ok.mp built
  obtain ⟨_, _, built⟩ := Postfix.bind_eq_ok.mp built
  obtain ⟨data, listed, built⟩ := Postfix.bind_eq_ok.mp built
  obtain ⟨accesses, read, built⟩ := Postfix.bind_eq_ok.mp built
  obtain ⟨_, _, built⟩ := Postfix.bind_eq_ok.mp built
  obtain ⟨phis, _, built⟩ := Postfix.bind_eq_ok.mp built
  exact ⟨data, _, loops, accesses, phis, listed, read, built⟩

/-- Whatever the tables hold, the catalogue made of them is filed. -/
theorem isFiled_ofTables {settings : Settings} {tables : Tables}
    (built : ofTables settings tables = .ok catalogue) : catalogue.IsFiled := by
  obtain ⟨_, _, _, _, _, _, _, made⟩ := exists_records_of_ofTables built
  exact isFiled_ofRecords made

end Catalogue

namespace LoopNest

variable {nest : LoopNest}

/-- The accesses of a filed kernel are estimated in strictly ascending order. -/
theorem ascending_accesses (filed : nest.kernel.IsFiled) :
    nest.accesses.Pairwise (fun first second => first.id < second.id) := by
  have distinct : nest.kernel.accesses.Pairwise (fun first second => first.1 ≠ second.1) :=
    filed.accesses.imp (fun different => by simpa using different)
  refine List.pairwise_map.mpr ((Register.ascending_sort distinct).imp_of_mem ?_)
  intro first second inFirst inSecond ascending
  rw [filed.numbered first (Register.mem_sort.mp inFirst),
    filed.numbered second (Register.mem_sort.mp inSecond)]
  exact ascending

/-- The loops of a filed kernel are counted in strictly ascending order. -/
theorem ascending_order (filed : nest.kernel.IsFiled) : nest.order.Pairwise (· < ·) := by
  have distinct : (nest.kernel.loops.map Prod.fst).Pairwise (fun first second => first ≠ second) :=
    List.pairwise_map.mpr (filed.loops.imp (fun different => by simpa using different))
  exact Register.ascending_sort distinct

end LoopNest

end KernelFootprint
