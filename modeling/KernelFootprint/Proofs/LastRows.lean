import KernelFootprint.Proofs.Filing
import Mathlib.Data.List.Forall2
import Mathlib.Data.List.Induction

/-!
# Last rows

A catalogue depends on the last row of every key only. The records of a kernel, the trees that
are listed by themselves and the loops of phis are looked up as if the rows of their keys had
been searched from the end, whatever stands between these. Rows with different keys may
therefore change places, within every table.
-/

namespace KernelFootprint

namespace Register

variable {Key Entry : Type} [BEq Key]

theorem ofList_concat (entries : List (Key × Entry)) (last : Key × Entry) :
    ofList (entries ++ [last]) = insert last.1 last.2 (ofList entries) := by
  rw [ofList, insertAll, List.foldl_append]
  rfl

variable [LawfulBEq Key]

theorem isRegister_ofList (entries : List (Key × Entry)) : IsRegister (ofList entries) := by
  induction entries using List.reverseRecOn with
  | nil => exact .nil
  | append_singleton earlier last ih =>
      rw [ofList_concat]
      exact ih.insert

/-- The last entry with a key is the one that is found. -/
theorem find_ofList (key : Key) (entries : List (Key × Entry)) :
    find key (ofList entries) =
      ((entries.filter (fun entry => entry.1 == key)).getLast?).map Prod.snd := by
  induction entries using List.reverseRecOn with
  | nil => rfl
  | append_singleton earlier last ih =>
      rw [ofList_concat]
      by_cases same : last.1 = key
      · subst same
        simp [find_insert_self]
      · rw [find_insert_of_ne (Ne.symm same), ih]
        simp [same]

end Register

/-- Kernels of one name with the same loops, accesses and phi loops, in whatever order these
are kept. -/
structure KernelRecord.Agrees (kernel other : KernelRecord) : Prop where
  name : (kernel.name == other.name) = true
  loops : ∀ id, Register.find id kernel.loops = Register.find id other.loops
  accesses : ∀ id, Register.find id kernel.accesses = Register.find id other.accesses
  phiLoops : ∀ phi, Register.find phi kernel.phiLoops = Register.find phi other.phiLoops

namespace Catalogue

section Reading

variable {Row Record : Type} {read : Row → Reading Record} {rows : List Row}
  {records : List Record}

/-- Rows are read if each of them is. -/
theorem exists_mapM_iff :
    (∃ records, rows.mapM read = .ok records) ↔ ∀ row ∈ rows, ∃ record, read row = .ok record := by
  induction rows with
  | nil => exact ⟨fun _ => List.forall_mem_nil _, fun _ => ⟨[], rfl⟩⟩
  | cons first rest ih =>
      rw [List.forall_mem_cons, ← ih, List.mapM_cons]
      constructor
      · rintro ⟨records, all⟩
        obtain ⟨record, onFirst, all⟩ := Postfix.bind_eq_ok.mp all
        obtain ⟨others, onRest, _⟩ := Postfix.bind_eq_ok.mp all
        exact ⟨⟨record, onFirst⟩, others, onRest⟩
      · rintro ⟨⟨record, onFirst⟩, others, onRest⟩
        refine ⟨record :: others, ?_⟩
        rw [onFirst, onRest]
        rfl

/-- In whichever order they are read. -/
theorem exists_mapM_of_perm {others : List Row} (all : rows.mapM read = .ok records)
    (perm : rows.Perm others) : ∃ records, others.mapM read = .ok records :=
  exists_mapM_iff.mpr (fun row member =>
    exists_mapM_iff.mp ⟨records, all⟩ row (perm.mem_iff.mpr member))

theorem forall₂_of_mapM (all : rows.mapM read = .ok records) :
    List.Forall₂ (fun row record => read row = .ok record) rows records := by
  induction rows generalizing records with
  | nil =>
      cases all
      exact .nil
  | cons first rest ih =>
      rw [List.mapM_cons] at all
      obtain ⟨record, onFirst, all⟩ := Postfix.bind_eq_ok.mp all
      obtain ⟨others, onRest, same⟩ := Postfix.bind_eq_ok.mp all
      cases same
      exact .cons onFirst (ih onRest)

/-- What rows and the records they are read as have in common holds of some of both or none. -/
theorem exists_mem_iff (all : rows.mapM read = .ok records) {onRow : Row → Prop}
    {onRecord : Record → Prop}
    (same : ∀ row record, read row = .ok record → (onRow row ↔ onRecord record)) :
    (∃ row ∈ rows, onRow row) ↔ ∃ record ∈ records, onRecord record := by
  have together := forall₂_of_mapM all
  clear all
  induction together with
  | nil => simp
  | cons onFirst _ ih => simp [same _ _ onFirst, ih]

theorem rel_getLast? {related : Row → Record → Prop}
    (together : List.Forall₂ related rows records) :
    Option.Rel related rows.getLast? records.getLast? := by
  have backward := List.rel_reverse together
  rw [← List.head?_reverse, ← List.head?_reverse]
  generalize rows.reverse = lastRows, records.reverse = lastRecords at backward ⊢
  cases backward with
  | nil => exact .none
  | cons onLast _ => exact .some onLast

theorem rel_or {related : Row → Record → Prop} {first second : Option Row}
    {record other : Option Record} (onFirst : Option.Rel related first record)
    (onSecond : Option.Rel related second other) :
    Option.Rel related (first.or second) (record.or other) := by
  cases onFirst with
  | none => exact onSecond
  | some related => exact .some related

theorem eq_of_rel {related : Row → Record → Prop} {row : Option Row}
    {record other : Option Record}
    (functional : ∀ row record other, related row record → related row other → record = other)
    (onRow : Option.Rel related row record) (again : Option.Rel related row other) :
    record = other := by
  cases onRow with
  | none =>
      cases again
      rfl
  | some onRow =>
      cases again with
      | some again => rw [functional _ _ _ onRow again]

/-- What is read of a row is a part of its record. -/
theorem bind_eq_map_of_rel {Part : Type} {readPart : Row → Option Part} {part : Record → Part}
    {row : Option Row} {record : Option Record}
    (related : Option.Rel (fun row record => readPart row = some (part record)) row record) :
    row.bind readPart = record.map part := by
  cases related with
  | none => rfl
  | some read => exact read

end Reading

section Keys

variable {Row Key : Type} [BEq Key] {key : Row → Key}

/-- The last row with a key. -/
def lastWith (key : Row → Key) (sought : Key) (rows : List Row) : Option Row :=
  (rows.filter (fun row => key row == sought)).getLast?

/-- The last record of a kind is that of the last row with a key if records are of the kind
when their rows have the key. -/
theorem rel_lastWith {Record : Type} {read : Row → Reading Record} {rows : List Row}
    {records : List Record} {related : Row → Record → Prop} {sought : Key}
    {isOf : Record → Bool} (all : rows.mapM read = .ok records)
    (each : ∀ row record, read row = .ok record →
      related row record ∧ (key row == sought) = isOf record) :
    Option.Rel related (lastWith key sought rows) (records.filter isOf).getLast? := by
  have together := (forall₂_of_mapM all).imp each
  have kept := List.rel_filter (fun row record both => Bool.eq_iff_iff.mp both.2) together
  exact rel_getLast? (kept.imp (fun _ _ both => both.1))

/-- The same rows, those with equal keys in the same order. -/
structure IsReordering (key : Row → Key) (rows others : List Row) : Prop where
  perm : rows.Perm others
  filter : ∀ sought, rows.filter (fun row => key row == sought) =
    others.filter (fun row => key row == sought)

theorem IsReordering.lastWith {rows others : List Row} (reordered : IsReordering key rows others)
    (sought : Key) : lastWith key sought rows = lastWith key sought others := by
  rw [Catalogue.lastWith, reordered.filter sought, Catalogue.lastWith]

end Keys

section Names

variable {names sorted : List (Datum.Key × Datum)} {key : Datum.Key} {name : Datum}

theorem areComparable_comm (first second : Datum.Key) :
    areComparable first second = areComparable second first := by
  cases first <;> cases second <;> rfl

theorem areComparable_trans {first second third : Datum.Key}
    (onFirst : areComparable first second = true) (onThird : areComparable second third = true) :
    areComparable first third = true := by
  cases first <;> cases second <;> cases third <;> simp_all [areComparable]

theorem mem_ofList_reverse :
    (∃ name, (key, name) ∈ Register.ofList names.reverse) ↔ ∃ name, (key, name) ∈ names := by
  constructor
  · rintro ⟨name, member⟩
    exact ⟨name, List.mem_reverse.mp (Register.mem_of_mem_ofList member)⟩
  · rintro ⟨name, member⟩
    obtain ⟨found, present⟩ := Register.exists_find_ofList (List.mem_reverse.mpr member)
    exact ⟨found, Register.mem_of_find_eq_some present⟩

/-- Sorting loses no name and makes none up. -/
theorem find_sortNames (returned : sortNames names = .ok sorted) :
    ((∃ name, Register.find key sorted = some name) ↔ ∃ name, (key, name) ∈ names) ∧
      ∀ name, Register.find key sorted = some name → (key, name) ∈ names := by
  have same : ∀ entry, entry ∈ sorted ↔ entry ∈ Register.ofList names.reverse := by
    unfold sortNames at returned
    split at returned
    · next nothing =>
        cases returned
        rw [nothing]
        exact fun _ => Iff.rfl
    · next listed =>
        split at returned
        · cases returned
          rw [listed]
          exact fun _ => Register.mem_sort
        · cases returned
  have among : ∀ name, Register.find key sorted = some name → (key, name) ∈ names :=
    fun name found => List.mem_reverse.mp (Register.mem_of_mem_ofList
      ((same _).mp (Register.mem_of_find_eq_some found)))
  refine ⟨⟨fun ⟨name, found⟩ => ⟨name, among name found⟩, fun present => ?_⟩, among⟩
  obtain ⟨name, member⟩ := mem_ofList_reverse.mpr present
  exact Register.exists_find_of_mem ((same _).mpr member)

/-- Names can be sorted if any two of them are alike. -/
theorem exists_sortNames_iff :
    (∃ sorted, sortNames names = .ok sorted) ↔
      ∀ first ∈ names, ∀ second ∈ names,
        first.1 = second.1 ∨ areComparable first.1 second.1 = true := by
  have listed : ∀ name ∈ names, ∃ other ∈ Register.ofList names.reverse, other.1 = name.1 := by
    intro name member
    obtain ⟨other, present⟩ := mem_ofList_reverse.mpr ⟨name.2, member⟩
    exact ⟨(name.1, other), present, rfl⟩
  have distinct := Register.isRegister_ofList names.reverse
  have given : ∀ name ∈ Register.ofList names.reverse, name ∈ names :=
    fun name member => List.mem_reverse.mp (Register.mem_of_mem_ofList member)
  rw [sortNames]
  generalize Register.ofList names.reverse = unsorted at listed distinct given
  cases unsorted with
  | nil =>
      refine ⟨fun _ name member => ?_, fun _ => ⟨[], rfl⟩⟩
      obtain ⟨_, absent, _⟩ := listed name member
      cases absent
  | cons head rest =>
      constructor
      · rintro ⟨sorted, returned⟩
        dsimp only at returned
        split at returned
        · next alike =>
            have onRest := List.all_eq_true.mp alike
            have onAll : ∀ name ∈ names,
                head.1 = name.1 ∨ areComparable head.1 name.1 = true := by
              intro name member
              obtain ⟨other, present, same⟩ := listed name member
              rw [← same]
              rcases List.mem_cons.mp present with rfl | among
              · exact .inl rfl
              · exact .inr (onRest other among)
            intro first onFirst second onSecond
            rcases onAll first onFirst with same | comparable
            · rw [← same]
              exact onAll second onSecond
            · rw [areComparable_comm] at comparable
              rcases onAll second onSecond with same | further
              · exact .inr (same ▸ comparable)
              · exact .inr (areComparable_trans comparable further)
        · cases returned
      · intro alike
        have comparable : rest.all (fun name => areComparable head.1 name.1) = true := by
          refine List.all_eq_true.mpr (fun name member => ?_)
          have onHead := given head (List.mem_cons_self ..)
          have onName := given name (List.mem_cons_of_mem head member)
          refine (alike head onHead name onName).resolve_left (fun same => ?_)
          exact beq_eq_false_iff_ne.mp ((List.pairwise_cons.mp distinct).1 name member) same
        exact ⟨_, if_pos comparable⟩

end Names

section Rows

variable {settings : Settings} {datum tokens : Datum} {row : Row} {name : AccessName}

/-- The kernel that a row is about and the number that it gives to a loop or an access. -/
def numbered (number : String) (datum : Datum) : Option (Datum.Key × Int) :=
  match datum with
  | .table row => do
      let kernel ← Datum.field? "kernel_name" row
      let id ← (requiredInteger row number).toOption
      return (← kernel.key?, id)
  | _ => none

/-- The kernel that a row about a phi names, if it names any, and the number of the phi. -/
def phiNamed (datum : Datum) : Option (Option Datum.Key × Int) :=
  match datum with
  | .table row => do
      let phi ← (requiredInteger row "phi_id").toOption
      match (Datum.field? "kernel_name" row).getD .null with
      | .null => return (none, phi)
      | kernel => return (some (← kernel.key?), phi)
  | _ => none

/-- The loop in a row about a phi. -/
def phiLoop? (datum : Datum) : Option Int :=
  match datum with
  | .table row => (requiredInteger row "loop_id").toOption
  | _ => none

/-- The tokens in a row about a tree. -/
def treeTokens? (datum : Datum) : Option Datum :=
  match datum with
  | .table row => Datum.field? "tree_tokens" row
  | _ => none

theorem toKey_eq_ok {name : Datum} {key : Datum.Key} :
    name.toKey = .ok key ↔ name.key? = some key := by
  unfold Datum.toKey
  cases name.key? with
  | none => exact ⟨nofun, nofun⟩
  | some found => simp

theorem required_eq_ok {name : String} {entry : Datum} :
    Datum.required name row = .ok entry ↔ Datum.field? name row = some entry := by
  unfold Datum.required
  cases Datum.field? name row with
  | none => exact ⟨nofun, nofun⟩
  | some found => simp

theorem entries_eq_ok : datum.entries = .ok row ↔ datum = .table row := by
  cases datum <;> simp [Datum.entries]

theorem kernelOf_eq_ok {kernel : Datum} :
    kernelOf row = .ok kernel ↔ Datum.field? "kernel_name" row = some kernel :=
  reading_eq_ok.trans required_eq_ok

theorem numbered_of_eq_ok {number : String} {kernel : Datum} {key : Datum.Key} {id : Int}
    (named : kernelOf row = .ok kernel) (serves : kernel.key? = some key)
    (given : requiredInteger row number = .ok id) :
    numbered number (.table row) = some (key, id) := by
  simp [numbered, kernelOf_eq_ok.mp named, serves, given, Except.toOption]

theorem catalogued_eq_ok {Record : Type} {kernel : Record → Datum} {record result : Record}
    (read : catalogued kernel record = .ok result) :
    record = result ∧ ∃ key, (kernel result).key? = some key := by
  obtain ⟨key, serves, same⟩ := Postfix.bind_eq_ok.mp read
  cases same
  exact ⟨rfl, key, toKey_eq_ok.mp (reading_eq_ok.mp serves)⟩

/-- The record of a loop that a row is read as. -/
def readLoop (settings : Settings) (datum : Datum) : Reading LoopRecord := do
  let row ← reading datum.entries
  catalogued LoopRecord.kernel (← loopRecord settings row)

/-- Whether a loop is what a row is read as. -/
def IsLoopOf (settings : Settings) (datum : Datum) (record : LoopRecord) : Prop :=
  ∃ row, datum = .table row ∧ loopRecord settings row = .ok record

/-- A row is read as one record at most. -/
theorem eq_of_table {Record : Type} {read : Row → Reading Record} {record other : Record}
    (first : ∃ row, datum = .table row ∧ read row = .ok record)
    (second : ∃ row, datum = .table row ∧ read row = .ok other) : record = other := by
  obtain ⟨row, rfl, onFirst⟩ := first
  obtain ⟨_, same, onSecond⟩ := second
  cases same
  exact Except.ok.inj (onFirst.symm.trans onSecond)

theorem names_of_loopRecord {record : LoopRecord} (read : loopRecord settings row = .ok record) :
    kernelOf row = .ok record.kernel ∧ requiredInteger row "loop_id" = .ok record.id := by
  obtain ⟨kernel, onKernel, read⟩ := Postfix.bind_eq_ok.mp read
  obtain ⟨id, onId, read⟩ := Postfix.bind_eq_ok.mp read
  obtain ⟨_, _, read⟩ := Postfix.bind_eq_ok.mp read
  obtain ⟨_, _, read⟩ := Postfix.bind_eq_ok.mp read
  obtain ⟨_, _, read⟩ := Postfix.bind_eq_ok.mp read
  obtain ⟨_, _, read⟩ := Postfix.bind_eq_ok.mp read
  obtain ⟨_, _, read⟩ := Postfix.bind_eq_ok.mp read
  obtain ⟨_, _, same⟩ := Postfix.bind_eq_ok.mp read
  cases same
  exact ⟨onKernel, onId⟩

theorem names_of_accessRecord {record : AccessRecord}
    (read : accessRecord settings row tokens = .ok record) :
    kernelOf row = .ok record.kernel ∧ requiredInteger row "access_id" = .ok record.id := by
  obtain ⟨kernel, onKernel, read⟩ := Postfix.bind_eq_ok.mp read
  obtain ⟨id, onId, read⟩ := Postfix.bind_eq_ok.mp read
  obtain ⟨_, _, read⟩ := Postfix.bind_eq_ok.mp read
  obtain ⟨_, _, read⟩ := Postfix.bind_eq_ok.mp read
  obtain ⟨_, _, read⟩ := Postfix.bind_eq_ok.mp read
  obtain ⟨_, _, read⟩ := Postfix.bind_eq_ok.mp read
  obtain ⟨_, _, read⟩ := Postfix.bind_eq_ok.mp read
  obtain ⟨_, _, same⟩ := Postfix.bind_eq_ok.mp read
  cases same
  exact ⟨onKernel, onId⟩

theorem readLoop_eq_ok {record : LoopRecord} (read : readLoop settings datum = .ok record) :
    IsLoopOf settings datum record ∧ ∃ key, record.kernel.key? = some key ∧
      numbered "loop_id" datum = some (key, record.id) := by
  obtain ⟨row, entries, read⟩ := Postfix.bind_eq_ok.mp read
  obtain ⟨made, recorded, read⟩ := Postfix.bind_eq_ok.mp read
  obtain ⟨rfl, key, serves⟩ := catalogued_eq_ok read
  cases entries_eq_ok.mp (reading_eq_ok.mp entries)
  obtain ⟨onKernel, onId⟩ := names_of_loopRecord recorded
  exact ⟨⟨row, rfl, recorded⟩, key, serves, numbered_of_eq_ok onKernel serves onId⟩

theorem numbered_of_accessName {access : Datum × Int} (onAccess : accessOf row = .ok access)
    (onName : accessName access = .ok name) : numbered "access_id" (.table row) = some name := by
  obtain ⟨kernel, onKernel, onAccess⟩ := Postfix.bind_eq_ok.mp onAccess
  obtain ⟨id, onId, same⟩ := Postfix.bind_eq_ok.mp onAccess
  cases same
  obtain ⟨key, onKey, same⟩ := Postfix.bind_eq_ok.mp onName
  cases same
  exact numbered_of_eq_ok onKernel (toKey_eq_ok.mp (reading_eq_ok.mp onKey)) onId

theorem separateTree_eq_ok (read : separateTree datum = .ok (name, tokens)) :
    numbered "access_id" datum = some name ∧ treeTokens? datum = some tokens := by
  obtain ⟨row, entries, read⟩ := Postfix.bind_eq_ok.mp read
  obtain ⟨access, onAccess, read⟩ := Postfix.bind_eq_ok.mp read
  obtain ⟨found, onTokens, read⟩ := Postfix.bind_eq_ok.mp read
  obtain ⟨other, onName, same⟩ := Postfix.bind_eq_ok.mp read
  cases same
  cases entries_eq_ok.mp (reading_eq_ok.mp entries)
  exact ⟨numbered_of_accessName onAccess onName, required_eq_ok.mp (reading_eq_ok.mp onTokens)⟩

/-- The tree tokens of an access: its own, or else those in the last row about its tree. -/
def nestedTokens (trees : List Datum) (row : Row) : Datum :=
  let own := (Datum.field? "tree_tokens" row).getD .null
  if own.holds then own
  else ((lastWith (numbered "access_id") (numbered "access_id" (.table row)) trees).bind
    treeTokens?).getD (.list [])

/-- Whether an access is what a row is read as, given the rows about trees. -/
def IsAccessOf (settings : Settings) (trees : List Datum) (datum : Datum)
    (record : AccessRecord) : Prop :=
  ∃ row, datum = .table row ∧ accessRecord settings row (nestedTokens trees row) = .ok record

variable {trees : List Datum} {separate : List (AccessName × Datum)}

theorem find_separate (read : trees.mapM separateTree = .ok separate) (name : AccessName) :
    Register.find name (Register.ofList separate) =
      (lastWith (numbered "access_id") (some name) trees).bind treeTokens? := by
  have each (datum : Datum) (entry : AccessName × Datum) (read : separateTree datum = .ok entry) :
      treeTokens? datum = some entry.2 ∧
        (numbered "access_id" datum == some name) = (entry.1 == name) := by
    obtain ⟨named, tokens⟩ := separateTree_eq_ok read
    rw [named]
    exact ⟨tokens, rfl⟩
  rw [Register.find_ofList]
  exact (bind_eq_map_of_rel (rel_lastWith read each)).symm

theorem treeTokens_eq_ok (read : trees.mapM separateTree = .ok separate)
    (found : treeTokens (Register.ofList separate) row = .ok tokens) :
    tokens = nestedTokens trees row := by
  obtain ⟨access, onAccess, found⟩ := Postfix.bind_eq_ok.mp found
  unfold nestedTokens
  dsimp only at found ⊢
  split at found
  · next own =>
      cases found
      rw [if_pos own]
  · next none =>
      obtain ⟨name, onName, same⟩ := Postfix.bind_eq_ok.mp found
      cases same
      rw [if_neg none, find_separate read, numbered_of_accessName onAccess onName]

theorem readAccess_eq_ok (onTrees : trees.mapM separateTree = .ok separate) {record : AccessRecord}
    (read : readAccess settings (Register.ofList separate) datum = .ok record) :
    IsAccessOf settings trees datum record ∧ ∃ key, record.kernel.key? = some key ∧
      numbered "access_id" datum = some (key, record.id) := by
  obtain ⟨row, entries, read⟩ := Postfix.bind_eq_ok.mp read
  obtain ⟨tokens, found, read⟩ := Postfix.bind_eq_ok.mp read
  obtain ⟨made, recorded, read⟩ := Postfix.bind_eq_ok.mp read
  obtain ⟨rfl, key, serves⟩ := catalogued_eq_ok read
  cases entries_eq_ok.mp (reading_eq_ok.mp entries)
  cases treeTokens_eq_ok onTrees found
  obtain ⟨onKernel, onId⟩ := names_of_accessRecord recorded
  exact ⟨⟨row, rfl, recorded⟩, key, serves, numbered_of_eq_ok onKernel serves onId⟩

theorem phiKernel_eq_ok {found kernel : Option Datum} (read : phiKernel found = .ok kernel) :
    found.getD .null = .null ∧ kernel = none ∨
      ∃ name key, found = some name ∧ name ≠ .null ∧ kernel = some name ∧
        name.key? = some key := by
  unfold phiKernel at read
  split at read
  · cases read
    exact .inl ⟨rfl, rfl⟩
  · cases read
    exact .inl ⟨rfl, rfl⟩
  · next name present =>
      obtain ⟨key, serves, same⟩ := Postfix.bind_eq_ok.mp read
      cases same
      exact .inr ⟨name, key, rfl, present, rfl, toKey_eq_ok.mp (reading_eq_ok.mp serves)⟩

theorem phiRow_eq_ok {phi : PhiRow} (read : phiRow datum = .ok phi) :
    phiNamed datum = some (phi.kernel.bind Datum.key?, phi.phi) ∧
      phiLoop? datum = some phi.loop ∧
        ∀ name, phi.kernel = some name → ∃ key, name.key? = some key := by
  unfold phiRow at read
  split at read
  · next row =>
      obtain ⟨kernel, onKernel, read⟩ := Postfix.bind_eq_ok.mp read
      obtain ⟨loop, onLoop, read⟩ := Postfix.bind_eq_ok.mp read
      obtain ⟨number, onNumber, same⟩ := Postfix.bind_eq_ok.mp read
      cases same
      have onLoop : phiLoop? (.table row) = some loop := by simp [phiLoop?, onLoop, Except.toOption]
      rcases phiKernel_eq_ok onKernel with ⟨absent, rfl⟩ | ⟨name, key, named, present, rfl, serves⟩
      · refine ⟨by simp [phiNamed, onNumber, absent, Except.toOption], onLoop, ?_⟩
        rintro _ ⟨⟩
      · refine ⟨?_, onLoop, fun other same => ⟨key, Option.some.inj same ▸ serves⟩⟩
        cases name with
        | null => exact absurd rfl present
        | _ => simp [phiNamed, onNumber, named, serves, Except.toOption]
  · cases read

end Rows

section Records

variable {loops : List LoopRecord} {accesses : List AccessRecord} {phis : List PhiRow}
  {catalogue : Catalogue} {key : Datum.Key}

theorem grouped_concat {Entry : Type} (entries : List (Datum.Key × Int × Entry))
    (last : Datum.Key × Int × Entry) :
    grouped (entries ++ [last]) = insertIn last.1 last.2.1 last.2.2 (grouped entries) := by
  rw [grouped, List.foldl_append]
  rfl

/-- The last record of a kernel with a number is the one that is found. -/
theorem lookUp_keyed {Record : Type} (kernel : Record → Datum) (number : Record → Int)
    (records : List Record) (key : Datum.Key) (id : Int) :
    lookUp key id (grouped ((keyed kernel records).map
        (fun entry => (entry.1, number entry.2, entry.2)))) =
      (records.filter
        (fun record => (kernel record).key? == some key && number record == id)).getLast? := by
  induction records using List.reverseRecOn with
  | nil => rfl
  | append_singleton earlier last ih =>
      rw [List.filter_append, List.getLast?_append, ← ih, keyed, List.filterMap_append]
      cases serves : (kernel last).key? with
      | none => simp [serves, keyed]
      | some other =>
          have added : [last].filterMap
              (fun record => (kernel record).key?.map (fun key => (key, record))) =
                [(other, last)] := by simp [serves]
          rw [added, List.map_append, List.map_singleton, grouped_concat]
          by_cases same : other = key ∧ number last = id
          · obtain ⟨rfl, rfl⟩ := same
            rw [lookUp_insertIn_self]
            simp [serves]
          · rw [lookUp_insertIn_of_ne same]
            have apart : ((kernel last).key? == some key && number last == id) = false := by
              simpa [serves] using same
            simp [apart, keyed]

/-- The loop of a phi is that of the last row for the kernel, or else of the last for all. -/
theorem find_phiLoopsOf (phis : List PhiRow) (key : Datum.Key) (phi : Int) :
    Register.find phi (phiLoopsOf phis key) =
      ((phis.filter (fun row => row.phi == phi && row.names key)).getLast?.or
        (phis.filter (fun row => row.phi == phi && row.isShared)).getLast?).map PhiRow.loop := by
  rw [phiLoopsOf, Register.find_ofList]
  simp only [List.map_append, List.filter_append, List.getLast?_append, List.filter_map,
    List.filter_filter, List.getLast?_map, Function.comp_def]
  rw [← Option.map_or, Option.map_map]
  rfl

/-- The names in the rows of the tables. -/
def namesIn (loops : List LoopRecord) (accesses : List AccessRecord) (phis : List PhiRow) :
    List (Datum.Key × Datum) :=
  (keyed LoopRecord.kernel loops).map (fun loop => (loop.1, loop.2.kernel)) ++
    (keyed AccessRecord.kernel accesses).map (fun access => (access.1, access.2.kernel)) ++
    keyed id (phis.filterMap PhiRow.kernel)

theorem mem_keyed {Record : Type} {kernel : Record → Datum} {records : List Record}
    {record : Record} :
    (key, record) ∈ keyed kernel records ↔
      record ∈ records ∧ (kernel record).key? = some key := by
  simp only [keyed, List.mem_filterMap, Option.map_eq_some_iff, Prod.mk.injEq]
  constructor
  · rintro ⟨other, member, found, serves, rfl, rfl⟩
    exact ⟨member, serves⟩
  · rintro ⟨member, serves⟩
    exact ⟨record, member, key, serves, rfl, rfl⟩

theorem mem_namesIn {name : Datum} :
    (key, name) ∈ namesIn loops accesses phis ↔ name.key? = some key ∧
      ((∃ loop ∈ loops, loop.kernel = name) ∨ (∃ access ∈ accesses, access.kernel = name) ∨
        ∃ phi ∈ phis, phi.kernel = some name) := by
  have onRecords {Record : Type} (kernel : Record → Datum) (records : List Record) :
      (key, name) ∈ (keyed kernel records).map (fun entry => (entry.1, kernel entry.2)) ↔
        name.key? = some key ∧ ∃ record ∈ records, kernel record = name := by
    simp only [List.mem_map, Prod.mk.injEq, Prod.exists]
    constructor
    · rintro ⟨_, record, member, rfl, rfl⟩
      obtain ⟨inside, serves⟩ := mem_keyed.mp member
      exact ⟨serves, record, inside, rfl⟩
    · rintro ⟨serves, record, inside, rfl⟩
      exact ⟨key, record, mem_keyed.mpr ⟨inside, serves⟩, rfl, rfl⟩
  have onPhis : (key, name) ∈ keyed id (phis.filterMap PhiRow.kernel) ↔
      name.key? = some key ∧ ∃ phi ∈ phis, phi.kernel = some name := by
    rw [mem_keyed, List.mem_filterMap, and_comm]
    rfl
  rw [namesIn, List.mem_append, List.mem_append, onRecords, onRecords, onPhis, ← and_or_left,
    ← and_or_left, or_assoc]

theorem exists_mem_namesIn :
    (∃ name, (key, name) ∈ namesIn loops accesses phis) ↔
      (∃ loop ∈ loops, loop.kernel.key? = some key) ∨
        (∃ access ∈ accesses, access.kernel.key? = some key) ∨
          ∃ phi ∈ phis, phi.kernel.bind Datum.key? = some key := by
  simp only [mem_namesIn]
  constructor
  · rintro ⟨name, serves, ⟨loop, member, rfl⟩ | ⟨access, member, rfl⟩ | ⟨phi, member, named⟩⟩
    · exact .inl ⟨loop, member, serves⟩
    · exact .inr (.inl ⟨access, member, serves⟩)
    · exact .inr (.inr ⟨phi, member, named ▸ serves⟩)
  · rintro (⟨loop, member, serves⟩ | ⟨access, member, serves⟩ | ⟨phi, member, serves⟩)
    · exact ⟨_, serves, .inl ⟨loop, member, rfl⟩⟩
    · exact ⟨_, serves, .inr (.inl ⟨access, member, rfl⟩)⟩
    · obtain ⟨name, named, serves⟩ := Option.bind_eq_some_iff.mp serves
      exact ⟨name, serves, .inr (.inr ⟨phi, member, named⟩)⟩

/-- The record of a kernel that is put together from the records of all kernels. -/
def recordOf (loops : List LoopRecord) (accesses : List AccessRecord) (phis : List PhiRow)
    (key : Datum.Key) (name : Datum) : KernelRecord where
  name := name
  loops := (Register.find key (grouped ((keyed LoopRecord.kernel loops).map
    (fun loop => (loop.1, loop.2.id, loop.2))))).getD []
  accesses := (Register.find key (grouped ((keyed AccessRecord.kernel accesses).map
    (fun access => (access.1, access.2.id, access.2))))).getD []
  phiLoops := phiLoopsOf phis key

theorem ofRecords_eq_ok : ofRecords loops accesses phis = .ok catalogue ↔
    ∃ names, sortNames (namesIn loops accesses phis) = .ok names ∧
      names.map (fun entry => (entry.1, recordOf loops accesses phis entry.1 entry.2)) =
        catalogue := by
  unfold ofRecords
  rw [Postfix.bind_eq_ok]
  constructor
  · rintro ⟨names, sorted, same⟩
    exact ⟨names, sorted, Except.ok.inj same⟩
  · rintro ⟨names, sorted, rfl⟩
    exact ⟨names, sorted, rfl⟩

theorem find_ofRecords (made : ofRecords loops accesses phis = .ok catalogue) :
    ((∃ kernel, Register.find key catalogue = some kernel) ↔
        ∃ name, (key, name) ∈ namesIn loops accesses phis) ∧
      ∀ kernel, Register.find key catalogue = some kernel → ∃ name, name.key? = some key ∧
        kernel = recordOf loops accesses phis key name := by
  obtain ⟨names, sorted, rfl⟩ := ofRecords_eq_ok.mp made
  obtain ⟨present, among⟩ := @find_sortNames _ _ key sorted
  rw [Register.find_map (recordOf loops accesses phis)]
  rw [← present]
  constructor
  · simp
  · intro kernel found
    obtain ⟨name, onName, rfl⟩ := Option.map_eq_some_iff.mp found
    exact ⟨name, (mem_namesIn.mp (among name onName)).1, rfl⟩

end Records

/-- Catalogues of which nothing tells them apart that is looked up in them. -/
def Agrees (catalogue other : Catalogue) : Prop :=
  ∀ key, Option.Rel KernelRecord.Agrees (Register.find key catalogue) (Register.find key other)

/-- The rows of the four tables. -/
structure TableRows where
  loops : List Datum
  accesses : List Datum
  trees : List Datum
  phis : List Datum

/-- The tables hold these rows. -/
structure TableRows.AreIn (given : TableRows) (tables : Tables) : Prop where
  loops : rows tables.loopRows = .ok given.loops
  accesses : rows tables.accessRows = .ok given.accesses
  trees : rows tables.accessTreeRows = .ok given.trees
  phis : rows tables.phiLoopRows = .ok given.phis

/-- Whether a row about a loop, an access or a phi names a kernel. -/
def TableRows.Mention (given : TableRows) (key : Datum.Key) : Prop :=
  (∃ row ∈ given.loops, ∃ id, numbered "loop_id" row = some (key, id)) ∨
    (∃ row ∈ given.accesses, ∃ id, numbered "access_id" row = some (key, id)) ∨
      ∃ row ∈ given.phis, ∃ phi, phiNamed row = some (some key, phi)

/-- The same rows in every table, those with equal keys in the same order. -/
structure TableRows.IsReordering (given others : TableRows) : Prop where
  loops : Catalogue.IsReordering (numbered "loop_id") given.loops others.loops
  accesses : Catalogue.IsReordering (numbered "access_id") given.accesses others.accesses
  trees : Catalogue.IsReordering (numbered "access_id") given.trees others.trees
  phis : Catalogue.IsReordering phiNamed given.phis others.phis

/-- The kernels are those that are mentioned, and each has what the last row of every key
says. -/
structure IsOfLastRows (settings : Settings) (given : TableRows) (catalogue : Catalogue) :
    Prop where
  present : ∀ key, (∃ kernel, Register.find key catalogue = some kernel) ↔ given.Mention key
  named : ∀ key kernel, Register.find key catalogue = some kernel → kernel.name.key? = some key
  loops : ∀ key kernel, Register.find key catalogue = some kernel → ∀ id,
    Option.Rel (IsLoopOf settings)
      (lastWith (numbered "loop_id") (some (key, id)) given.loops)
      (Register.find id kernel.loops)
  accesses : ∀ key kernel, Register.find key catalogue = some kernel → ∀ id,
    Option.Rel (IsAccessOf settings given.trees)
      (lastWith (numbered "access_id") (some (key, id)) given.accesses)
      (Register.find id kernel.accesses)
  phiLoops : ∀ key kernel, Register.find key catalogue = some kernel → ∀ phi,
    Register.find phi kernel.phiLoops =
      ((lastWith phiNamed (some (some key, phi)) given.phis).or
        (lastWith phiNamed (some (none, phi)) given.phis)).bind phiLoop?
  loopForPhi : ∀ key kernel, Register.find key catalogue = some kernel → ∀ phi otherwise,
    kernel.loopForPhi (some phi) otherwise =
      ((((lastWith phiNamed (some (some key, phi)) given.phis).or
        (lastWith phiNamed (some (none, phi)) given.phis)).bind phiLoop?).map
          Datum.integer).getD otherwise

/-- The records that the rows are read as. -/
structure AreRead (settings : Settings) (given : TableRows) (loops : List LoopRecord)
    (separate : List (AccessName × Datum)) (accesses : List AccessRecord) (phis : List PhiRow) :
    Prop where
  loops : given.loops.mapM (readLoop settings) = .ok loops
  trees : given.trees.mapM separateTree = .ok separate
  accesses : given.accesses.mapM (readAccess settings (Register.ofList separate)) = .ok accesses
  phis : given.phis.mapM phiRow = .ok phis

section Tables

variable {settings : Settings} {tables : Tables} {given others : TableRows}
  {loops : List LoopRecord} {separate : List (AccessName × Datum)} {accesses : List AccessRecord}
  {phis : List PhiRow} {catalogue : Catalogue} {key : Datum.Key}

theorem ofTables_eq_ok : ofTables settings tables = .ok catalogue ↔
    ∃ given loops separate accesses phis, given.AreIn tables ∧
      AreRead settings given loops separate accesses phis ∧
        ofRecords loops accesses phis = .ok catalogue := by
  constructor
  · intro built
    obtain ⟨loopRows, onLoopRows, built⟩ := Postfix.bind_eq_ok.mp built
    obtain ⟨loops, onLoops, built⟩ := Postfix.bind_eq_ok.mp built
    obtain ⟨treeRows, onTreeRows, built⟩ := Postfix.bind_eq_ok.mp built
    obtain ⟨separate, onTrees, built⟩ := Postfix.bind_eq_ok.mp built
    obtain ⟨accessRows, onAccessRows, built⟩ := Postfix.bind_eq_ok.mp built
    obtain ⟨accesses, onAccesses, built⟩ := Postfix.bind_eq_ok.mp built
    obtain ⟨phiRows, onPhiRows, built⟩ := Postfix.bind_eq_ok.mp built
    obtain ⟨phis, onPhis, built⟩ := Postfix.bind_eq_ok.mp built
    exact ⟨⟨loopRows, accessRows, treeRows, phiRows⟩, loops, separate, accesses, phis,
      ⟨onLoopRows, onAccessRows, onTreeRows, onPhiRows⟩,
      ⟨onLoops, onTrees, onAccesses, onPhis⟩, built⟩
  · rintro ⟨given, loops, separate, accesses, phis, areIn, read, made⟩
    refine Postfix.bind_eq_ok.mpr ⟨_, areIn.loops, ?_⟩
    refine Postfix.bind_eq_ok.mpr ⟨_, read.loops, ?_⟩
    refine Postfix.bind_eq_ok.mpr ⟨_, areIn.trees, ?_⟩
    refine Postfix.bind_eq_ok.mpr ⟨_, read.trees, ?_⟩
    refine Postfix.bind_eq_ok.mpr ⟨_, areIn.accesses, ?_⟩
    refine Postfix.bind_eq_ok.mpr ⟨_, read.accesses, ?_⟩
    refine Postfix.bind_eq_ok.mpr ⟨_, areIn.phis, ?_⟩
    exact Postfix.bind_eq_ok.mpr ⟨_, read.phis, made⟩

theorem mention_iff (read : AreRead settings given loops separate accesses phis) :
    given.Mention key ↔ ∃ name, (key, name) ∈ namesIn loops accesses phis := by
  have onLoop (row : Datum) (record : LoopRecord) (read : readLoop settings row = .ok record) :
      (∃ id, numbered "loop_id" row = some (key, id)) ↔ record.kernel.key? = some key := by
    obtain ⟨_, other, serves, named⟩ := readLoop_eq_ok read
    simp [serves, named]
  have onAccess (row : Datum) (record : AccessRecord)
      (found : readAccess settings (Register.ofList separate) row = .ok record) :
      (∃ id, numbered "access_id" row = some (key, id)) ↔ record.kernel.key? = some key := by
    obtain ⟨_, other, serves, named⟩ := readAccess_eq_ok read.trees found
    simp [serves, named]
  have onPhi (row : Datum) (record : PhiRow) (read : phiRow row = .ok record) :
      (∃ phi, phiNamed row = some (some key, phi)) ↔
        record.kernel.bind Datum.key? = some key := by
    simp [(phiRow_eq_ok read).1]
  rw [exists_mem_namesIn, TableRows.Mention, exists_mem_iff read.loops onLoop,
    exists_mem_iff read.accesses onAccess, exists_mem_iff read.phis onPhi]

/-- Loops are found under the numbers in their rows. -/
theorem rel_loops (read : AreRead settings given loops separate accesses phis) (key : Datum.Key)
    (name : Datum) (id : Int) :
    Option.Rel (IsLoopOf settings) (lastWith (numbered "loop_id") (some (key, id)) given.loops)
      (Register.find id (recordOf loops accesses phis key name).loops) := by
  have found : Register.find id (recordOf loops accesses phis key name).loops = _ :=
    lookUp_keyed LoopRecord.kernel LoopRecord.id loops key id
  rw [found]
  refine rel_lastWith read.loops (fun row record read => ?_)
  obtain ⟨isOf, other, serves, named⟩ := readLoop_eq_ok read
  rw [serves, named]
  exact ⟨isOf, rfl⟩

/-- Accesses are found under the numbers in their rows. -/
theorem rel_accesses (read : AreRead settings given loops separate accesses phis)
    (key : Datum.Key) (name : Datum) (id : Int) :
    Option.Rel (IsAccessOf settings given.trees)
      (lastWith (numbered "access_id") (some (key, id)) given.accesses)
      (Register.find id (recordOf loops accesses phis key name).accesses) := by
  have found : Register.find id (recordOf loops accesses phis key name).accesses = _ :=
    lookUp_keyed AccessRecord.kernel AccessRecord.id accesses key id
  rw [found]
  refine rel_lastWith read.accesses (fun row record onRow => ?_)
  obtain ⟨isOf, other, serves, named⟩ := readAccess_eq_ok read.trees onRow
  rw [serves, named]
  exact ⟨isOf, rfl⟩

theorem PhiRow.isShared_eq {record : PhiRow}
    (serves : ∀ name, record.kernel = some name → ∃ key, name.key? = some key) :
    record.isShared = (record.kernel.bind Datum.key? == none) := by
  unfold isShared
  cases named : record.kernel with
  | none => rfl
  | some name =>
      obtain ⟨key, serves⟩ := serves name named
      simp [serves]

/-- Rows about a phi that name the kernel precede those that name none. -/
theorem find_phiLoops (read : AreRead settings given loops separate accesses phis)
    (key : Datum.Key) (phi : Int) :
    Register.find phi (phiLoopsOf phis key) =
      ((lastWith phiNamed (some (some key, phi)) given.phis).or
        (lastWith phiNamed (some (none, phi)) given.phis)).bind phiLoop? := by
  have last {whose : Option Datum.Key} {isOf : PhiRow → Bool}
      (same : ∀ record, (∀ name, record.kernel = some name → ∃ key, name.key? = some key) →
        isOf record = (record.kernel.bind Datum.key? == whose)) :
      Option.Rel (fun row record => phiLoop? row = some record.loop)
        (lastWith phiNamed (some (whose, phi)) given.phis)
        (phis.filter (fun record => record.phi == phi && isOf record)).getLast? := by
    refine rel_lastWith read.phis (fun row record read => ?_)
    obtain ⟨named, loop, serves⟩ := phiRow_eq_ok read
    rw [named, same record serves, Bool.and_comm]
    exact ⟨loop, rfl⟩
  have own := last (fun record _ => (rfl : record.names key = _))
  have shared := last (fun record => PhiRow.isShared_eq)
  rw [find_phiLoopsOf]
  exact (bind_eq_map_of_rel (rel_or own shared)).symm

theorem isOfLastRows (read : AreRead settings given loops separate accesses phis)
    (made : ofRecords loops accesses phis = .ok catalogue) :
    IsOfLastRows settings given catalogue := by
  have onKernel (key : Datum.Key) := @find_ofRecords loops accesses phis catalogue key made
  have phiLoops : ∀ key kernel, Register.find key catalogue = some kernel → ∀ phi,
      Register.find phi kernel.phiLoops =
        ((lastWith phiNamed (some (some key, phi)) given.phis).or
          (lastWith phiNamed (some (none, phi)) given.phis)).bind phiLoop? := by
    intro key kernel found phi
    obtain ⟨name, _, rfl⟩ := (onKernel key).2 kernel found
    exact find_phiLoops read key phi
  constructor
  case present => exact fun key => (onKernel key).1.trans (mention_iff read).symm
  case named =>
    intro key kernel found
    obtain ⟨name, serves, rfl⟩ := (onKernel key).2 kernel found
    exact serves
  case loops =>
    intro key kernel found id
    obtain ⟨name, _, rfl⟩ := (onKernel key).2 kernel found
    exact rel_loops read key name id
  case accesses =>
    intro key kernel found id
    obtain ⟨name, _, rfl⟩ := (onKernel key).2 kernel found
    exact rel_accesses read key name id
  case phiLoops => exact phiLoops
  case loopForPhi =>
    intro key kernel found phi otherwise
    rw [KernelRecord.loopForPhi, phiLoops key kernel found phi]

theorem mention_of_isReordering (reordered : given.IsReordering others) :
    given.Mention key ↔ others.Mention key := by
  simp only [TableRows.Mention, reordered.loops.perm.mem_iff, reordered.accesses.perm.mem_iff,
    reordered.phis.perm.mem_iff]

theorem isAccessOf_of_isReordering (reordered : given.IsReordering others) :
    IsAccessOf settings given.trees = IsAccessOf settings others.trees := by
  have same (row : Row) : nestedTokens given.trees row = nestedTokens others.trees row := by
    rw [nestedTokens, nestedTokens, reordered.trees.lastWith]
  funext datum record
  simp only [IsAccessOf, same]

/-- Catalogues of the same last rows agree. -/
theorem agrees_of_isReordering {again : Catalogue} (reordered : given.IsReordering others)
    (first : IsOfLastRows settings given catalogue) (second : IsOfLastRows settings others again) :
    catalogue.Agrees again := by
  intro key
  have same : (∃ kernel, Register.find key catalogue = some kernel) ↔
      ∃ kernel, Register.find key again = some kernel :=
    (first.present key).trans ((mention_of_isReordering reordered).trans (second.present key).symm)
  rcases found : Register.find key catalogue with _ | kernel
  · rcases other : Register.find key again with _ | other
    · exact .none
    · obtain ⟨_, absent⟩ := same.mpr ⟨_, other⟩
      rw [found] at absent
      cases absent
  · obtain ⟨other, onOther⟩ := same.mp ⟨kernel, found⟩
    rw [onOther]
    refine .some ?_
    have serves := first.named key kernel found
    have otherServes := second.named key other onOther
    constructor
    case name =>
      have isKey : kernel.name.isKey = true := by rw [Datum.isKey, serves]; rfl
      have otherIsKey : other.name.isKey = true := by rw [Datum.isKey, otherServes]; rfl
      rw [Datum.beq_eq_key?_beq isKey otherIsKey, serves, otherServes, beq_self_eq_true]
    case loops =>
      intro id
      have onLoops := first.loops key kernel found id
      rw [reordered.loops.lastWith] at onLoops
      exact eq_of_rel (fun _ _ _ => eq_of_table) onLoops (second.loops key other onOther id)
    case accesses =>
      intro id
      have onAccesses := first.accesses key kernel found id
      rw [reordered.accesses.lastWith, isAccessOf_of_isReordering reordered] at onAccesses
      exact eq_of_rel (fun _ _ _ => eq_of_table) onAccesses (second.accesses key other onOther id)
    case phiLoops =>
      intro phi
      rw [first.phiLoops key kernel found, second.phiLoops key other onOther,
        reordered.phis.lastWith, reordered.phis.lastWith]

theorem exists_areRead (read : AreRead settings given loops separate accesses phis)
    (reordered : given.IsReordering others) :
    ∃ loops separate accesses phis, AreRead settings others loops separate accesses phis := by
  obtain ⟨otherLoops, onLoops⟩ := exists_mapM_of_perm read.loops reordered.loops.perm
  obtain ⟨otherSeparate, onTrees⟩ := exists_mapM_of_perm read.trees reordered.trees.perm
  obtain ⟨otherAccesses, onAccesses⟩ := exists_mapM_of_perm read.accesses reordered.accesses.perm
  obtain ⟨otherPhis, onPhis⟩ := exists_mapM_of_perm read.phis reordered.phis.perm
  have found (name : AccessName) : Register.find name (Register.ofList separate) =
      Register.find name (Register.ofList otherSeparate) := by
    rw [find_separate read.trees, find_separate onTrees, reordered.trees.lastWith]
  have tokens : treeTokens (Register.ofList separate) =
      treeTokens (Register.ofList otherSeparate) := by
    funext row
    simp only [treeTokens, found]
  have same : readAccess settings (Register.ofList separate) =
      readAccess settings (Register.ofList otherSeparate) := by
    funext datum
    simp only [readAccess, tokens]
  exact ⟨otherLoops, otherSeparate, otherAccesses, otherPhis, onLoops, onTrees,
    same ▸ onAccesses, onPhis⟩

/-- Names that can be sorted can be sorted when the rows are reordered. -/
theorem exists_ofRecords {otherLoops : List LoopRecord}
    {otherSeparate : List (AccessName × Datum)} {otherAccesses : List AccessRecord}
    {otherPhis : List PhiRow} (read : AreRead settings given loops separate accesses phis)
    (made : ofRecords loops accesses phis = .ok catalogue)
    (reordered : given.IsReordering others)
    (readAgain : AreRead settings others otherLoops otherSeparate otherAccesses otherPhis) :
    ∃ again, ofRecords otherLoops otherAccesses otherPhis = .ok again := by
  have listed : ∀ name ∈ namesIn otherLoops otherAccesses otherPhis,
      ∃ other ∈ namesIn loops accesses phis, other.1 = name.1 := by
    intro name member
    have mentioned := (mention_iff readAgain).mpr ⟨name.2, member⟩
    obtain ⟨other, inside⟩ :=
      (mention_iff read).mp ((mention_of_isReordering reordered).mpr mentioned)
    exact ⟨(name.1, other), inside, rfl⟩
  obtain ⟨names, sorted, _⟩ := ofRecords_eq_ok.mp made
  have alike := exists_sortNames_iff.mp ⟨names, sorted⟩
  obtain ⟨otherNames, sortedAgain⟩ :
      ∃ sorted, sortNames (namesIn otherLoops otherAccesses otherPhis) = .ok sorted := by
    refine exists_sortNames_iff.mpr (fun first onFirst second onSecond => ?_)
    obtain ⟨name, member, sameName⟩ := listed first onFirst
    obtain ⟨other, otherMember, sameOther⟩ := listed second onSecond
    rw [← sameName, ← sameOther]
    exact alike name member other otherMember
  exact ⟨_, ofRecords_eq_ok.mpr ⟨otherNames, sortedAgain, rfl⟩⟩

end Tables

/-- A catalogue that is made of tables holds what the last row of every key says, and stays the
same when rows with different keys change places. -/
theorem isOfLastRows_of_ofTables {settings : Settings} {tables : Tables} {catalogue : Catalogue}
    (built : ofTables settings tables = .ok catalogue) :
    ∃ given : TableRows, given.AreIn tables ∧ IsOfLastRows settings given catalogue ∧
      ∀ others reordered, given.IsReordering others → others.AreIn reordered →
        ∃ again, ofTables settings reordered = .ok again ∧ catalogue.Agrees again := by
  obtain ⟨given, loops, separate, accesses, phis, areIn, read, made⟩ := ofTables_eq_ok.mp built
  have ofLast := isOfLastRows read made
  refine ⟨given, areIn, ofLast, fun others reordered isReordering othersAreIn => ?_⟩
  obtain ⟨otherLoops, otherSeparate, otherAccesses, otherPhis, readAgain⟩ :=
    exists_areRead read isReordering
  obtain ⟨again, madeAgain⟩ := exists_ofRecords read made isReordering readAgain
  exact ⟨again, ofTables_eq_ok.mpr ⟨others, _, _, _, _, othersAreIn, readAgain, madeAgain⟩,
    agrees_of_isReordering isReordering ofLast (isOfLastRows readAgain madeAgain)⟩

/-- A row about a loop or a phi of a kernel, or of every kernel if none is given. -/
def rowOf (kernel : Option String) (entries : List (String × Int)) : Datum :=
  .table (kernel.toList.map (fun name => ("kernel_name", .text name)) ++
    entries.map (fun entry => (entry.1, .integer entry.2)))

/-- A loop is listed twice, and so is the phi of every kernel, around the one of the kernel. -/
def repeated : Tables where
  loopRows := .list [rowOf "kernel" [("loop_id", 1)], rowOf "kernel" [("loop_id", 2)],
    rowOf "kernel" [("loop_id", 1), ("parent_loop_id", 2)]]
  accessRows := .list [rowOf "kernel" [("access_id", 1), ("allocation_arg", 0)]]
  phiLoopRows := .list [rowOf none [("phi_id", 0), ("loop_id", 1)],
    rowOf "kernel" [("phi_id", 0), ("loop_id", 2)], rowOf none [("phi_id", 0), ("loop_id", 3)],
    rowOf none [("phi_id", 1), ("loop_id", 4)], rowOf none [("phi_id", 1), ("loop_id", 5)]]

theorem isOfLastRows_repeated :
    ∃ catalogue, ofTables {} repeated = .ok catalogue ∧
      catalogue.map (fun entry => (entry.2.loops.map (fun loop => (loop.1, loop.2.parent)),
          entry.2.accesses.map Prod.fst, entry.2.phiLoops)) =
        [([(1, 2), (2, 0)], [1], [(0, 2), (1, 5)])] ∧
      ∃ given : TableRows, given.AreIn repeated ∧ IsOfLastRows {} given catalogue ∧
        ∀ others reordered, given.IsReordering others → others.AreIn reordered →
          ∃ again, ofTables {} reordered = .ok again ∧ catalogue.Agrees again := by
  have listed : (ofTables {} repeated).toOption.map (fun catalogue =>
      catalogue.map (fun entry => (entry.2.loops.map (fun loop => (loop.1, loop.2.parent)),
        entry.2.accesses.map Prod.fst, entry.2.phiLoops))) =
      some [([(1, 2), (2, 0)], [1], [(0, 2), (1, 5)])] := by decide +kernel
  rcases built : ofTables {} repeated with fault | catalogue
  · rw [built] at listed
    cases listed
  · rw [built] at listed
    exact ⟨catalogue, rfl, Option.some.inj listed, isOfLastRows_of_ofTables built⟩

end Catalogue

end KernelFootprint
