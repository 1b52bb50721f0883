import KernelFootprint.Proofs.Construction
import KernelFootprint.Proofs.Groups

/-!
# What malformed streams leave alone

A catalogue is put together from records by the names of their kernels and by their
numbers, and messages play no part in it. So a malformed stream takes no other tree and no
other record away: the catalogue is that of the same tables with the stream left empty, but
for messages.
-/

namespace KernelFootprint.Catalogue

variable {settings : Settings} {content : Content} {tables : Tables}

/-- Reading the rows of a table gives what they say, one by one. -/
theorem exists_rows {Entry Result : Type} {isIn : Entry → Row → Prop} {table : Datum}
    {entries : List Entry} (listed : Lists isIn table entries) (read : Datum → Reading Result)
    (give : Entry → Result)
    (each : ∀ entry ∈ entries, ∀ row, isIn entry row → read (.table row) = .ok (give entry)) :
    ∃ data, rows table = .ok data ∧ data.mapM read = .ok (entries.map give) := by
  obtain ⟨rows, rfl, together⟩ := listed
  refine ⟨_, rfl, ?_⟩
  induction together with
  | nil => rfl
  | @cons entry row others rest isIn _ ih =>
      obtain ⟨onEntry, onOthers⟩ := List.forall_mem_cons.mp each
      rw [List.map_cons, List.mapM_cons, onEntry row isIn, ok_bind, ih onOthers, ok_bind]
      rfl

/-- The separate trees as they are read. -/
def Content.treeEntries (content : Content) : List (AccessName × Datum) :=
  content.trees.map (fun tree =>
    ((.text tree.kernel, tree.id), .list (tree.tokens.map .text)))

theorem Content.ofList_treeEntries (content : Content) :
    Register.ofList content.treeEntries =
      content.separateTrees.map (fun entry => (entry.1, Datum.list (entry.2.map .text))) := by
  rw [separateTrees, ← Register.ofList_map (fun tokens : List String =>
    Datum.list (tokens.map .text)), List.map_map]
  rfl

/-- The tokens of a tree are found under its access. -/
theorem treeTokens_eq (content : Content) {access : AccessRow} {row : Row}
    (isIn : access.IsIn row) :
    treeTokens (Register.ofList content.treeEntries) row =
      .ok (.list ((content.treeTokens access).map .text)) := by
  have own := isIn.tree
  rw [HasTexts] at own
  have found := Register.find_map (fun _ tokens => Datum.list (tokens.map .text))
    ((.text access.kernel, access.id) : AccessName) content.separateTrees
  rw [treeTokens, accessOf_eq isIn.kernel isIn.id, ok_bind, Content.treeTokens,
    Content.ofList_treeEntries]
  cases written : access.tree with
  | nil =>
      have absent : ((Datum.field? "tree_tokens" row).getD .null).holds = false := by
        rw [written] at own
        cases given : Datum.field? "tree_tokens" row with
        | none => rfl
        | some datum =>
            rw [given] at own
            change datum = .list [] at own
            rw [own]
            rfl
      simp only [absent]
      change Except.ok ((Register.find _ _).getD (Datum.list [])) = _
      rw [found]
      cases Register.find ((.text access.kernel, access.id) : AccessName)
        content.separateTrees <;> rfl
  | cons first rest =>
      have present : (Datum.field? "tree_tokens" row).getD .null =
          .list ((first :: rest).map .text) := by
        rw [written] at own
        cases given : Datum.field? "tree_tokens" row with
        | none =>
            rw [given] at own
            cases own
        | some datum =>
            rw [given] at own
            exact own
      rw [present]
      rfl

theorem Content.IsLegible.treeTokens (legible : content.IsLegible settings) {access : AccessRow}
    (member : access ∈ content.accesses) : AreLegible settings (content.treeTokens access) := by
  rw [Content.treeTokens]
  split
  · cases found : Register.find ((.text access.kernel, access.id) : AccessName)
        content.separateTrees with
    | none => exact nofun
    | some tokens =>
        have filled := Register.mem_of_mem_ofList (Register.mem_of_find_eq_some found)
        obtain ⟨tree, inside, same⟩ := List.mem_map.mp filled
        have listed : tree.tokens = tokens := congrArg Prod.snd same
        rw [Option.getD_some, ← listed]
        exact legible.trees tree inside
  · exact legible.ownTrees access member

/-- A legible access row gives its record. -/
theorem accessRecord_eq (usable : settings.AreUsable) {access : AccessRow} {row : Row}
    (isIn : access.IsIn row) (short : Text.hasNumeral access.id = true)
    (expression : AreLegible settings access.expression)
    (tree : AreLegible settings (content.treeTokens access)) :
    accessRecord settings row (.list ((content.treeTokens access).map .text)) =
      .ok (content.accessRecord settings access) := by
  have tokens := isIn.expression
  rw [HasTexts] at tokens
  rw [accessRecord, kernelOf_eq isIn.kernel, ok_bind, requiredInteger_eq isIn.id, ok_bind,
    subjectOf_eq access.kernel _ short, ok_bind]
  simp only [requiredInteger_eq isIn.allocationArg, optionalInteger_eq isIn.loop,
    optionalInteger_eq isIn.condition, isIn.conditionKind, tokens, ok_bind,
    attempt_postfix usable ⟨access.expression, rfl, expression⟩,
    attempt_bracketed usable ⟨content.treeTokens access, rfl, tree⟩]
  rfl

/-- Tables are read to the records of their rows. -/
theorem ofTables_eq (usable : settings.AreUsable) (isIn : content.IsIn tables)
    (legible : content.IsLegible settings) :
    ofTables settings tables = ofRecords (content.loops.map (LoopRow.record settings))
      (content.accesses.map (content.accessRecord settings)) content.phis := by
  have onLoop : ∀ loop ∈ content.loops, ∀ row, loop.IsIn row →
      (loopRecord settings row >>= catalogued LoopRecord.kernel) = .ok (loop.record settings) := by
    intro loop member row isIn
    rw [loopRecord_eq usable isIn (legible.loopNumbers loop member) (legible.loops loop member)]
    rfl
  have onAccess : ∀ access ∈ content.accesses, ∀ row, access.IsIn row →
      (treeTokens (Register.ofList content.treeEntries) row >>= fun tokens =>
        accessRecord settings row tokens >>= catalogued AccessRecord.kernel) =
          .ok (content.accessRecord settings access) := by
    intro access member row isIn
    rw [treeTokens_eq content isIn, ok_bind, accessRecord_eq usable isIn
      (legible.accessNumbers access member) (legible.expressions access member)
      (legible.treeTokens member)]
    rfl
  obtain ⟨loopData, loopRows, loops⟩ := exists_rows isIn.loops
    (fun datum => do
      catalogued LoopRecord.kernel (← loopRecord settings (← reading datum.entries))) _ onLoop
  obtain ⟨treeData, treeRows, trees⟩ : ∃ data, rows tables.accessTreeRows = .ok data ∧
      data.mapM separateTree = .ok content.treeEntries :=
    exists_rows isIn.trees separateTree _ (fun tree _ row isIn => separateTree_eq isIn)
  obtain ⟨accessData, accessRows, accesses⟩ := exists_rows isIn.accesses
    (fun datum => do
      let row ← reading datum.entries
      catalogued AccessRecord.kernel
        (← accessRecord settings row (← treeTokens (Register.ofList content.treeEntries) row)))
    _ onAccess
  obtain ⟨phiData, phiRows, phis⟩ := exists_rows isIn.phis phiRow id
    (fun phi _ row isIn => phiRow_eq isIn)
  rw [ofTables, loopRows, ok_bind, loops, ok_bind, treeRows, ok_bind, trees, ok_bind,
    accessRows, ok_bind, accesses, ok_bind, phiRows, ok_bind, phis, ok_bind, List.map_id]

/-- The key that a kernel's name serves as. -/
def nameKey (name : Datum) : Datum.Key := name.key?.getD .nothing

def IsText (name : Datum) : Prop := ∃ text, name = .text text

theorem keyed_eq {Entry : Type} {kernel : Entry → Datum} {entries : List Entry}
    (named : ∀ entry ∈ entries, IsText (kernel entry)) :
    keyed kernel entries = entries.map (fun entry => (nameKey (kernel entry), entry)) := by
  induction entries with
  | nil => rfl
  | cons first rest ih =>
      obtain ⟨⟨text, onFirst⟩, onRest⟩ := List.forall_mem_cons.mp named
      have others := ih onRest
      rw [keyed] at others ⊢
      rw [List.filterMap_cons, onFirst, others, List.map_cons, onFirst]
      rfl

/-- The names of all kernels that there is a record or a phi of. -/
def namesOf (loops : List LoopRecord) (accesses : List AccessRecord) (phis : List PhiRow) :
    List (Datum.Key × Datum) :=
  (loops.map LoopRecord.kernel ++ accesses.map AccessRecord.kernel ++
    phis.filterMap PhiRow.kernel).map (fun name => (nameKey name, name))

def loopGroups (loops : List LoopRecord) : List (Datum.Key × List (Int × LoopRecord)) :=
  grouped (loops.map (fun loop => (nameKey loop.kernel, loop.id, loop)))

def accessGroups (accesses : List AccessRecord) : List (Datum.Key × List (Int × AccessRecord)) :=
  grouped (accesses.map (fun access => (nameKey access.kernel, access.id, access)))

/-- The kernels of the given names. -/
def assembled (loops : List LoopRecord) (accesses : List AccessRecord) (phis : List PhiRow)
    (names : List (Datum.Key × Datum)) : Catalogue :=
  names.map (fun entry => (entry.1,
    { name := entry.2
      loops := (Register.find entry.1 (loopGroups loops)).getD []
      accesses := (Register.find entry.1 (accessGroups accesses)).getD []
      phiLoops := phiLoopsOf phis entry.1 }))

/-- Records of kernels that are named by texts. -/
structure AreNamed (loops : List LoopRecord) (accesses : List AccessRecord) (phis : List PhiRow) :
    Prop where
  loops : ∀ loop ∈ loops, IsText loop.kernel
  accesses : ∀ access ∈ accesses, IsText access.kernel
  phis : ∀ name ∈ phis.filterMap PhiRow.kernel, IsText name

variable {loops : List LoopRecord} {accesses : List AccessRecord} {phis : List PhiRow}

theorem ofRecords_eq (named : AreNamed loops accesses phis) :
    ofRecords loops accesses phis =
      (sortNames (namesOf loops accesses phis)).map (assembled loops accesses phis) := by
  have onPhis := @keyed_eq Datum id _ named.phis
  have names :
      (loops.map (fun loop => (nameKey loop.kernel, loop))).map
          (fun loop => (loop.1, loop.2.kernel)) ++
        (accesses.map (fun access => (nameKey access.kernel, access))).map
          (fun access => (access.1, access.2.kernel)) ++
        (phis.filterMap PhiRow.kernel).map (fun name => (nameKey (id name), name)) =
      namesOf loops accesses phis := by
    rw [namesOf, List.map_append, List.map_append, List.map_map, List.map_map, List.map_map,
      List.map_map]
    rfl
  have onLoops : grouped ((loops.map (fun loop => (nameKey loop.kernel, loop))).map
      (fun loop => (loop.1, loop.2.id, loop.2))) = loopGroups loops := by
    rw [List.map_map]
    rfl
  have onAccesses : grouped ((accesses.map (fun access => (nameKey access.kernel, access))).map
      (fun access => (access.1, access.2.id, access.2))) = accessGroups accesses := by
    rw [List.map_map]
    rfl
  rw [ofRecords, keyed_eq named.loops, keyed_eq named.accesses, onPhis, names, onLoops, onAccesses]
  cases sortNames (namesOf loops accesses phis) <;> rfl

/-- Names that are texts can be put in order, and none of them is lost. -/
theorem exists_sortNames {names : List (Datum.Key × Datum)}
    (texts : ∀ name ∈ names, ∃ text, name.1 = .text text) :
    ∃ sorted, sortNames names = .ok sorted ∧
      ∀ name ∈ names, ∃ datum, Register.find name.1 sorted = some datum := by
  have found : ∀ name ∈ names, ∃ datum, (name.1, datum) ∈ Register.ofList names.reverse := by
    intro name member
    obtain ⟨datum, found⟩ := Register.exists_find_ofList
      (show (name.1, name.2) ∈ names.reverse from List.mem_reverse.mpr member)
    exact ⟨datum, Register.mem_of_find_eq_some found⟩
  have kept : ∀ name ∈ Register.ofList names.reverse, ∃ text, name.1 = .text text :=
    fun name member => texts name (List.mem_reverse.mp (Register.mem_of_mem_ofList member))
  rw [sortNames]
  cases unsorted : Register.ofList names.reverse with
  | nil =>
      refine ⟨[], rfl, fun name member => ?_⟩
      obtain ⟨datum, absent⟩ := found name member
      rw [unsorted] at absent
      cases absent
  | cons first rest =>
      rw [unsorted] at kept found
      obtain ⟨⟨text, onFirst⟩, onRest⟩ := List.forall_mem_cons.mp kept
      have comparable : rest.all (fun name => areComparable first.1 name.1) = true := by
        rw [List.all_eq_true]
        intro name member
        obtain ⟨other, onName⟩ := onRest name member
        rw [onFirst, onName]
        rfl
      simp only [comparable]
      refine ⟨_, rfl, fun name member => ?_⟩
      obtain ⟨datum, present⟩ := found name member
      exact Register.exists_find_of_mem (Register.mem_sort.mpr present)

theorem namesOf_texts (named : AreNamed loops accesses phis) :
    ∀ name ∈ namesOf loops accesses phis, ∃ text, name.1 = .text text := by
  intro name member
  obtain ⟨datum, among, rfl⟩ := List.mem_map.mp member
  have text : IsText datum := by
    rcases List.mem_append.mp among with records | onPhi
    · rcases List.mem_append.mp records with onLoop | onAccess
      · obtain ⟨loop, inside, rfl⟩ := List.mem_map.mp onLoop
        exact named.loops loop inside
      · obtain ⟨access, inside, rfl⟩ := List.mem_map.mp onAccess
        exact named.accesses access inside
    · exact named.phis datum onPhi
  obtain ⟨text, rfl⟩ := text
  exact ⟨text, rfl⟩

theorem mem_namesOf_loop {loop : LoopRecord} (member : loop ∈ loops) :
    (nameKey loop.kernel, loop.kernel) ∈ namesOf loops accesses phis :=
  List.mem_map.mpr ⟨loop.kernel, List.mem_append_left _ (List.mem_append_left _
    (List.mem_map_of_mem member)), rfl⟩

theorem mem_namesOf_access {access : AccessRecord} (member : access ∈ accesses) :
    (nameKey access.kernel, access.kernel) ∈ namesOf loops accesses phis :=
  List.mem_map.mpr ⟨access.kernel, List.mem_append_left _ (List.mem_append_right _
    (List.mem_map_of_mem member)), rfl⟩

theorem find_assembled {names : List (Datum.Key × Datum)} {key : Datum.Key} {name : Datum}
    (found : Register.find key names = some name) :
    Register.find key (assembled loops accesses phis names) =
      some { name := name
             loops := (Register.find key (loopGroups loops)).getD []
             accesses := (Register.find key (accessGroups accesses)).getD []
             phiLoops := phiLoopsOf phis key } := by
  rw [assembled, Register.find_map (fun key name =>
    ({ name := name
       loops := (Register.find key (loopGroups loops)).getD []
       accesses := (Register.find key (accessGroups accesses)).getD []
       phiLoops := phiLoopsOf phis key } : KernelRecord)), found]
  rfl

/-- The last record of a loop is catalogued. -/
theorem find_loop {before after : List LoopRecord} {loop : LoopRecord}
    (split : loops = before ++ loop :: after)
    (last : ∀ other ∈ after, ¬ (nameKey other.kernel = nameKey loop.kernel ∧ other.id = loop.id)) :
    Register.find loop.id ((Register.find (nameKey loop.kernel) (loopGroups loops)).getD []) =
      some loop := by
  rw [loopGroups, split, List.map_append, List.map_cons]
  refine lookUp_grouped _ ?_
  intro entry member
  obtain ⟨other, inside, rfl⟩ := List.mem_map.mp member
  exact last other inside

/-- The last record of an access is catalogued. -/
theorem find_access {before after : List AccessRecord} {access : AccessRecord}
    (split : accesses = before ++ access :: after)
    (last : ∀ other ∈ after,
      ¬ (nameKey other.kernel = nameKey access.kernel ∧ other.id = access.id)) :
    Register.find access.id
      ((Register.find (nameKey access.kernel) (accessGroups accesses)).getD []) = some access := by
  rw [accessGroups, split, List.map_append, List.map_cons]
  refine lookUp_grouped _ ?_
  intro entry member
  obtain ⟨other, inside, rfl⟩ := List.mem_map.mp member
  exact last other inside

end KernelFootprint.Catalogue

namespace KernelFootprint

def LoopRecord.silenced (record : LoopRecord) : LoopRecord := { record with buildErrors := [] }

def AccessRecord.silenced (record : AccessRecord) : AccessRecord :=
  { record with buildErrors := [] }

/-- A kernel without the messages of its records. -/
def KernelRecord.silenced (kernel : KernelRecord) : KernelRecord :=
  { kernel with
    loops := kernel.loops.map (fun entry => (entry.1, entry.2.silenced))
    accesses := kernel.accesses.map (fun entry => (entry.1, entry.2.silenced)) }

namespace Catalogue

/-- A catalogue without messages. -/
def silenced (catalogue : Catalogue) : Catalogue :=
  catalogue.map (fun entry => (entry.1, entry.2.silenced))

variable {settings : Settings} {content : Content} {tables : Tables} {loops : List LoopRecord}
  {accesses : List AccessRecord} {phis : List PhiRow}

theorem loopGroups_silenced :
    loopGroups (loops.map LoopRecord.silenced) =
      mapGroups LoopRecord.silenced (loopGroups loops) := by
  rw [loopGroups, loopGroups, ← grouped_map, List.map_map, List.map_map]
  rfl

theorem accessGroups_silenced :
    accessGroups (accesses.map AccessRecord.silenced) =
      mapGroups AccessRecord.silenced (accessGroups accesses) := by
  rw [accessGroups, accessGroups, ← grouped_map, List.map_map, List.map_map]
  rfl

theorem find_mapGroups {Entry Other : Type} (change : Entry → Other)
    (groups : List (Datum.Key × List (Int × Entry))) (key : Datum.Key) :
    (Register.find key (mapGroups change groups)).getD [] =
      ((Register.find key groups).getD []).map (fun entry => (entry.1, change entry.2)) := by
  rw [mapGroups, Register.find_map (fun _ (members : List (Int × Entry)) =>
    members.map (fun entry => (entry.1, change entry.2)))]
  cases Register.find key groups <;> rfl

/-- Messages can be left out before a catalogue is put together or afterwards. -/
theorem assembled_silenced (names : List (Datum.Key × Datum)) :
    assembled (loops.map LoopRecord.silenced) (accesses.map AccessRecord.silenced) phis names =
      (assembled loops accesses phis names).silenced := by
  rw [assembled, assembled, silenced, List.map_map]
  refine List.map_congr_left ?_
  rintro ⟨key, name⟩ _
  simp only [Function.comp_apply, KernelRecord.silenced, loopGroups_silenced,
    accessGroups_silenced, find_mapGroups]

/-- A stream, or no stream in the place of one that is malformed. -/
def IsSpared {Tree : Type} (build : List Datum → Except Fault (Option Tree))
    (stream spared : List Datum) : Prop :=
  spared = stream ∨ spared = [] ∧ ∃ cause : Malformation, build stream = .error cause

theorem IsSpared.built_eq {Tree : Type} {build : List Datum → Except Fault (Option Tree)}
    {stream spared : List Datum} (isSpared : IsSpared build stream spared)
    (nothing : build [] = .ok none) : built (build spared) = built (build stream) := by
  rcases isSpared with rfl | ⟨rfl, cause, failed⟩
  · rfl
  · rw [nothing, failed]
    rfl

/-- A loop row with empty streams for some that are malformed. -/
structure LoopRow.IsSpared (settings : Settings) (loop spared : LoopRow) : Prop where
  kernel : spared.kernel = loop.kernel
  id : spared.id = loop.id
  parent : spared.parent = loop.parent
  knownCount : spared.knownCount = loop.knownCount
  initial : Catalogue.IsSpared (Postfix.build settings) loop.tokens.bounds.initial
    spared.tokens.bounds.initial
  final : Catalogue.IsSpared (Postfix.build settings) loop.tokens.bounds.final
    spared.tokens.bounds.final
  step : Catalogue.IsSpared (Postfix.build settings) loop.tokens.bounds.step
    spared.tokens.bounds.step

/-- Accesses with empty streams for some that are malformed. -/
structure AccessRow.IsSpared (settings : Settings) (content other : Content)
    (access spared : AccessRow) : Prop where
  kernel : spared.kernel = access.kernel
  id : spared.id = access.id
  allocationArg : spared.allocationArg = access.allocationArg
  loop : spared.loop = access.loop
  condition : spared.condition = access.condition
  conditionKind : spared.conditionKind = access.conditionKind
  expression : Catalogue.IsSpared (Postfix.build settings) (access.expression.map .text)
    (spared.expression.map .text)
  tree : Catalogue.IsSpared (Bracketed.build settings) ((content.treeTokens access).map .text)
    ((other.treeTokens spared).map .text)

/-- The same rows with empty streams for some that are malformed. -/
structure Content.IsSpared (settings : Settings) (content spared : Content) : Prop where
  loops : List.Forall₂ (LoopRow.IsSpared settings) content.loops spared.loops
  accesses : List.Forall₂ (AccessRow.IsSpared settings content spared) content.accesses
    spared.accesses
  phis : spared.phis = content.phis

theorem LoopRow.IsSpared.silenced_record {loop spared : LoopRow}
    (isSpared : loop.IsSpared settings spared) :
    (spared.record settings).silenced = (loop.record settings).silenced := by
  rw [LoopRow.record, LoopRow.record, LoopRecord.silenced, LoopRecord.silenced]
  simp only [isSpared.kernel, isSpared.id, isSpared.parent, isSpared.knownCount,
    isSpared.initial.built_eq rfl, isSpared.final.built_eq rfl, isSpared.step.built_eq rfl]

theorem AccessRow.IsSpared.silenced_record {other : Content} {access spared : AccessRow}
    (isSpared : access.IsSpared settings content other spared) :
    (other.accessRecord settings spared).silenced =
      (content.accessRecord settings access).silenced := by
  rw [Content.accessRecord, Content.accessRecord, AccessRecord.silenced, AccessRecord.silenced]
  simp only [isSpared.kernel, isSpared.id, isSpared.allocationArg, isSpared.loop,
    isSpared.condition, isSpared.conditionKind, isSpared.expression.built_eq rfl,
    isSpared.tree.built_eq rfl]

theorem map_eq_of_forall₂ {First Second Result : Type} {related : First → Second → Prop}
    {firsts : List First} {seconds : List Second} (together : List.Forall₂ related firsts seconds)
    {onFirst : First → Result} {onSecond : Second → Result}
    (same : ∀ first second, related first second → onSecond second = onFirst first) :
    seconds.map onSecond = firsts.map onFirst := by
  induction together with
  | nil => rfl
  | cons isRelated _ ih => rw [List.map_cons, List.map_cons, same _ _ isRelated, ih]

theorem Content.areNamed (isIn : content.IsIn tables) :
    AreNamed (content.loops.map (LoopRow.record settings))
      (content.accesses.map (content.accessRecord settings)) content.phis where
  loops := by
    intro record member
    obtain ⟨loop, _, rfl⟩ := List.mem_map.mp member
    exact ⟨loop.kernel, rfl⟩
  accesses := by
    intro record member
    obtain ⟨access, _, rfl⟩ := List.mem_map.mp member
    exact ⟨access.kernel, rfl⟩
  phis := by
    obtain ⟨rows, listed, together⟩ := isIn.phis
    clear listed
    generalize content.phis = phis at together ⊢
    induction together with
    | nil => exact nofun
    | @cons phi row phis rows isIn _ ih =>
        intro name member
        rcases isIn.kernel with ⟨shared, _⟩ | ⟨text, own, _⟩
        · rw [List.filterMap_cons, shared] at member
          exact ih name member
        · rw [List.filterMap_cons, own] at member
          rcases List.mem_cons.mp member with rfl | inRest
          · exact ⟨text, rfl⟩
          · exact ih name inRest

/-- The records of a kernel that the rows of its loops and accesses give. -/
theorem exists_assembled (usable : settings.AreUsable) (isIn : content.IsIn tables)
    (legible : content.IsLegible settings) :
    ∃ names, sortNames (namesOf (content.loops.map (LoopRow.record settings))
        (content.accesses.map (content.accessRecord settings)) content.phis) = .ok names ∧
      ofTables settings tables =
        .ok (assembled (content.loops.map (LoopRow.record settings))
          (content.accesses.map (content.accessRecord settings)) content.phis names) ∧
      ∀ name ∈ namesOf (content.loops.map (LoopRow.record settings))
        (content.accesses.map (content.accessRecord settings)) content.phis,
          ∃ datum, Register.find name.1 names = some datum := by
  have named : AreNamed (content.loops.map (LoopRow.record settings))
      (content.accesses.map (content.accessRecord settings)) content.phis :=
    Content.areNamed isIn
  obtain ⟨names, sorted, complete⟩ := exists_sortNames (namesOf_texts named)
  refine ⟨names, sorted, ?_, complete⟩
  rw [ofTables_eq usable isIn legible, ofRecords_eq named, sorted]
  rfl

theorem namesOf_silenced : namesOf (loops.map LoopRecord.silenced)
    (accesses.map AccessRecord.silenced) phis = namesOf loops accesses phis := by
  rw [namesOf, namesOf, List.map_map, List.map_map]
  rfl

/-- A catalogue comes of tables with any streams of texts, as long as no number is expected of
stray digits, none is missing after the marker of a known iteration count, and the numbers of
loops and accesses can be written. The last row of every loop and every access gives its record,
each tree of which is that of its own stream, or none with a message if the stream is malformed.
Malformed streams have no effect on anything but messages: it makes no difference to the rest
whether they are there. -/
theorem ofTables_of_isLegible (usable : settings.AreUsable) (isIn : content.IsIn tables)
    (legible : content.IsLegible settings) :
    ∃ catalogue, ofTables settings tables = .ok catalogue ∧
      (∀ before loop after, content.loops = before ++ loop :: after →
        (∀ other ∈ after, ¬ (other.kernel = loop.kernel ∧ other.id = loop.id)) →
          ∃ kernel, catalogue.find? (.text loop.kernel) = .ok (some kernel) ∧
            Register.find loop.id kernel.loops = some (loop.record settings)) ∧
      (∀ before access after, content.accesses = before ++ access :: after →
        (∀ other ∈ after, ¬ (other.kernel = access.kernel ∧ other.id = access.id)) →
          ∃ kernel, catalogue.find? (.text access.kernel) = .ok (some kernel) ∧
            Register.find access.id kernel.accesses =
              some (content.accessRecord settings access)) ∧
      ∀ spared others, content.IsSpared settings spared → spared.IsIn others →
        spared.IsLegible settings →
          ∃ other, ofTables settings others = .ok other ∧ other.silenced = catalogue.silenced := by
  obtain ⟨names, sorted, read, complete⟩ := exists_assembled usable isIn legible
  refine ⟨_, read, ?_, ?_, ?_⟩
  · intro before loop after split last
    have listed := congrArg (List.map (LoopRow.record settings)) split
    rw [List.map_append, List.map_cons] at listed
    obtain ⟨name, named⟩ := complete _ (mem_namesOf_loop
      (List.mem_map_of_mem (by rw [split]; simp : loop ∈ content.loops)))
    refine ⟨_, congrArg Except.ok (find_assembled named), find_loop listed ?_⟩
    intro record member
    obtain ⟨other, inside, rfl⟩ := List.mem_map.mp member
    rintro ⟨sameKernel, sameId⟩
    exact last other inside ⟨Datum.Key.text.inj sameKernel, sameId⟩
  · intro before access after split last
    have listed := congrArg (List.map (content.accessRecord settings)) split
    rw [List.map_append, List.map_cons] at listed
    obtain ⟨name, named⟩ := complete _ (mem_namesOf_access
      (List.mem_map_of_mem (by rw [split]; simp : access ∈ content.accesses)))
    refine ⟨_, congrArg Except.ok (find_assembled named), find_access listed ?_⟩
    intro record member
    obtain ⟨other, inside, rfl⟩ := List.mem_map.mp member
    rintro ⟨sameKernel, sameId⟩
    exact last other inside ⟨Datum.Key.text.inj sameKernel, sameId⟩
  · intro spared others isSpared sparedIn sparedLegible
    obtain ⟨sparedNames, sparedSorted, sparedRead, _⟩ :=
      exists_assembled usable sparedIn sparedLegible
    have sameLoops : (spared.loops.map (LoopRow.record settings)).map LoopRecord.silenced =
        (content.loops.map (LoopRow.record settings)).map LoopRecord.silenced := by
      rw [List.map_map, List.map_map]
      exact map_eq_of_forall₂ isSpared.loops (fun _ _ => LoopRow.IsSpared.silenced_record)
    have sameAccesses :
        (spared.accesses.map (spared.accessRecord settings)).map AccessRecord.silenced =
          (content.accesses.map (content.accessRecord settings)).map AccessRecord.silenced := by
      rw [List.map_map, List.map_map]
      exact map_eq_of_forall₂ isSpared.accesses (fun _ _ => AccessRow.IsSpared.silenced_record)
    have sameNames : sparedNames = names := by
      rw [← namesOf_silenced, sameLoops, sameAccesses, isSpared.phis, namesOf_silenced,
        sorted] at sparedSorted
      exact (Except.ok.inj sparedSorted).symm
    refine ⟨_, sparedRead, ?_⟩
    rw [← assembled_silenced, ← assembled_silenced, sameLoops, sameAccesses, isSpared.phis,
      sameNames]

/-- A loop whose final value is malformed, with a known iteration count in the same entry. -/
def spoiltLoop : LoopRow where
  kernel := "kernel"
  id := 1
  parent := 0
  known := .null
  tokens := .combined ["IN", "0", "FIN", "8", "ADD", "IT", "5"]

def spoiltLoopRow : Row :=
  [("kernel_name", .text "kernel"), ("loop_id", .integer 1),
    ("bound_tokens", .list (["IN", "0", "FIN", "8", "ADD", "IT", "5"].map .text))]

/-- An access in that loop with a good address. -/
def sparedAccess : AccessRow where
  kernel := "kernel"
  id := 1
  allocationArg := 0
  loop := 1
  condition := 0
  conditionKind := .null
  expression := ["TIDX"]
  tree := []

def sparedAccessRow : Row :=
  [("kernel_name", .text "kernel"), ("access_id", .integer 1), ("allocation_arg", .integer 0),
    ("loop_id", .integer 1), ("expression_tokens", .list [.text "TIDX"])]

def spoiltContent : Content := { loops := [spoiltLoop], accesses := [sparedAccess] }

def spoiltTables : Tables where
  loopRows := .list [.table spoiltLoopRow]
  accessRows := .list [.table sparedAccessRow]

/-- The final value is missing, with a message, and everything else is there. -/
theorem ofTables_spoilt :
    ∃ catalogue, ofTables {} spoiltTables = .ok catalogue ∧
      ∃ kernel loop access, catalogue.find? (.text "kernel") = .ok (some kernel) ∧
        Register.find 1 kernel.loops = some loop ∧ Register.find 1 kernel.accesses = some access ∧
        loop.final = none ∧ loop.initial.isSome = true ∧ loop.buildErrors =
          ["kernel: loop 1 final value: 'ADD' needs two operands, 1 available in 8 ADD"] ∧
        access.expression.isSome = true ∧ access.buildErrors = [] := by
  have isIn : spoiltContent.IsIn spoiltTables := by
    refine ⟨⟨[spoiltLoopRow], rfl, .cons ⟨rfl, rfl, rfl, rfl, rfl⟩ .nil⟩,
      ⟨[sparedAccessRow], rfl, .cons ⟨rfl, rfl, rfl, rfl, rfl, rfl, rfl, rfl⟩ .nil⟩,
      ⟨[], rfl, .nil⟩, ⟨[], rfl, .nil⟩⟩
  have legible : spoiltContent.IsLegible {} := by
    have plain : ∀ token ∈ ["IN", "0", "FIN", "8", "ADD", "IT", "5", "TIDX"],
        KernelFootprint.IsLegible {} token := by
      intro token member
      refine isLegible_of_isPlain ?_
      revert member
      revert token
      decide
    refine ⟨List.forall_mem_singleton.mpr rfl, List.forall_mem_singleton.mpr rfl, ?_, ?_, ?_, nofun⟩
    · refine List.forall_mem_singleton.mpr ⟨⟨⟨5, rfl⟩, trivial⟩, fun token member => ?_⟩
      exact plain token (List.mem_append_left ["TIDX"] member)
    · refine List.forall_mem_singleton.mpr (fun token member => ?_)
      exact plain token (List.mem_append_right ["IN", "0", "FIN", "8", "ADD", "IT", "5"] member)
    · exact List.forall_mem_singleton.mpr nofun
  obtain ⟨catalogue, read, onLoops, onAccesses, _⟩ :=
    ofTables_of_isLegible Settings.areUsable_default isIn legible
  obtain ⟨kernel, found, loop⟩ := onLoops [] spoiltLoop [] rfl nofun
  obtain ⟨other, otherFound, access⟩ := onAccesses [] sparedAccess [] rfl nofun
  cases found.symm.trans otherFound
  exact ⟨catalogue, read, kernel, _, _, found, loop, access, rfl, rfl, rfl, rfl, rfl⟩

/-- An access at an address of one token. -/
def accessRowOf (id : Int) (token : String) : Row :=
  [("kernel_name", .text "kernel"), ("access_id", .integer id), ("allocation_arg", .integer 0),
    ("expression_tokens", .list [.text token])]

def tablesOfAccess (id : Int) (token : String) : Tables where
  accessRows := .list [.table (accessRowOf id token)]

theorem ofTables_tablesOfAccess {id : Int} {token : String} {fault : Fault}
    (failed : accessRecord settings (accessRowOf id token) (.list []) = .error fault) :
    ofTables settings (tablesOfAccess id token) = .error fault := by
  rw [ofTables]
  change (([Datum.table (accessRowOf id token)].mapM _ : Reading (List AccessRecord)) >>= _) = _
  rw [List.mapM_cons]
  change (((accessRecord settings (accessRowOf id token) (.list []) >>=
    catalogued AccessRecord.kernel) >>= _) >>= _) = _
  rw [failed]
  rfl

/-- One text of stray digits stops the construction of the whole catalogue. -/
theorem ofTables_of_isStray {token : String} (stray : Text.IsStray token.toList) :
    ofTables {} (tablesOfAccess 1 token) = .error Misuse.unreadableNumeral := by
  have unmarked : isIncompleteMark {} (.text token) = false := by
    rw [isIncompleteMark, Datum.isSame_text, Datum.beq_text]
    refine beq_eq_false_iff_ne.mpr ?_
    rintro rfl
    cases stray.1
  have ran : Postfix.run {} [.text token] [.text token] {} = .error Misuse.unreadableNumeral := by
    rw [Postfix.run, classifyElement_text, classify_of_isStray unmarked stray]
    rfl
  have failed : Postfix.build {} [.text token] = .error Misuse.unreadableNumeral := by
    rw [Postfix.build, unmarked, Postfix.reduceAll, ran]
    rfl
  have attempted : attempt (Postfix.build {}) "kernel: access 1 expression"
      (.list [.text token]) = .error Misuse.unreadableNumeral := by
    rw [attempt]
    change (Except.ok [Datum.text token] >>= _) = _
    rw [ok_bind, failed]
    rfl
  refine ofTables_tablesOfAccess ?_
  rw [accessRecord]
  change (attempt (Postfix.build {}) "kernel: access 1 expression" (.list [.text token]) >>= _) = _
  rw [attempted]
  rfl

/-- So does an access whose number cannot be written. -/
theorem ofTables_of_not_hasNumeral {id : Int} (long : Text.hasNumeral id = false)
    (token : String) :
    ofTables settings (tablesOfAccess id token) = .error Misuse.unreadableNumeral := by
  have unnamed : subjectOf (.text "kernel") ": access " id = .error Misuse.unreadableNumeral := by
    rw [subjectOf, Text.writeInteger_of_not_hasNumeral long]
    rfl
  refine ofTables_tablesOfAccess ?_
  rw [accessRecord]
  change (subjectOf (.text "kernel") ": access " id >>= _) = _
  rw [unnamed]
  rfl

/-- No restriction can be left out: digits without a decimal value stop the construction of the
whole catalogue, and so do digits that are too many, a number of an access that is too long for
its messages, and a marker of a known iteration count that nothing follows. -/
theorem ofTables_illegible :
    ofTables {} (tablesOfAccess 1 "²") = .error Misuse.unreadableNumeral ∧
      ofTables {} (tablesOfAccess 1 (.ofList (List.replicate 4301 '9'))) =
        .error Misuse.unreadableNumeral ∧
      ofTables {} (tablesOfAccess (10 ^ 4300) "TIDX") = .error Misuse.unreadableNumeral ∧
      ofTables {} { loopRows := .list [.table [("kernel_name", .text "kernel"),
        ("loop_id", .integer 1),
        ("bound_tokens", .list (["IN", "0", "FIN", "8", "STEP", "1", "IT"].map .text))]] } =
          .error (Malformation.missingIterationCount none) := by
  have many : Text.IsStray (String.ofList (List.replicate 4301 '9')).toList := by
    rw [String.toList_ofList]
    refine ⟨?_, .inr (by rw [List.length_replicate]; decide)⟩
    rw [Text.isDigits, List.all_replicate]
    rfl
  exact ⟨rfl, ofTables_of_isStray many, ofTables_of_not_hasNumeral (by decide +kernel) "TIDX", rfl⟩

end Catalogue

end KernelFootprint
