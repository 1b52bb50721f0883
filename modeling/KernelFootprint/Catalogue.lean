import KernelFootprint.Catalogue.LoopBounds
import KernelFootprint.Register
import KernelFootprint.Tree.Bracketed
import KernelFootprint.Tree.Postfix

/-!
# The kernel catalogue

The catalogue holds, kernel by kernel, the loops, the memory accesses and the
loops that phis belong to, as read from the tables of a device-side analysis.
The last row of a key counts. A token stream that forms no tree leaves its
record without that tree and with a message. Rows that cannot be read make the
whole catalogue fail. Kernels may be named by any datum that can serve as a key,
as long as the names can be put in order.
-/

namespace KernelFootprint

structure LoopRecord where
  kernel : Datum
  id : Int
  /-- The enclosing loop, zero if there is none. -/
  parent : Int
  initial : Option BinaryTree
  final : Option BinaryTree
  step : Option BinaryTree
  /-- The iteration count found on the device, as it was given. -/
  knownCount : Datum
  buildErrors : List String

structure AccessRecord where
  kernel : Datum
  id : Int
  /-- The argument that holds the accessed allocation. -/
  allocationArg : Int
  /-- The innermost enclosing loop, zero if there is none. -/
  loop : Int
  condition : Int
  conditionKind : Datum
  expression : Option BinaryTree
  tree : Option NaryTree
  buildErrors : List String

structure KernelRecord where
  name : Datum
  loops : List (Int × LoopRecord) := []
  accesses : List (Int × AccessRecord) := []
  phiLoops : List (Int × Int) := []

/-- The kernels by their names, in the order of the names. -/
abbrev Catalogue := List (Datum.Key × KernelRecord)

namespace KernelRecord

/-- The loop whose recurrence a phi belongs to. -/
def loopForPhi (kernel : KernelRecord) (phi : Option Int) (otherwise : Datum) : Datum :=
  match phi with
  | some phi => ((Register.find phi kernel.phiLoops).map Datum.integer).getD otherwise
  | none => otherwise

/-- The loop of a phi that is given as loose data. -/
def loopOfPhi (kernel : KernelRecord) (phi otherwise : Datum) : Except Misuse Datum :=
  match phi with
  | .null => .ok otherwise
  | phi => do
      let loop? ← Datum.findNumbered phi kernel.phiLoops
      return (loop?.map Datum.integer).getD otherwise

end KernelRecord

namespace Catalogue

abbrev Row := List (String × Datum)

abbrev Reading := Except Fault

def reading {Result : Type} (outcome : Except Misuse Result) : Reading Result :=
  outcome.mapError Fault.misuse

def rows (table : Datum) : Reading (List Datum) := reading table.elements

def kernelOf (row : Row) : Reading Datum := reading (Datum.required "kernel_name" row)

def requiredInteger (row : Row) (name : String) : Reading Int :=
  reading (do (← Datum.required name row).toInteger)

def optionalInteger (row : Row) (name : String) : Reading Int :=
  match Datum.field? name row with
  | some datum => reading datum.toInteger
  | none => .ok 0

/-- A tree and the messages of its failed construction. -/
def attempt {Tree : Type} (build : List Datum → Except Fault (Option Tree)) (subject : String)
    (tokens : Datum) : Reading (Option Tree × List String) :=
  if tokens.holds then do
    match build (← reading tokens.elements) with
    | .ok tree => return (tree, [])
    | .error (.analysis (.malformed cause)) => return (none, [subject ++ ": " ++ cause.message])
    | .error fault => throw fault
  else .ok (none, [])

/-- The tokens of a loop's bounds and its iteration count, from a combined entry
if there is one and from separate entries otherwise. -/
def loopEntries (row : Row) : Reading (Datum × Datum × Datum × Datum) := do
  let entry (name : String) := (Datum.field? name row).getD (.list [])
  let known := (Datum.field? "known_iteration_count" row).getD .null
  match Datum.field? "bound_tokens" row with
  | some combined =>
      let bounds ← splitBounds (← reading combined.elements)
      let known :=
        match known, bounds.knownCount with
        | .null, some count => .integer count
        | known, _ => known
      return (.list bounds.initial, .list bounds.final, .list bounds.step, known)
  | none => return (entry "init_tokens", entry "final_tokens", entry "step_tokens", known)

/-- What the messages of a record are about: its kernel, its kind and its number. -/
def subjectOf (kernel : Datum) (kind : String) (id : Int) : Reading String :=
  reading (do return (← kernel.describe) ++ kind ++ (← Text.writeInteger id))

def loopRecord (settings : Settings) (row : Row) : Reading LoopRecord := do
  let kernel ← kernelOf row
  let id ← requiredInteger row "loop_id"
  let subject ← subjectOf kernel ": loop " id
  let (initialTokens, finalTokens, stepTokens, knownCount) ← loopEntries row
  let parent ← optionalInteger row "parent_loop_id"
  let build := Postfix.build settings
  let (initial, initialErrors) ← attempt build (subject ++ " initial value") initialTokens
  let (final, finalErrors) ← attempt build (subject ++ " final value") finalTokens
  let (step, stepErrors) ← attempt build (subject ++ " step") stepTokens
  return { kernel, id, parent, initial, final, step, knownCount
           buildErrors := initialErrors ++ finalErrors ++ stepErrors }

def accessRecord (settings : Settings) (row : Row) (treeTokens : Datum) :
    Reading AccessRecord := do
  let kernel ← kernelOf row
  let id ← requiredInteger row "access_id"
  let subject ← subjectOf kernel ": access " id
  let allocationArg ← requiredInteger row "allocation_arg"
  let loop ← optionalInteger row "loop_id"
  let condition ← optionalInteger row "cond_id"
  let conditionKind := (Datum.field? "cond_kind" row).getD .null
  let expressionTokens := (Datum.field? "expression_tokens" row).getD (.list [])
  let (expression, expressionErrors) ←
    attempt (Postfix.build settings) (subject ++ " expression") expressionTokens
  let (tree, treeErrors) ← attempt (Bracketed.build settings) (subject ++ " tree") treeTokens
  return { kernel, id, allocationArg, loop, condition, conditionKind, expression, tree
           buildErrors := expressionErrors ++ treeErrors }

abbrev AccessName := Datum.Key × Int

/-- The kernel and the number that an access row is about. -/
def accessOf (row : Row) : Reading (Datum × Int) :=
  return (← kernelOf row, ← requiredInteger row "access_id")

def accessName (access : Datum × Int) : Reading AccessName :=
  return (← reading access.1.toKey, access.2)

def separateTree (datum : Datum) : Reading (AccessName × Datum) := do
  let row ← reading datum.entries
  let access ← accessOf row
  let tokens ← reading (Datum.required "tree_tokens" row)
  return (← accessName access, tokens)

/-- The tree tokens of an access are its own, or else those catalogued separately. -/
def treeTokens (separate : List (AccessName × Datum)) (row : Row) : Reading Datum := do
  let access ← accessOf row
  let own := (Datum.field? "tree_tokens" row).getD .null
  if own.holds then return own
  return (Register.find (← accessName access) separate).getD (.list [])

structure PhiRow where
  /-- Rows without a kernel are about every kernel. -/
  kernel : Option Datum
  phi : Int
  loop : Int

def phiKernel : Option Datum → Reading (Option Datum)
  | none => .ok none
  | some .null => .ok none
  | some name => do
      let _ ← reading name.toKey
      return some name

def phiRow (datum : Datum) : Reading PhiRow :=
  match datum with
  | .table row => do
      let kernel ← phiKernel (Datum.field? "kernel_name" row)
      let loop ← requiredInteger row "loop_id"
      let phi ← requiredInteger row "phi_id"
      return { kernel, phi, loop }
  | _ => .error Misuse.unsupported

/-- Adds an entry to the register of a group. -/
def insertIn {Group Key Entry : Type} [BEq Group] [BEq Key] (group : Group) (key : Key)
    (entry : Entry) (groups : List (Group × List (Key × Entry))) :
    List (Group × List (Key × Entry)) :=
  let register := (Register.find group groups).getD []
  Register.insert group (Register.insert key entry register) groups

def grouped {Group Key Entry : Type} [BEq Group] [BEq Key]
    (entries : List (Group × Key × Entry)) : List (Group × List (Key × Entry)) :=
  entries.foldl (fun groups entry => insertIn entry.1 entry.2.1 entry.2.2 groups) []

def PhiRow.isShared (row : PhiRow) : Bool := row.kernel.isNone

def PhiRow.names (key : Datum.Key) (row : PhiRow) : Bool :=
  row.kernel.bind Datum.key? == some key

/-- The phi loops of a kernel: rows that name it precede rows for every kernel. -/
def phiLoopsOf (phis : List PhiRow) (key : Datum.Key) : List (Int × Int) :=
  let rows := phis.filter PhiRow.isShared ++ phis.filter (PhiRow.names key)
  Register.ofList (rows.map (fun row => (row.phi, row.loop)))

/-- The entries of a list by the keys that kernels are named by. -/
def keyed {Entry : Type} (kernel : Entry → Datum) (entries : List Entry) :
    List (Datum.Key × Entry) :=
  entries.filterMap (fun entry => (kernel entry).key?.map (fun key => (key, entry)))

/-- Whether two keys can be put in order: numbers with numbers and texts with texts. -/
def areComparable : Datum.Key → Datum.Key → Bool
  | .number _, .number _ => true
  | .text _, .text _ => true
  | _, _ => false

def isAtMost : Datum.Key → Datum.Key → Bool
  | .number first, .number second => !second.isBelow first
  | .text first, .text second => !decide (second < first)
  | _, _ => true

/-- The names by their keys in ascending order. Of equal names the first counts. -/
def sortNames (names : List (Datum.Key × Datum)) : Reading (List (Datum.Key × Datum)) :=
  match Register.ofList names.reverse with
  | [] => .ok []
  | first :: rest =>
      if rest.all (fun name => areComparable first.1 name.1) then
        .ok (Register.sort (fun name other => isAtMost name.1 other.1) (first :: rest))
      else .error Misuse.wrongType

def ofRecords (loops : List LoopRecord) (accesses : List AccessRecord) (phis : List PhiRow) :
    Reading Catalogue := do
  let loops := keyed LoopRecord.kernel loops
  let accesses := keyed AccessRecord.kernel accesses
  let names ← sortNames (loops.map (fun loop => (loop.1, loop.2.kernel)) ++
    accesses.map (fun access => (access.1, access.2.kernel)) ++
    keyed id (phis.filterMap PhiRow.kernel))
  let loopGroups := grouped (loops.map (fun loop => (loop.1, loop.2.id, loop.2)))
  let accessGroups := grouped (accesses.map (fun access => (access.1, access.2.id, access.2)))
  return names.map (fun (key, name) =>
    (key,
      { name := name
        loops := (Register.find key loopGroups).getD []
        accesses := (Register.find key accessGroups).getD []
        phiLoops := phiLoopsOf phis key }))

structure Tables where
  loopRows : Datum := .list []
  accessRows : Datum := .list []
  accessTreeRows : Datum := .list []
  phiLoopRows : Datum := .list []

/-- A record whose kernel can be looked up. -/
def catalogued {Record : Type} (kernel : Record → Datum) (record : Record) : Reading Record := do
  let _ ← reading (kernel record).toKey
  return record

def ofTables (settings : Settings) (tables : Tables) : Reading Catalogue := do
  let loops ← (← rows tables.loopRows).mapM (fun datum => do
    catalogued LoopRecord.kernel (← loopRecord settings (← reading datum.entries)))
  let separate ← (← rows tables.accessTreeRows).mapM separateTree
  let separate := Register.ofList separate
  let accesses ← (← rows tables.accessRows).mapM (fun datum => do
    let row ← reading datum.entries
    catalogued AccessRecord.kernel
      (← accessRecord settings row (← treeTokens separate row)))
  let phis ← (← rows tables.phiLoopRows).mapM phiRow
  ofRecords loops accesses phis

/-- The record of a kernel, if it is catalogued. -/
def find? (catalogue : Catalogue) (name : Datum) : Except Misuse (Option KernelRecord) :=
  return Register.find (← name.toKey) catalogue

/-- The record of a kernel that must be catalogued. -/
def kernel (catalogue : Catalogue) (name : Datum) : Except Fault KernelRecord := do
  match ← reading (catalogue.find? name) with
  | some record => return record
  | none => throw (Misuse.missingKey : Fault)

end Catalogue

end KernelFootprint
