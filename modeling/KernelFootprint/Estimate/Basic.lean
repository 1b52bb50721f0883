import KernelFootprint.Emission
import KernelFootprint.Datum.Printing
import KernelFootprint.Register
import KernelFootprint.Text.Part

/-!
# Estimates of accesses

An estimate says of one access of one invocation how often it is executed over
the whole grid, how far its addresses spread, and by how much they move along
each axis. What could not be estimated is missing, with a flag or an error
telling why. The estimates of an invocation are kept in the order of their
accesses, together with the iteration counts of all loops.
-/

namespace KernelFootprint

inductive SensitivityAxis
  | blockX
  | blockY
  | loop
  | hostLoop
  deriving DecidableEq

def SensitivityAxis.name : SensitivityAxis → String
  | .blockX => "BLOCK_X"
  | .blockY => "BLOCK_Y"
  | .loop => "LOOP"
  | .hostLoop => "HOST_LOOP"

/-- Why an access went without some estimate. -/
inductive Flag
  | pointerChase
  | indirect
  | incomplete
  | incomputable
  deriving DecidableEq

def Flag.all : List Flag := [.pointerChase, .indirect, .incomplete, .incomputable]

def Flag.name : Flag → String
  | .pointerChase => "POINTER_CHASE"
  | .indirect => "INDIRECT"
  | .incomplete => "INCOMPLETE"
  | .incomputable => "INCOMPUTABLE"

def Flag.ofName? (name : String) : Option Flag := all.find? (fun flag => flag.name == name)

structure AccessKey where
  access : Int
  allocation : Datum
  invocation : Datum

instance : BEq AccessKey :=
  ⟨fun first second => first.access == second.access &&
    first.allocation == second.allocation && first.invocation == second.invocation⟩

/-- Whether all parts of a key can serve as keys. -/
def AccessKey.isKey (key : AccessKey) : Bool := key.allocation.isKey && key.invocation.isKey

/-- Whether a key has the given parts, with numbers of any spelling. -/
def AccessKey.isGivenBy (key : AccessKey) (access allocation invocation : Datum) : Bool :=
  Datum.integer key.access == access && key.allocation == allocation &&
    key.invocation == invocation

def AccessKey.shown (key : AccessKey) : String :=
  "AccessKey(access " ++ toString key.access ++ ", allocation " ++ key.allocation.shown ++
    ", invocation " ++ key.invocation.shown ++ ")"

structure Estimate where
  key : AccessKey
  loop : Int
  executionCount : Option Value := none
  workingSet : Option Value := none
  sensitivities : List (SensitivityAxis × Value) := []
  flags : List Flag := []
  errors : List String := []

structure EstimateMap where
  estimates : List Estimate := []
  loopIterations : List (Int × Option Value) := []

namespace Estimate

def optionSameAs : Option Value → Datum → Bool
  | some value, datum => value.sameAs datum
  | none, .null => true
  | none, _ => false

/-- Whether the field of a name has a value; a name of no such field never has. -/
def fieldIs (estimate : Estimate) (name : String) (datum : Datum) : Bool :=
  match name with
  | "access_id" => Datum.integer estimate.key.access == datum
  | "allocation" => estimate.key.allocation == datum
  | "invocation_id" => estimate.key.invocation == datum
  | "loop_id" => Datum.integer estimate.loop == datum
  | "execution_count" => optionSameAs estimate.executionCount datum
  | "working_set" => optionSameAs estimate.workingSet datum
  | _ => false

/-- The text that the field of a name is, if it is one. -/
def textField? (estimate : Estimate) (name : String) : Option String :=
  match name, estimate.key with
  | "allocation", ⟨_, .text value, _⟩ => some value
  | "invocation_id", ⟨_, _, .text value⟩ => some value
  | _, _ => none

/-- Whether the field of a name is in what is allowed for it: an element of a list,
a name in a table, or a part of a text, in which nothing but texts can be looked for. -/
def fieldIsIn (estimate : Estimate) (name : String) : Datum → Except Misuse Bool
  | .list allowed => .ok (allowed.any (estimate.fieldIs name))
  | .table entries => .ok (entries.any (fun entry => estimate.fieldIs name (.text entry.1)))
  | .text whole =>
      match estimate.textField? name with
      | some part => .ok (Text.isPartOf part.toList whole.toList)
      | none => .error .wrongType
  | _ => .error .wrongType

/-- Whether all fields are in what is allowed for them. The first one that is not decides. -/
def fieldsAreIn (estimate : Estimate) : List (String × Datum) → Except Misuse Bool
  | [] => .ok true
  | (name, allowed) :: rest => do
      if ← estimate.fieldIsIn name allowed then fieldsAreIn estimate rest
      else return false

theorem fieldsAreIn_list (estimate : Estimate) (fields : List (String × List Datum)) :
    estimate.fieldsAreIn (fields.map (fun field => (field.1, .list field.2))) =
      .ok (fields.all (fun field => field.2.any (estimate.fieldIs field.1))) := by
  induction fields with
  | nil => rfl
  | cons field rest ih =>
      change (if field.2.any (estimate.fieldIs field.1) = true then _ else _) = _
      rw [List.all_cons]
      cases field.2.any (estimate.fieldIs field.1) with
      | true => exact ih
      | false => rfl

end Estimate

namespace EstimateMap

/-- Puts an estimate in place of one with the same key, or at the end. -/
def insertIn (estimate : Estimate) : List Estimate → List Estimate
  | [] => [estimate]
  | first :: rest =>
      if first.key == estimate.key then estimate :: rest else first :: insertIn estimate rest

def found : Option Estimate → Except Misuse Estimate
  | some estimate => .ok estimate
  | none => .error .missingKey

def find? (map : EstimateMap) (key : AccessKey) : Option Estimate :=
  map.estimates.find? (fun estimate => estimate.key == key)

/-- The first estimate of an access whose number is given as loose data. -/
def byAccess (map : EstimateMap) (access : Datum) : Except Misuse Estimate :=
  found (map.estimates.find? (fun estimate => Datum.integer estimate.key.access == access))

/-- The estimate of a key whose parts are given as loose data. -/
def lookUp (map : EstimateMap) : List Datum → Except Misuse Estimate
  | [access, allocation, invocation] =>
      if access.isKey && allocation.isKey && invocation.isKey then
        found (map.estimates.find? (fun estimate =>
          estimate.key.isGivenBy access allocation invocation))
      else .error .wrongType
  | _ => .error .wrongType

def filter (map : EstimateMap) (keep : Estimate → Bool) : EstimateMap :=
  { map with estimates := map.estimates.filter keep }

/-- The estimates whose fields are in what is allowed for them. -/
def keptBy (fields : List (String × Datum)) : List Estimate → Except Misuse (List Estimate)
  | [] => .ok []
  | first :: rest => do
      let isKept ← first.fieldsAreIn fields
      let others ← keptBy fields rest
      return if isKept then first :: others else others

theorem keptBy_list (fields : List (String × List Datum)) (estimates : List Estimate) :
    keptBy (fields.map (fun field => (field.1, .list field.2))) estimates =
      .ok (estimates.filter (fun estimate =>
        fields.all (fun field => field.2.any (estimate.fieldIs field.1)))) := by
  induction estimates with
  | nil => rfl
  | cons first rest ih =>
      rw [keptBy, Estimate.fieldsAreIn_list, ih, List.filter_cons]
      rfl

/-- The estimates whose fields all have one of their allowed values. -/
def filterBy (map : EstimateMap) (fields : List (String × List Datum)) : EstimateMap :=
  map.filter (fun estimate =>
    fields.all (fun field => field.2.any (estimate.fieldIs field.1)))

/-- Filters by named fields, none of which may have the name that the map itself goes by.
What is allowed for a field need not be a list. -/
def filterByNamed (map : EstimateMap) (fields : List (String × Datum)) :
    Except Misuse EstimateMap := do
  if fields.any (fun field => field.1 == "self") then throw .wrongType
  return { map with estimates := ← keptBy fields map.estimates }

theorem filterByNamed_list (map : EstimateMap) {fields : List (String × List Datum)}
    (named : ∀ field ∈ fields, field.1 ≠ "self") :
    map.filterByNamed (fields.map (fun field => (field.1, .list field.2))) =
      .ok (map.filterBy fields) := by
  have free : (fields.map (fun field => (field.1, Datum.list field.2))).any
      (fun field => field.1 == "self") = false := by
    rw [List.any_map, List.any_eq_false]
    intro field member
    simpa using named field member
  rw [filterByNamed, free, keptBy_list]
  rfl

def withFlag (map : EstimateMap) (flag : Flag) : EstimateMap :=
  map.filter (fun estimate => estimate.flags.contains flag)

/-- The estimates with the flag of a name. The name does not matter if there are none. -/
def withFlagNamed (map : EstimateMap) (name : String) : Except Misuse EstimateMap :=
  match Flag.ofName? name with
  | some flag => .ok (map.withFlag flag)
  | none => if map.estimates.isEmpty then .ok map else .error .missingKey

/-- Adds an estimate to the group of its allocation. -/
def addToGroups (groups : List (Datum × List Estimate)) (estimate : Estimate) :
    List (Datum × List Estimate) :=
  let allocation := estimate.key.allocation
  let group := (Register.find allocation groups).getD []
  Register.insert allocation (group ++ [estimate]) groups

/-- The estimates of each allocation, in the order of first occurrence. -/
def groupByAllocation (map : EstimateMap) : List (Datum × EstimateMap) :=
  (map.estimates.foldl addToGroups []).map (fun group =>
    (group.1, { map with estimates := group.2 }))

/-- The sum of all working sets that are there. -/
def totalWorkingSet (map : EstimateMap) (emitter : Emitter) : Analysis Value :=
  (map.estimates.filterMap Estimate.workingSet).foldlM (emitter.combine .add) 0

end EstimateMap

end KernelFootprint
