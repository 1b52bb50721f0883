import KernelFootprint.Fault
import KernelFootprint.Register
import KernelFootprint.Text.Numeral

/-!
# Reading data

Rows and options are read by converting their data at the point of use. An
integer may come as a number, whose value is cut off toward zero, or as a
numeral. A sequence may come as a list, as a text, which is read by characters,
or as a table, which is read by its keys.
-/

namespace KernelFootprint.Datum

/-- The integer that a number is cut off to. -/
def cutOff : Number.Extended → Except Misuse Int
  | .finite value => .ok (value.num.tdiv value.den)
  | .infinite _ => .error .infiniteNumber
  | .undefined => .error .undefinedNumber

def toInteger : Datum → Except Misuse Int
  | .integer value => .ok value
  | .flag value => .ok (if value then 1 else 0)
  | .decimal value => cutOff value.value
  | .text value =>
      match Text.readInteger value with
      | some value => .ok value
      | none => .error .unreadableNumeral
  | _ => .error .wrongType

/-- The position that a datum names among elements; flags are positions, too. -/
def toIndex : Datum → Except Misuse Int
  | .integer value => .ok value
  | .flag value => .ok (if value then 1 else 0)
  | _ => .error .wrongType

def elements : Datum → Except Misuse (List Datum)
  | .list items => .ok items
  | .text value => .ok (value.toList.map (fun character => .text (String.singleton character)))
  | .table entries => .ok (entries.map (fun entry => .text entry.1))
  | _ => .error .wrongType

def toText : Datum → Except Misuse String
  | .text value => .ok value
  | _ => .error .wrongType

/-- The elements of a list that holds texts only. -/
def texts? : List Datum → Option (List String)
  | [] => some []
  | .text first :: rest => (texts? rest).map (first :: ·)
  | _ :: _ => none

@[simp] theorem texts?_map_text (texts : List String) :
    texts? (texts.map .text) = some texts := by
  induction texts with
  | nil => rfl
  | cons first rest ih => simp [texts?, ih]

/-- Whether a count is above a limit given as a number. -/
def isExceededBy (limit : Datum) (count : Nat) : Except Misuse Bool :=
  match limit.number? with
  | some bound => .ok (bound.isBelow (.finite count))
  | none => .error .wrongType

/-- Whether a count has come to a limit given as a number. -/
def isReachedBy (limit : Datum) (count : Nat) : Except Misuse Bool :=
  match limit.number? with
  | some bound => .ok (bound.isAtMost (.finite count))
  | none => .error .wrongType

def entries : Datum → Except Misuse (List (String × Datum))
  | .table entries => .ok entries
  | _ => .error .wrongType

/-- The entry of a row that must be there. -/
def required (name : String) (row : List (String × Datum)) : Except Misuse Datum :=
  match field? name row with
  | some entry => .ok entry
  | none => .error .missingKey

/-- The number that a datum names and the entry with it. -/
def findEntry {Entry : Type} (name : Datum) (entries : List (Int × Entry)) :
    Except Misuse (Option (Int × Entry)) :=
  if name.isKey then .ok (entries.find? (fun entry => Datum.integer entry.1 == name))
  else .error .wrongType

/-- The entry with the number that a datum names. -/
def findNumbered {Entry : Type} (name : Datum) (entries : List (Int × Entry)) :
    Except Misuse (Option Entry) :=
  (findEntry name entries).map (Option.map Prod.snd)

theorem findNumbered_integer {Entry : Type} (number : Int) (entries : List (Int × Entry)) :
    findNumbered (.integer number) entries = .ok (Register.find number entries) := by
  change Except.ok _ = Except.ok _
  congr 1
  induction entries with
  | nil => rfl
  | cons entry rest ih =>
      rw [List.find?_cons, beq_integer, Register.find]
      cases entry.1 == number with
      | true => rfl
      | false => exact ih

/-- The key that a datum is to serve as. -/
def toKey (datum : Datum) : Except Misuse Key :=
  match datum.key? with
  | some key => .ok key
  | none => .error .wrongType

end KernelFootprint.Datum

namespace KernelFootprint.Value

/-- The integer that a value is converted to; expressions have none. -/
def toInteger : Value → Except Misuse Int
  | .int value => .ok value
  | .datum content => content.toInteger
  | _ => .error .wrongType

end KernelFootprint.Value
