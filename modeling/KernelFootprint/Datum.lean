import KernelFootprint.Number.Decimal

/-!
# Loose data

Rows of analysis tables and option values come without a fixed type. A datum
is such a value: nothing, a flag, a number, a text, a list or a table with text
keys. Flags count as the numbers zero and one wherever numbers are compared. A
datum that is neither a list nor a table can serve as a key.
-/

namespace KernelFootprint

inductive Datum
  | null
  | flag (value : Bool)
  | integer (value : Int)
  | decimal (value : Number.Decimal)
  | text (value : String)
  | list (items : List Datum)
  | table (entries : List (String × Datum))
  deriving Inhabited

namespace Datum

def number? : Datum → Option Number.Extended
  | .flag value => some (.finite (if value then 1 else 0))
  | .integer value => some (.finite value)
  | .decimal value => some value.value
  | _ => none

/-- Nothing, zero and whatever is empty do not hold. -/
def holds : Datum → Bool
  | .null => false
  | .flag value => value
  | .integer value => value != 0
  | .decimal value => value.value != .finite 0
  | .text value => value != ""
  | .list items => !items.isEmpty
  | .table entries => !entries.isEmpty

/-- What a datum is looked up by. Numbers of any spelling are one key if they
have one value. -/
inductive Key
  | nothing
  | number (value : Number.Extended)
  | text (value : String)
  deriving DecidableEq

/-- The key that a datum serves as; lists and tables serve as none. -/
def key? : Datum → Option Key
  | .null => some .nothing
  | .text value => some (.text value)
  | datum => datum.number?.map .number

def isKey (datum : Datum) : Bool := datum.key?.isSome

def field? (name : String) : List (String × Datum) → Option Datum
  | [] => none
  | (other, entry) :: rest => if other == name then some entry else field? name rest

mutual

/-- Equality, with numbers of any spelling compared by value. -/
def same : Datum → Datum → Bool
  | .null, .null => true
  | .text first, .text second => first == second
  | .list items, .list others => sameItems items others
  | .table entries, .table others =>
      entries.length == others.length && sameEntries entries others
  | first, second =>
      match first.number?, second.number? with
      | some number, some other => number == other
      | _, _ => false

def sameItems : List Datum → List Datum → Bool
  | [], [] => true
  | first :: rest, second :: tail => same first second && sameItems rest tail
  | _, _ => false

def sameEntries : List (String × Datum) → List (String × Datum) → Bool
  | [], _ => true
  | (name, entry) :: rest, others =>
      (match field? name others with
        | some other => same entry other
        | none => false) && sameEntries rest others

end

instance : BEq Datum := ⟨same⟩

/-- Equality of data that are neither elements nor keys: an undefined number equals
nothing, itself included. -/
def isSame (first second : Datum) : Bool :=
  first.number? != some .undefined && first == second

@[simp] theorem beq_text (first second : String) :
    (Datum.text first == Datum.text second) = (first == second) := by
  simp only [BEq.beq, same]

@[simp] theorem isSame_text (first : String) (second : Datum) :
    (Datum.text first).isSame second = (Datum.text first == second) := rfl

@[simp] theorem beq_integer (first second : Int) :
    (Datum.integer first == Datum.integer second) = (first == second) := by
  change same (.integer first) (.integer second) = (first == second)
  rw [Bool.eq_iff_iff]
  simp [same, number?]

/-- Data that can serve as keys are equal if they are the same key. -/
theorem beq_eq_key?_beq {first second : Datum} (serves : first.isKey = true)
    (otherServes : second.isKey = true) : (first == second) = (first.key? == second.key?) := by
  change same first second = _
  rw [Bool.eq_iff_iff]
  cases first <;> cases second <;> simp_all [same, isKey, key?, number?]

end Datum

end KernelFootprint
