import KernelFootprint.Datum
import KernelFootprint.Text.Numeral
import KernelFootprint.Text.Quoted

/-!
# Data as text

The written form of a datum puts quotes around text. A text shown on its own
has none. Only a datum whose integers all have numerals can be written.
-/

namespace KernelFootprint.Datum

mutual

def written : Datum → String
  | .null => "None"
  | .flag value => if value then "True" else "False"
  | .integer value => toString value
  | .decimal value => value.written
  | .text value => Text.quoted value
  | .list items => "[" ++ ", ".intercalate (writtenItems items) ++ "]"
  | .table entries => "\x7b" ++ ", ".intercalate (writtenEntries entries) ++ "\x7d"

def writtenItems : List Datum → List String
  | [] => []
  | first :: rest => written first :: writtenItems rest

def writtenEntries : List (String × Datum) → List String
  | [] => []
  | (name, entry) :: rest => (Text.quoted name ++ ": " ++ written entry) :: writtenEntries rest

end

def shown : Datum → String
  | .text value => value
  | other => other.written

mutual

/-- Whether all integers of a datum can be written. -/
def isWritable : Datum → Bool
  | .integer value => Text.hasNumeral value
  | .list items => areWritable items
  | .table entries => haveWritable entries
  | _ => true

def areWritable : List Datum → Bool
  | [] => true
  | first :: rest => isWritable first && areWritable rest

def haveWritable : List (String × Datum) → Bool
  | [] => true
  | (_, entry) :: rest => isWritable entry && haveWritable rest

end

end KernelFootprint.Datum
