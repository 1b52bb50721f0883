import KernelFootprint.Datum

/-!
# Values

A value is an integer known during the analysis or a deferred expression over
quantities of the host program. Deferred expressions are never simplified. A
datum that is no integer is a deferred value of its own.
-/

namespace KernelFootprint

/-- Deferred operations with any number of operands. -/
inductive ManyOp
  | sum
  | product
  | bitAnd
  | bitOr
  | max
  | min
  deriving DecidableEq

/-- Deferred operations with two operands of different roles. -/
inductive PairOp
  | shiftLeft
  | shiftRight
  | floorDiv
  | remainder
  deriving DecidableEq

inductive Value
  | int (value : Int)
  | datum (content : Datum)
  | var (name : String)
  | many (op : ManyOp) (operands : List Value)
  | pair (op : PairOp) (first second : Value)
  | call (function : String) (parameters : List Value)
  deriving Inhabited

def ManyOp.all : List ManyOp := [.sum, .product, .bitAnd, .bitOr, .max, .min]

def ManyOp.name : ManyOp → String
  | .sum => "Sum"
  | .product => "Product"
  | .bitAnd => "BitwiseAnd"
  | .bitOr => "BitwiseOr"
  | .max => "Max"
  | .min => "Min"

def PairOp.all : List PairOp := [.shiftLeft, .shiftRight, .floorDiv, .remainder]

def PairOp.name : PairOp → String
  | .shiftLeft => "LeftShift"
  | .shiftRight => "RightShift"
  | .floorDiv => "FloorDiv"
  | .remainder => "Remainder"

namespace Value

instance (value : Nat) : OfNat Value value := ⟨.int value⟩

def integer? : Value → Option Int
  | .int value => some value
  | _ => none

def isInteger (value : Value) : Bool := value.integer?.isSome

def isNull : Value → Bool
  | .datum .null => true
  | _ => false

/-- A bare name becomes the variable of that name. -/
def ofName : Value → Value
  | .datum (.text name) => .var name
  | value => value

/-- Whether a value equals a datum; an expression equals none. -/
def sameAs : Value → Datum → Bool
  | .int value, other => Datum.integer value == other
  | .datum content, other => content == other
  | _, _ => false

/-- The name of the class of things that a value belongs to. -/
def className : Value → String
  | .int _ => "int"
  | .datum .null => "NoneType"
  | .datum (.flag _) => "bool"
  | .datum (.integer _) => "int"
  | .datum (.decimal _) => "float"
  | .datum (.text _) => "str"
  | .datum (.list _) => "list"
  | .datum (.table _) => "dict"
  | .var _ => "Variable"
  | .many op _ => op.name
  | .pair op _ _ => op.name
  | .call _ _ => "Call"

end Value

end KernelFootprint
