import KernelFootprint.Value.Operand
import KernelFootprint.Word

/-!
# Evaluation of deferred values

Once its variables are known a deferred value is a number, exact unless decimals
are involved: arithmetic is unbounded, quotients round toward minus infinity,
remainders have the sign of the divisor, and bitwise operations and shifts see
two's complement of unbounded length. Operands are valued and combined one after
the other. Substitution replaces variables once and simplifies nothing.
An expression is made of numbers, flags and variables; sums, products,
quotients and remainders take no flags once variables have been replaced.
-/

namespace KernelFootprint

/-- Whether an operation takes numbers and expressions only. -/
def ManyOp.isArithmetic : ManyOp → Bool
  | .sum => true
  | .product => true
  | _ => false

def PairOp.isArithmetic : PairOp → Bool
  | .floorDiv => true
  | .remainder => true
  | _ => false

namespace Value

/-- Whether a value is a number or an expression. -/
def isArithmetic : Value → Bool
  | .datum (.integer _) => true
  | .datum (.decimal _) => true
  | .datum _ => false
  | _ => true

/-- The value as an operand of an operation, which may ask for arithmetic ones. -/
def asOperand (value : Value) (arithmetic : Bool) : Except Misuse Value :=
  if arithmetic && !value.isArithmetic then .error .notArithmetic else .ok value

/-- Only numbers and flags may stand in an expression. -/
def requireNumber (content : Datum) : Except Misuse Unit :=
  if content.number?.isSome then .ok () else .error .notAnExpression

mutual

def substitute (replacement : String → Option Value) : Value → Except Misuse Value
  | .int value => .ok (.int value)
  | .datum content => (requireNumber content).map (fun _ => .datum content)
  | .var name => .ok ((replacement name).getD (.var name))
  | .many op operands => do
      return .many op (← substituteAll replacement op.isArithmetic operands)
  | .pair op first second => do
      let first ← (← substitute replacement first).asOperand op.isArithmetic
      let second ← (← substitute replacement second).asOperand op.isArithmetic
      return .pair op first second
  | .call function parameters => do
      return .call function (← substituteAll replacement false parameters)

def substituteAll (replacement : String → Option Value) (arithmetic : Bool) :
    List Value → Except Misuse (List Value)
  | [] => .ok []
  | first :: rest => do
      let first ← (← substitute replacement first).asOperand arithmetic
      return first :: (← substituteAll replacement arithmetic rest)

end

mutual

def hasVariables : Value → Except Misuse Bool
  | .int _ => .ok false
  | .datum content => (requireNumber content).map (fun _ => false)
  | .var _ => .ok true
  | .many _ operands => anyHasVariables operands
  | .pair _ first second => do
      let inFirst ← hasVariables first
      let inSecond ← hasVariables second
      return inFirst || inSecond
  | .call _ _ => .ok true

def anyHasVariables : List Value → Except Misuse Bool
  | [] => .ok false
  | first :: rest => do
      let inFirst ← hasVariables first
      let inRest ← anyHasVariables rest
      return inFirst || inRest

end

/-- The text of a value. A deferred value is shown if it is a proper expression. -/
def describe : Value → Except Misuse String
  | .datum content => content.describe
  | value => do
      let _ ← value.hasVariables
      if value.isWritable then return value.shown
      throw .unreadableNumeral

theorem describe_int (value : Int) :
    (Value.int value).describe = Text.writeInteger value := by
  have shown : (Value.int value).shown = toString value := by
    change bracketed (value < 0 && 11 < 0) (toString value) = _
    rw [bracketed, Bool.and_comm]
    rfl
  rw [Text.writeInteger, ← shown]
  rfl

/-- The shifts to the left that no number can be long enough for. -/
def boundlessShift : Int := 30 <<< 61

/-- The shifts to the left whose result is too long to be stored. -/
def storableShift : Int := 1 <<< 32

def shiftLeft (value amount : Int) : Except Misuse Int :=
  if amount < 0 then .error .negativeShift
  else if value = 0 then .ok 0
  else if boundlessShift ≤ amount then .error .countTooLarge
  else if storableShift ≤ amount then .error .resultTooLarge
  else .ok (value <<< amount.toNat)

def shiftRight (value amount : Int) : Except Misuse Int :=
  if amount < 0 then .error .negativeShift else .ok (value >>> amount.toNat)

end Value

/-- The result of an operation without operands. -/
def ManyOp.ofNothing : ManyOp → Except Misuse Operand
  | .sum => .ok (.exact 0)
  | .product => .ok (.exact 1)
  | .bitAnd => .error .wrongType
  | .bitOr => .error .wrongType
  | .max => .error .noExtremum
  | .min => .error .noExtremum

def ManyOp.apply : ManyOp → Operand → Operand → Except Misuse Operand
  | .sum, first, second => first.add second
  | .product, first, second => first.mul second
  | .bitAnd, first, second =>
      Operand.onIntegers (fun first second => .ok (KernelFootprint.bitAnd first second)) first second
  | .bitOr, first, second =>
      Operand.onIntegers (fun first second => .ok (KernelFootprint.bitOr first second)) first second
  | .max, first, second => .ok (first.max second)
  | .min, first, second => .ok (first.min second)

def PairOp.apply : PairOp → Operand → Operand → Except Misuse Operand
  | .shiftLeft, first, second => Operand.onIntegers Value.shiftLeft first second
  | .shiftRight, first, second => Operand.onIntegers Value.shiftRight first second
  | .floorDiv, first, second => first.floorDiv second
  | .remainder, first, second => first.remainder second

namespace Value

mutual

/-- The number that a value stands for where variables have the given values. -/
def measure (environment : String → Option Int) : Value → Except Misuse Operand
  | .int value => .ok (.exact value)
  | .datum content =>
      match content.operand? with
      | some operand => .ok operand
      | none => .error .notAnExpression
  | .var name =>
      match environment name with
      | some value => .ok (.exact value)
      | none => .error .missingKey
  | .many op [] => op.ofNothing
  | .many op (first :: rest) => do
      measureRest environment op (← measure environment first) rest
  | .pair op first second => do
      op.apply (← measure environment first) (← measure environment second)
  | .call _ _ => .error .wrongType

/-- Applies an operation to what it has come to and the remaining operands in turn. -/
def measureRest (environment : String → Option Int) (op : ManyOp) (total : Operand) :
    List Value → Except Misuse Operand
  | [] => .ok total
  | first :: rest => do
      measureRest environment op (← op.apply total (← measure environment first)) rest

end

/-- The integer that a value is cut off to where variables have the given values. -/
def evaluate (environment : String → Option Int) (value : Value) : Except Misuse Int := do
  (← value.measure environment).toInteger

end Value

end KernelFootprint
