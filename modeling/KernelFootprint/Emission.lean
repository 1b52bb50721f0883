import KernelFootprint.Datum.Reading
import KernelFootprint.Ledger
import KernelFootprint.Word.Folding

/-!
# Emission of deferred values

An emitter answers requests for constants and operations whose operands are
only known at launch. Operations on known integers are folded at once; as soon
as one operand is deferred, known ones are turned into constants of the
emitter, the first operand before the second, and the operation is requested.
-/

namespace KernelFootprint

/-- An emitter may take the requests answered before into account. -/
structure Emitter where
  respond : List Request → Request → Except Fault Value

/-- The expression for an operation on deferred operands. Subtraction adds the
product with minus one, and both divisions become floor division. -/
def WordOp.deferred (op : WordOp) (first second : Value) : Value :=
  match op with
  | .add => .many .sum [first, second]
  | .sub => .many .sum [first, .many .product [.int (-1), second]]
  | .mul => .many .product [first, second]
  | .and => .many .bitAnd [first, second]
  | .shl => .pair .shiftLeft first second
  | .lshr => .pair .shiftRight first second
  | .udiv => .pair .floorDiv first second
  | .sdiv => .pair .floorDiv first second
  | .srem => .pair .remainder first second
  | .max => .many .max [first, second]
  | .min => .many .min [first, second]

namespace Emitter

/-- Builds expressions over the host variables. -/
def symbolic : Emitter where
  respond _ request :=
    match request with
    | .constant width value =>
        (value.toInteger.map (fun value => .int (width.format.wrap value))).mapError Fault.misuse
    | .operation op first second => .ok (op.deferred first second)

/-- Names every answer by the number of its request, starting with one. -/
def numbered : Emitter where
  respond before _ := .ok (.var ("t" ++ toString (before.length + 1)))

/-- Answers no request. -/
def silent : Emitter where
  respond _ _ := .error Misuse.unimplemented

def emit (emitter : Emitter) (request : Request) : Analysis Value := do
  let ledger ← get
  let value ← Analysis.ofExcept (emitter.respond ledger.requests request)
  set { ledger with requests := request :: ledger.requests }
  return value

/-- A known integer becomes a constant of the emitter. -/
def lift (emitter : Emitter) : Value → Analysis Value
  | .int value => emitter.emit (.constant .wide (.int value))
  | value => pure value

def combine (emitter : Emitter) (op : WordOp) : Value → Value → Analysis Value
  | .int first, .int second => Analysis.ofExcept ((op.fold .wide first second).map .int)
  | first, second => do
      let first ← emitter.lift first
      let second ← emitter.lift second
      emitter.emit (.operation op first second)

/-- Combines values from left to right. An empty list has no result. -/
def combineAll (emitter : Emitter) (op : WordOp) : List Value → Analysis Value
  | [] => Analysis.fail Misuse.indexOutOfRange
  | first :: rest => rest.foldlM (emitter.combine op) first

end Emitter

/-- Wraps a known integer; deferred values have no width. -/
def Value.promote (width : Width) : Value → Value
  | .int value => .int (width.format.wrap value)
  | value => value

end KernelFootprint
