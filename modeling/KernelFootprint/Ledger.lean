import KernelFootprint.Fault
import KernelFootprint.Word

/-!
# The ledger of an analysis

An analysis may fail, and it keeps a ledger that outlives a failure: the
requests made to the emitter of deferred values, the loop quantities computed
so far, and the loops whose bounds are being evaluated.
-/

namespace KernelFootprint

/-- What an emitter is asked for. -/
inductive Request
  | constant (width : Width) (value : Value)
  | operation (op : WordOp) (first second : Value)

structure Ledger where
  /-- The requests answered so far, the latest first. -/
  requests : List Request := []
  lowerBounds : List (Int × Value) := []
  upperBounds : List (Int × Value) := []
  iterationCounts : List (Int × Value) := []
  active : List Int := []

abbrev Analysis := ExceptT Fault (StateM Ledger)

namespace Analysis

variable {Result : Type}

def fail (fault : Fault) : Analysis Result := throw fault

def ofExcept (outcome : Except Fault Result) : Analysis Result :=
  match outcome with
  | .ok result => pure result
  | .error fault => throw fault

/-- The outcome of an analysis and the ledger after it. -/
def outcome (analysis : Analysis Result) (ledger : Ledger) : Except Fault Result × Ledger :=
  analysis.run.run ledger

end Analysis

end KernelFootprint
