import KernelFootprint.Address.Range
import KernelFootprint.Catalogue

/-!
# Loop nests

The bounds of a loop are evaluated at iteration zero of every loop around it:
thread and block indices are zero and a phi term has the lower bound of its
loop. Evaluating a bound may so lead to the lower bounds of other loops. A loop
whose bound is asked for while it is being evaluated depends on itself. Hence
the loops in evaluation are distinct, and a budget of one more than the number
of catalogued loops is never used up. Values once computed are kept in the
ledger; failures are not.
-/

namespace KernelFootprint

structure LoopNest where
  kernel : KernelRecord
  resolver : Resolver
  settings : Settings

namespace LoopNest

/-- A finding about a loop that is quoted as it was asked for. -/
def incomputable (loop : Except Misuse String) (obstacle : Except Misuse LoopObstacle) : Fault :=
  .quoting (do return .incomputable (← loop) (← obstacle))

/-- The number and the record of a loop that is named by a datum. -/
def entry (nest : LoopNest) (loop : Datum) : Except Fault (Int × LoopRecord) :=
  match Datum.findEntry loop nest.kernel.loops with
  | .ok (some entry) => .ok entry
  | .ok none =>
      .error (incomputable loop.describe (do
        return .notCatalogued (← nest.kernel.name.describe)))
  | .error misuse => .error misuse

def record (nest : LoopNest) (loop : Datum) : Except Fault LoopRecord :=
  (nest.entry loop).map Prod.snd

def loopOf (nest : LoopNest) (phi : Option Nat) (otherwise : Datum) : Datum :=
  nest.kernel.loopForPhi (phi.map Int.ofNat) otherwise

/-- A finding about a catalogued loop. -/
def obstructed (record : LoopRecord) (obstacle : LoopObstacle) : Fault :=
  incomputable (Text.writeInteger record.id) (.ok obstacle)

def boundTree (record : LoopRecord) (which : Bound) : Except Fault BinaryTree :=
  let tree :=
    match which with
    | .initial => record.initial
    | .final => record.final
  match tree with
  | none => .error (obstructed record (.boundUnavailable which record.buildErrors))
  | some tree =>
      if tree.isSentinel then .error (obstructed record (.boundNotAnalyzable which)) else .ok tree

/-- Runs an evaluation with a loop marked as active, whatever its outcome. -/
def whileActive (loop : Int) (evaluation : Analysis Value) : Analysis Value := do
  modify (fun ledger => { ledger with active := loop :: ledger.active })
  let outcome ← (ExceptT.lift evaluation.run : Analysis (Except Fault Value))
  modify (fun ledger => { ledger with active := ledger.active.erase loop })
  Analysis.ofExcept outcome

/-- A quantity without a value makes its loop incomputable. -/
def asObstacle (record : LoopRecord) (quantity : LoopQuantity) : Fault → Fault
  | .analysis (.indeterminate cause) => obstructed record (.cannotEvaluate quantity cause)
  | fault => fault

/-- The setting in which the bounds of a loop are evaluated. -/
def boundContext (nest : LoopNest) (lowerBound : Datum → Analysis Value) (record : LoopRecord) :
    RangeContext where
  resolver := nest.resolver
  mode := .least
  phis := some ⟨nest.loopOf, lowerBound⟩
  loop := .integer record.parent

def evaluateBound (nest : LoopNest) (lowerBound : Datum → Analysis Value) (record : LoopRecord)
    (quantity : LoopQuantity) (tree : BinaryTree) : Analysis Value := do
  if (← get).active.contains record.id then
    Analysis.fail (obstructed record (.dependsOnItself quantity))
  else
    ExceptT.adapt (asObstacle record quantity)
      (whileActive record.id ((nest.boundContext lowerBound record).ofBinary tree))

/-- The kept value of a loop quantity, or else the value computed and kept now. -/
def remember (kept : Ledger → List (Int × Value)) (keep : List (Int × Value) → Ledger → Ledger)
    (loop : Int) (compute : Analysis Value) : Analysis Value := do
  match Register.find loop (kept (← get)) with
  | some value => return value
  | none =>
      let value ← compute
      modify (fun ledger => keep (Register.insert loop value (kept ledger)) ledger)
      return value

def rememberLower : Int → Analysis Value → Analysis Value :=
  remember Ledger.lowerBounds (fun values ledger => { ledger with lowerBounds := values })

def rememberUpper : Int → Analysis Value → Analysis Value :=
  remember Ledger.upperBounds (fun values ledger => { ledger with upperBounds := values })

def rememberCount : Int → Analysis Value → Analysis Value :=
  remember Ledger.iterationCounts (fun values ledger => { ledger with iterationCounts := values })

/-- A lower bound with at most `budget` nested evaluations of lower bounds. -/
def lowerBoundWithin (nest : LoopNest) : Nat → Datum → Analysis Value
  | 0, _ => Analysis.fail Misuse.unfinished
  | budget + 1, loop => do
      let (number, record) ← Analysis.ofExcept (nest.entry loop)
      rememberLower number (do
        let tree ← Analysis.ofExcept (boundTree record .initial)
        nest.evaluateBound (nest.lowerBoundWithin budget) record (.bound .initial) tree)

def lowerBound (nest : LoopNest) (loop : Datum) : Analysis Value :=
  nest.lowerBoundWithin (nest.kernel.loops.length + 1) loop

def upperBound (nest : LoopNest) (loop : Datum) : Analysis Value := do
  let (number, record) ← Analysis.ofExcept (nest.entry loop)
  rememberUpper number (do
    let tree ← Analysis.ofExcept (boundTree record .final)
    nest.evaluateBound nest.lowerBound record (.bound .final) tree)

/-- The tree of the distance between the bounds divided by the step, one if missing. -/
def iterationTree (nest : LoopNest) (loop : Datum) : Except Fault BinaryTree := do
  let record ← nest.record loop
  let initial ← boundTree record .initial
  let final ← boundTree record .final
  let distance := BinaryTree.combine .sub final initial
  match record.step with
  | none => return .combine .sdiv distance (.constant 1)
  | some step =>
      if step.isSentinel then
        throw (incomputable loop.describe (.ok .stepNotAnalyzable))
      return .combine .sdiv distance step

/-- A negative count becomes zero where counts are to be clamped. -/
def clamp (nest : LoopNest) : Value → Value
  | .int count =>
      if count < 0 && nest.settings.clampNegativeCounts.holds then 0 else .int count
  | count => count

def iterationCount (nest : LoopNest) (loop : Datum) : Analysis Value := do
  let (number, record) ← Analysis.ofExcept (nest.entry loop)
  rememberCount number (do
    match record.knownCount with
    | .null =>
        let tree ← Analysis.ofExcept (nest.iterationTree loop)
        return nest.clamp (← nest.evaluateBound nest.lowerBound record .iterationCount tree)
    | known => return .int (← Analysis.ofExcept (known.toInteger.mapError Fault.misuse)))

/-- Multiplies the counts of the loops from `current` outward. -/
def nestedFrom (nest : LoopNest) (loop : Datum) :
    Nat → List Datum → Datum → Value → Analysis Value
  | 0, _, _, _ => Analysis.fail Misuse.unfinished
  | steps + 1, seen, current, total =>
      if isOutsideLoops current then return total
      else if seen.contains current then
        Analysis.fail (incomputable loop.describe (.ok .cyclicNest))
      else do
        let count ← nest.iterationCount current
        let total ← nest.resolver.emitter.combine .mul (total.promote .wide) (count.promote .wide)
        let record ← Analysis.ofExcept (nest.record current)
        nest.nestedFrom loop steps (current :: seen) (.integer record.parent) total

/-- The number of iterations of a loop over all iterations of the loops around it. -/
def nestedIterationCount (nest : LoopNest) (loop : Datum) : Analysis Value :=
  nest.nestedFrom loop (nest.kernel.loops.length + 1) [] loop 1

def isIncomputable : Fault → Bool
  | .analysis (.incomputable _ _) => true
  | _ => false

/-- An iteration count, missing for an incomputable loop. -/
def countIfComputable (nest : LoopNest) (loop : Int) : Analysis (Option Value) :=
  tryCatch (do return some (← nest.iterationCount (.integer loop))) (fun fault =>
    if isIncomputable fault then pure none else throw fault)

/-- The iteration counts of all loops, by ascending number. -/
def iterationCounts (nest : LoopNest) : Analysis (List (Int × Option Value)) :=
  (Register.sort (fun first second => first ≤ second) (nest.kernel.loops.map Prod.fst)).mapM
    (fun loop => do return (loop, ← nest.countIfComputable loop))

def view (nest : LoopNest) : LoopView where
  loopOf := nest.loopOf
  lowerBound := nest.lowerBound
  upperBound := nest.upperBound
  iterationCount := nest.iterationCount

end LoopNest

end KernelFootprint
