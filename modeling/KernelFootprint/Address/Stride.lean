import KernelFootprint.Emission
import KernelFootprint.Tree.Place

/-!
# Strides

The stride of an address along a node is the product of all factors that the
node meets on its way to the root, divided by all divisors it meets. A shift
amount contributes a power of two. Below a shift amount or a divisor there is
no stride. A recurrence contributes what it adds per iteration.
-/

namespace KernelFootprint.Stride

variable {Tree : Type}

structure Factor (Tree : Type) where
  site : Site Tree
  isShift : Bool

/-- The two operands of a node that has exactly two. -/
def operandPair (step : Step Tree) : Except Fault (Site Tree × Site Tree) :=
  match step.operands with
  | [first, second] => .ok (first, second)
  | _ => .error Misuse.wrongChildCount

def factorsOfStep (text : String) (step : Step Tree) : Except Fault (List (Factor Tree)) :=
  match step.symbol with
  | .operation .mul _ => .ok (step.siblings.map (⟨·, false⟩))
  | .operation .shl _ => do
      let (shifted, amount) ← operandPair step
      if step.comesFrom shifted then return [⟨amount, true⟩]
      throw (NotAffine.inShiftAmount text : Fault)
  | _ => .ok []

def isDivision : Symbol → Bool
  | .operation .div _ => true
  | .operation .udiv _ => true
  | .operation .sdiv _ => true
  | _ => false

def divisorsOfStep (text : String) (step : Step Tree) : Except Fault (List (Site Tree)) :=
  if isDivision step.symbol then do
    let (dividend, divisor) ← operandPair step
    if step.comesFrom dividend then return [divisor]
    throw (NotAffine.inDivisor text : Fault)
  else .ok []

/-- Gathers what every step of a path contributes, from the node to the root. -/
def gather {Item : Type} (contribution : Step Tree → Except Fault (List Item)) :
    List (Step Tree) → Except Fault (List Item)
  | [] => .ok []
  | step :: rest => do
      let items ← contribution step
      return items ++ (← gather contribution rest)

def factors (place : Place Tree) : Except Fault (List (Factor Tree)) :=
  gather (factorsOfStep place.text.shown) place.path

def divisors (place : Place Tree) : Except Fault (List (Site Tree)) :=
  gather (divisorsOfStep place.text.shown) place.path

/-- How factors and divisors are valued. -/
structure Valuation (Tree : Type) where
  emitter : Emitter
  value : Site Tree → Analysis Value

variable (valuation : Valuation Tree)

def multiply (total : Value) (factor : Factor Tree) : Analysis Value := do
  let value ← valuation.value factor.site
  let value ← if factor.isShift then valuation.emitter.combine .shl 1 value else pure value
  valuation.emitter.combine .mul total value

def divide (total : Value) (divisor : Site Tree) : Analysis Value := do
  let value ← valuation.value divisor
  valuation.emitter.combine .sdiv total value

def coefficient (place : Place Tree) : Analysis Value := do
  let product ← (← Analysis.ofExcept (factors place)).foldlM (multiply valuation) 1
  (← Analysis.ofExcept (divisors place)).foldlM (divide valuation) product

/-- The sum of the strides along all nodes of a kind. -/
def along (places : List (Place Tree)) (kind : Kind) (arg : Datum) : Analysis Value :=
  (placesOf places kind arg).foldlM
    (fun total place => do
      let value ← coefficient valuation place
      valuation.emitter.combine .add total value) 0

def isMerge (step : Step Tree) : Bool := step.symbol.kind == .operation .phi

/-- The phi terms whose nearest merge above is the one asked for. -/
def termsOfMerge (places : List (Place Tree)) (merge : Int) : Except Fault (List (Place Tree)) := do
  let place ← (placeAt places merge).mapError Fault.misuse
  return places.filter (fun term =>
    term.kind == .phiTerm && term.isWithin place.site.index &&
      (match term.path.find? isMerge with
        | some step => (step.index : Int) == merge
        | none => false))

/-- What is added on the way to a merge, and the operand of the merge on that way. -/
def recurrenceAlong (mergeText : String) (merge : Int) :
    List (Step Tree) → Except Fault (List (Site Tree) × Int)
  | [] => .error (Misshape.termNotBelow mergeText)
  | step :: rest =>
      if (step.index : Int) = merge then .ok ([], step.child)
      else if step.symbol.isAdditive then do
        let (siblings, recurrent) ← recurrenceAlong mergeText merge rest
        return (step.siblings ++ siblings, recurrent)
      else .error (Misshape.brokenRecurrence step.text.shown mergeText)

def recurrence (places : List (Place Tree)) (term merge : Int) :
    Except Fault (List (Site Tree) × Int) := do
  let place ← (placeAt places term).mapError Fault.misuse
  let mergePlace ← (placeAt places merge).mapError Fault.misuse
  recurrenceAlong mergePlace.text.shown merge place.path

def increment (siblings : List (Site Tree)) : Analysis Value :=
  siblings.foldlM
    (fun total sibling => do
      let value ← valuation.value sibling
      valuation.emitter.combine .add total value) 0

/-- Adds the stride of one merge per iteration, if it has a term of its own. -/
def addRecurrence (places : List (Place Tree)) (total : Value) (merge : Place Tree) :
    Analysis Value := do
  match ← Analysis.ofExcept (termsOfMerge places merge.site.index) with
  | [] => return total
  | term :: _ =>
      let (siblings, _) ← Analysis.ofExcept
        (recurrenceAlong merge.text.shown merge.site.index term.path)
      let step ← increment valuation siblings
      let stride ← coefficient valuation merge
      let product ← valuation.emitter.combine .mul stride step
      valuation.emitter.combine .add total product

/-- The stride per iteration of the loops whose recurrences appear in a tree. -/
def alongLoops (places : List (Place Tree)) : Analysis Value :=
  (placesOf places (.operation .phi) .null).foldlM (addRecurrence valuation places) 0

end KernelFootprint.Stride
