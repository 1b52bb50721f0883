import KernelFootprint.Address.Extremum

/-!
# Ranges of addresses

In a tree of any arity casts and loads pass their operand through, an address
computation is the sum of its indices without the base pointer, a store has
the value of its last operand, and a selection the extremum of its branches.

A phi merge with a term of its own is valued from its entry operands and the
total drift, which is the increment of one iteration times the number of
iterations. The increment is the sum of everything added between the term and
the merge. Every node is therefore given a meaning that holds, beside the way
to compute its value, the phi terms below it that no merge has claimed.
-/

namespace KernelFootprint

/-- A phi term that is open toward the root: what is added to it so far, and the
first node above it that does anything but add. -/
structure OpenTerm (Item : Type) where
  addends : List Item := []
  obstacle : Option String := none

namespace OpenTerm

variable {Item : Type}

/-- The term seen from the node above. -/
def lift (text : String) (additive : Bool) (siblings : List Item) (term : OpenTerm Item) :
    OpenTerm Item :=
  match term.obstacle with
  | some _ => term
  | none =>
      if additive then { term with addends := term.addends ++ siblings }
      else { term with obstacle := some text }

end OpenTerm

/-- The setting of a range evaluation in a tree of any arity. -/
structure RangeSetting where
  context : RangeContext
  iterationCount : Option (Datum → Analysis Value)

namespace NaryTree

structure Meaning where
  value : Analysis Value
  terms : List (OpenTerm (Analysis Value))

/-- Every meaning with the values of its neighbours before and after it. -/
def withSiblings (before : List (Analysis Value)) :
    List Meaning → List (Meaning × List (Analysis Value))
  | [] => []
  | meaning :: rest =>
      (meaning, before ++ rest.map Meaning.value) ::
        withSiblings (before ++ [meaning.value]) rest

/-- The open terms of all operands, seen from the node itself. -/
def liftedTerms (text : String) (symbol : Symbol) (operands : List Meaning) :
    List (OpenTerm (Analysis Value)) :=
  (withSiblings [] operands).flatMap (fun entry =>
    entry.1.terms.map (OpenTerm.lift text symbol.isAdditive entry.2))

/-- The first open term below a merge, with the values of the operands it does not stand in. -/
def firstTerm (operands : List Meaning) :
    Option (OpenTerm (Analysis Value) × List (Analysis Value)) :=
  ((withSiblings [] operands).flatMap (fun entry =>
    entry.1.terms.map (fun term => (term, entry.2)))).head?

variable (setting : RangeSetting)

def combineAll (op : WordOp) (operands : List (Analysis Value)) : Analysis Value := do
  setting.context.emitter.combineAll op (← operands.mapM id)

def addOne (total : Value) (addend : Analysis Value) : Analysis Value := do
  let value ← addend
  setting.context.emitter.combine .add total value

/-- The failure of a merge whose loop is not catalogued. -/
def outsideLoop (text : String) (loop : Datum) : Fault :=
  .quoting (do return .incomputable (← loop.describe) (.mergeOutsideLoop text))

/-- The extremum of the entry value and the entry value moved by the total drift. -/
def recurrenceValue (text : String) (id : Option Nat) (addends entries : List (Analysis Value)) :
    Analysis Value := do
  let emitter := setting.context.emitter
  let extremum := setting.context.mode.extremum
  let entry ← combineAll setting extremum entries
  let increment ← addends.foldlM (addOne setting) 0
  let loop := setting.context.loopOf id
  match setting.iterationCount with
  | some iterationCount =>
      if isOutsideLoops loop then
        Analysis.fail (outsideLoop text loop)
      else do
        let drift ← emitter.combine .mul increment (← iterationCount loop)
        let moved ← emitter.combine .add entry drift
        emitter.combine extremum entry moved
  | none => Analysis.fail (outsideLoop text loop)

def mergeValue (text : String) (id : Option Nat) (operands : List Meaning) : Analysis Value :=
  match firstTerm operands with
  | none => combineAll setting setting.context.mode.extremum (operands.map Meaning.value)
  | some (term, entries) =>
      match term.obstacle with
      | some obstacle => Analysis.fail (Misshape.brokenRecurrence obstacle text)
      | none =>
          if entries.isEmpty then Analysis.fail (Misshape.noEntryValue text)
          else recurrenceValue setting text id term.addends entries

def operationValue (text : String) (operation : Operation) (operands : List (Analysis Value)) :
    Analysis Value :=
  match operation.wordOp? with
  | none => Analysis.fail (Misshape.noIntegerValue text)
  | some op =>
      if operands.isEmpty then Analysis.fail (Misshape.noOperands text)
      else combineAll setting op operands

def structuralValue (text : String) (kind : Structural) (operands : List (Analysis Value)) :
    Analysis Value :=
  let noRange : Analysis Value := Analysis.fail (Misshape.noRange text operands.length)
  match kind, operands with
  | .gep, [_] => return 0
  | .gep, _ :: indices => combineAll setting .add indices
  | .store, first :: rest => (first :: rest).getLast (List.cons_ne_nil first rest)
  | .select, [_, first, second] => combineAll setting setting.context.mode.extremum [first, second]
  | .select, first :: second :: rest =>
      combineAll setting setting.context.mode.extremum (first :: second :: rest)
  | kind, [operand] => if kind.isPassThrough then operand else noRange
  | _, _ => noRange

def nodeMeaning (token : Datum) (symbol : Symbol) (operands : List Meaning) : Meaning :=
  let text := token.shown
  let lifted := liftedTerms text symbol operands
  match symbol with
  | .terminal (.phiTerm id) =>
      { value := setting.context.terminal token (.phiTerm id), terms := {} :: lifted }
  | .terminal leaf => { value := setting.context.terminal token leaf, terms := lifted }
  | .operation .phi id => { value := mergeValue setting text id operands, terms := [] }
  | .operation operation _ =>
      { value := operationValue setting text operation (operands.map Meaning.value)
        terms := lifted }
  | .structural kind =>
      { value := structuralValue setting text kind (operands.map Meaning.value), terms := lifted }

mutual

def meaning : NaryTree → Meaning
  | .node text symbol children => nodeMeaning setting text symbol (meanings children)

def meanings : List NaryTree → List Meaning
  | [] => []
  | first :: rest => meaning first :: meanings rest

end

/-- The extreme value of a tree of any arity. -/
def rangeValue (tree : NaryTree) : Analysis Value := (meaning setting tree).value

/-- The extreme value of a subtree named from the end. Phi terms lead to a merge by
its number only, so that a merge at the root of the subtree has no term of its own. -/
def rangeValueFromEnd : NaryTree → Analysis Value
  | .node _ (.operation .phi _) children =>
      combineAll setting setting.context.mode.extremum
        ((meanings setting children).map Meaning.value)
  | tree => rangeValue setting tree

end NaryTree

/-- What is known about the loops of a kernel. -/
structure LoopView where
  loopOf : Option Nat → Datum → Datum
  lowerBound : Datum → Analysis Value
  upperBound : Datum → Analysis Value
  iterationCount : Datum → Analysis Value

def LoopView.phis (view : LoopView) (mode : Mode) : PhiScope where
  loopOf := view.loopOf
  bound :=
    match mode with
    | .least => view.lowerBound
    | .greatest => view.upperBound

/-- The setting of a range evaluation, with or without knowledge of the loops. -/
def RangeSetting.of (resolver : Resolver) (mode : Mode) (view : Option LoopView) (loop : Datum) :
    RangeSetting where
  context := ⟨resolver, mode, view.map (fun view => view.phis mode), loop⟩
  iterationCount := view.map LoopView.iterationCount

def AddressTree.extremeValue (setting : RangeSetting) : AddressTree → Analysis Value
  | .binary tree => setting.context.ofBinary tree
  | .nary tree => tree.rangeValue setting

/-- The distance between the extreme values of an address, whichever is greater. -/
def workingSetSize (resolver : Resolver) (view : Option LoopView) (loop : Datum)
    (tree : AddressTree) : Analysis Value := do
  let emitter := resolver.emitter
  let high ← tree.extremeValue (.of resolver .greatest view loop)
  let low ← tree.extremeValue (.of resolver .least view loop)
  let greatest ← emitter.combine .max high low
  let least ← emitter.combine .min high low
  emitter.combine .sub greatest least

end KernelFootprint
