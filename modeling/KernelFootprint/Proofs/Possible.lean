import KernelFootprint.Launch.Resolution
import KernelFootprint.Proofs.Index
import KernelFootprint.Proofs.Recurrence

/-!
# Values that an address can take

An address over natural numbers and indices adds, multiplies and selects. A recurrence
enters with a value of its entry operands and adds one increment per iteration, of
which there are at most as many as its loop counts. What nodes that are never evaluated
stand for plays no part.
-/

namespace KernelFootprint

namespace NaryTree

/-- The operands between which a selection selects. -/
def branches : List NaryTree → List NaryTree
  | [_, first, second] => [first, second]
  | operands => operands

theorem branches_ne_nil {operands : List NaryTree} (several : 2 ≤ operands.length) :
    branches operands ≠ [] := by
  unfold branches
  split
  · exact List.cons_ne_nil _ _
  · rintro rfl
    cases several

/-- A selection is worth the extremum of the operands between which it selects. -/
theorem rangeValue_select {setting : RangeSetting} {operands : List NaryTree}
    (several : 2 ≤ operands.length) (text : Datum) :
    rangeValue setting (.node text (.structural .select) operands) =
      combineAll setting setting.context.mode.extremum
        ((branches operands).map (rangeValue setting)) := by
  rw [rangeValue_structural]
  cases operands with
  | nil => cases several
  | cons first rest =>
      cases rest with
      | nil => cases Nat.le_of_succ_le_succ several
      | cons second rest =>
          cases rest with
          | nil => rfl
          | cons third rest =>
              cases rest with
              | nil => rfl
              | cons fourth rest => rfl

/-- Trees whose evaluated nodes are natural numbers, indices, sums, products, selections
and recurrences with at most one phi term each. -/
inductive IsMonotone (resolver : Resolver) : NaryTree → Prop
  | constant {text : Datum} {node : Terminal} {children : List NaryTree} {value : Int} :
      0 ≤ value → resolver.resolve text (.terminal node) = .ok (.int value) →
      IsMonotone resolver (.node text (.terminal node) children)
  | index {text : Datum} {node : Terminal} {children : List NaryTree} : node.IsIndex →
      IsMonotone resolver (.node text (.terminal node) children)
  | sum {text : Datum} {operation : Operation} {id : Option Nat} {operands : List NaryTree} :
      operation = .add ∨ operation = .or → operands ≠ [] →
      (∀ operand ∈ operands, IsMonotone resolver operand) →
      IsMonotone resolver (.node text (.operation operation id) operands)
  | product {text : Datum} {id : Option Nat} {operands : List NaryTree} : operands ≠ [] →
      (∀ operand ∈ operands, IsMonotone resolver operand) →
      IsMonotone resolver (.node text (.operation .mul id) operands)
  | passThrough {text : Datum} {kind : Structural} {operand : NaryTree} :
      kind.isPassThrough = true → IsMonotone resolver operand →
      IsMonotone resolver (.node text (.structural kind) [operand])
  | address {text : Datum} {base : NaryTree} {indices : List NaryTree} :
      (∀ index ∈ indices, IsMonotone resolver index) →
      IsMonotone resolver (.node text (.structural .gep) (base :: indices))
  | store {text : Datum} {operands : List NaryTree} {last : NaryTree} :
      operands.getLast? = some last → IsMonotone resolver last →
      IsMonotone resolver (.node text (.structural .store) operands)
  | select {text : Datum} {operands : List NaryTree} : 2 ≤ operands.length →
      (∀ branch ∈ branches operands, IsMonotone resolver branch) →
      IsMonotone resolver (.node text (.structural .select) operands)
  | merge {text : Datum} {id : Option Nat} {operands : List NaryTree} : operands ≠ [] →
      claimedTerms operands = [] → (∀ operand ∈ operands, IsMonotone resolver operand) →
      IsMonotone resolver (.node text (.operation .phi id) operands)
  | recurrence {text : Datum} {id : Option Nat} {operands entries : List NaryTree}
      {term : OpenTerm NaryTree} : claimedTerms operands = [(term, entries)] →
      (∀ entry ∈ entries, IsMonotone resolver entry) →
      (∀ addend ∈ term.addends, IsMonotone resolver addend) →
      IsMonotone resolver (.node text (.operation .phi id) operands)

/-- The values that a tree can take, with at most `count` iterations of a recurrence. -/
inductive Possible (resolver : Resolver) (extent : Index → Int) (count : Option Nat → Nat) :
    NaryTree → Int → Prop
  | constant {text : Datum} {node : Terminal} {children : List NaryTree} {value : Int} :
      resolver.resolve text (.terminal node) = .ok (.int value) →
      Possible resolver extent count (.node text (.terminal node) children) value
  | index {text : Datum} {node : Terminal} {index : Index} {children : List NaryTree}
      {value : Int} : node = index.terminal → 0 ≤ value → value < extent index →
      Possible resolver extent count (.node text (.terminal node) children) value
  | sum {text : Datum} {operation : Operation} {id : Option Nat} {operands : List NaryTree}
      {choices : List (NaryTree × Int)} : operation = .add ∨ operation = .or →
      choices.map Prod.fst = operands →
      (∀ choice ∈ choices, Possible resolver extent count choice.1 choice.2) →
      Possible resolver extent count (.node text (.operation operation id) operands)
        (choices.map Prod.snd).sum
  | product {text : Datum} {id : Option Nat} {operands : List NaryTree}
      {choices : List (NaryTree × Int)} : choices.map Prod.fst = operands →
      (∀ choice ∈ choices, Possible resolver extent count choice.1 choice.2) →
      Possible resolver extent count (.node text (.operation .mul id) operands)
        (choices.map Prod.snd).prod
  | passThrough {text : Datum} {kind : Structural} {operand : NaryTree} {value : Int} :
      kind.isPassThrough = true → Possible resolver extent count operand value →
      Possible resolver extent count (.node text (.structural kind) [operand]) value
  | address {text : Datum} {base : NaryTree} {indices : List NaryTree}
      {choices : List (NaryTree × Int)} : choices.map Prod.fst = indices →
      (∀ choice ∈ choices, Possible resolver extent count choice.1 choice.2) →
      Possible resolver extent count (.node text (.structural .gep) (base :: indices))
        (choices.map Prod.snd).sum
  | store {text : Datum} {operands : List NaryTree} {last : NaryTree} {value : Int} :
      operands.getLast? = some last → Possible resolver extent count last value →
      Possible resolver extent count (.node text (.structural .store) operands) value
  | select {text : Datum} {operands : List NaryTree} {branch : NaryTree} {value : Int} :
      branch ∈ branches operands → Possible resolver extent count branch value →
      Possible resolver extent count (.node text (.structural .select) operands) value
  | merge {text : Datum} {id : Option Nat} {operands : List NaryTree} {operand : NaryTree}
      {value : Int} : claimedTerms operands = [] → operand ∈ operands →
      Possible resolver extent count operand value →
      Possible resolver extent count (.node text (.operation .phi id) operands) value
  | recurrence {text : Datum} {id : Option Nat} {operands entries : List NaryTree}
      {term : OpenTerm NaryTree} {entry : NaryTree} {start : Int}
      {iterations : List (List (NaryTree × Int))} : claimedTerms operands = [(term, entries)] →
      entry ∈ entries → Possible resolver extent count entry start →
      iterations.length ≤ count id →
      (∀ choices ∈ iterations, choices.map Prod.fst = term.addends) →
      (∀ choices ∈ iterations, ∀ choice ∈ choices,
        Possible resolver extent count choice.1 choice.2) →
      Possible resolver extent count (.node text (.operation .phi id) operands)
        (start + (iterations.map (fun choices => (choices.map Prod.snd).sum)).sum)

end NaryTree

end KernelFootprint
