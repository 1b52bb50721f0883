import KernelFootprint.Proofs.Extremes
import KernelFootprint.Proofs.Memo
import KernelFootprint.Proofs.Possible
import Mathlib.Tactic.Choose

/-!
# Range evaluations and the counts they end with

The greatest and the least value of a tree ask for the counts of the same loops in the
same order. What the first evaluation has made known the second one finds, so that both
end with the same ledger and agree on how often every loop is run.
-/

namespace KernelFootprint

/-- A range evaluation with the counts that its loops have in the end. -/
structure Survey where
  resolver : Resolver
  view : Option LoopView
  loop : Datum
  extent : Index → Int
  count : Option Nat → Nat
  ask : Datum → Analysis Value
  memo : Memo ask
  final : Ledger
  free : resolver.unknowns = []
  extents : resolver.HasExtents extent
  asked : ∀ known, view = some known → known.iterationCount = ask
  counted : ∀ id value, memo.known final
    ((RangeSetting.of resolver .greatest view loop).context.loopOf id) value →
      value = .int (count id)

namespace Survey

open Analysis NaryTree

variable (survey : Survey)

def setting (mode : Mode) : RangeSetting :=
  .of survey.resolver mode survey.view survey.loop

def value (mode : Mode) (tree : NaryTree) : Analysis Value := tree.rangeValue (survey.setting mode)

def Possible (tree : NaryTree) (value : Int) : Prop :=
  tree.Possible survey.resolver survey.extent survey.count value

/-- Possible values of all operands, one each. -/
structure IsChoice (operands : List NaryTree) (choices : List (NaryTree × Int)) : Prop where
  chosen : choices.map Prod.fst = operands
  possible : ∀ choice ∈ choices, survey.Possible choice.1 choice.2

/-- The ends of the values that a tree can take, which its range attains. -/
structure Delimits (tree : NaryTree) (bounds : Extremes) : Prop
    extends bounds.Encloses (survey.Possible tree) where
  kept : Keeps survey.memo.Extends (survey.value .greatest tree)
  replays : survey.memo.Replays survey.final (survey.value .greatest tree)
    (survey.value .least tree) bounds.Brackets

/-- A tree with a greatest value has both ends. -/
def Sound (tree : NaryTree) : Prop :=
  (∃ ledger value after, (survey.value .greatest tree).outcome ledger = (.ok value, after)) →
    ∃ bounds, survey.Delimits tree bounds

variable {survey : Survey} {operands : List NaryTree} {bounds : NaryTree → Extremes}

theorem emitter_setting (mode : Mode) :
    (survey.setting mode).context.emitter = survey.resolver.emitter := rfl

theorem loopOf_setting (mode : Mode) (id : Option Nat) :
    (survey.setting mode).context.loopOf id =
      (survey.setting .greatest).context.loopOf id := by
  change (RangeSetting.of survey.resolver mode survey.view survey.loop).context.loopOf id =
    (RangeSetting.of survey.resolver .greatest survey.view survey.loop).context.loopOf id
  cases survey.view with
  | none => rfl
  | some view => rfl

theorem keeps_values (delimits : ∀ operand ∈ operands, survey.Delimits operand (bounds operand)) :
    Keeps survey.memo.Extends ((operands.map (survey.value .greatest)).mapM id) := by
  refine keeps_mapM survey.memo.isPassage_extends ?_
  intro analysis member
  obtain ⟨operand, inside, rfl⟩ := List.mem_map.mp member
  exact (delimits operand inside).kept

/-- The values of operands are replayed, each between its own extremes. -/
theorem replays_values
    (delimits : ∀ operand ∈ operands, survey.Delimits operand (bounds operand)) :
    survey.memo.Replays survey.final ((operands.map (survey.value .greatest)).mapM id)
      ((operands.map (survey.value .least)).mapM id)
      (Gathering.BracketsAll (operands.map bounds)) := by
  induction operands with
  | nil => exact Memo.replays_pure .nil
  | cons first rest ih =>
      have restDelimits operand (member : operand ∈ rest) :=
        delimits operand (List.mem_cons_of_mem _ member)
      have passage := survey.memo.isPassage_extends
      rw [List.map_cons, List.map_cons, List.map_cons, List.mapM_cons, List.mapM_cons]
      refine (delimits first (List.mem_cons_self ..)).replays.bind ?_ ?_
      · intro value
        refine Keeps.bind passage (keeps_values restDelimits) ?_
        intro values
        exact keeps_pure passage _
      · intro value other brackets
        refine (ih restDelimits).bind (fun _ => keeps_pure passage _) ?_
        intro values others all
        exact Memo.replays_pure (.cons brackets all)

theorem keeps_combineAll
    (delimits : ∀ operand ∈ operands, survey.Delimits operand (bounds operand)) (op : WordOp) :
    Keeps survey.memo.Extends
      (combineAll (survey.setting .greatest) op (operands.map (survey.value .greatest))) := by
  have passage := survey.memo.isPassage_extends
  refine Keeps.bind passage (keeps_values delimits) ?_
  intro values
  exact Emitter.keeps_combineAll passage _ _ _

/-- Gathered values are replayed between the gathered extremes. -/
theorem replays_combineAll (gathering : Gathering) {first : NaryTree} {rest : List NaryTree}
    (delimits : ∀ operand ∈ first :: rest, survey.Delimits operand (bounds operand)) :
    survey.memo.Replays survey.final
      (combineAll (survey.setting .greatest) (gathering.op .greatest)
        ((first :: rest).map (survey.value .greatest)))
      (combineAll (survey.setting .least) (gathering.op .least)
        ((first :: rest).map (survey.value .least)))
      (gathering.gather (bounds first) (rest.map bounds)).Brackets := by
  refine (replays_values delimits).bind ?_ ?_
  · intro values
    exact Emitter.keeps_combineAll survey.memo.isPassage_extends _ _ _
  · intro values others all
    obtain ⟨greatest, least, combined, otherCombined, brackets⟩ :=
      gathering.combineAll_brackets survey.resolver.emitter all
    rw [emitter_setting, emitter_setting, combined, otherCombined]
    exact Memo.replays_pure brackets

/-- Operands of which the gathered value is known have both ends. -/
theorem exists_delimits {op : WordOp} {ledger after : Ledger} {value : Value}
    (sound : ∀ operand ∈ operands, survey.Sound operand)
    (returned : (combineAll (survey.setting .greatest) op
      (operands.map (survey.value .greatest))).outcome ledger = (.ok value, after)) :
    ∃ bounds : NaryTree → Extremes,
      ∀ operand ∈ operands, survey.Delimits operand (bounds operand) := by
  obtain ⟨values, middle, valuesReturned, _⟩ := outcome_bind_eq_ok.mp returned
  have each : ∀ operand ∈ operands, ∃ bounds, survey.Delimits operand bounds := by
    intro operand member
    exact sound operand member (outcome_of_mapM valuesReturned (List.mem_map_of_mem member))
  choose! bounds delimits using each
  exact ⟨bounds, delimits⟩

/-- A tree that gathers its operands has both ends if the operands have. -/
theorem sound_gather (gathering : Gathering) {tree first : NaryTree} {rest : List NaryTree}
    (valued : ∀ mode, survey.value mode tree =
      combineAll (survey.setting mode) (gathering.op mode)
        ((first :: rest).map (survey.value mode)))
    (encloses : ∀ bounds : NaryTree → Extremes,
      (∀ operand ∈ first :: rest, survey.Delimits operand (bounds operand)) →
        (gathering.gather (bounds first) (rest.map bounds)).Encloses (survey.Possible tree))
    (sound : ∀ operand ∈ first :: rest, survey.Sound operand) : survey.Sound tree := by
  rintro ⟨ledger, result, after, returned⟩
  rw [valued] at returned
  obtain ⟨bounds, delimits⟩ := exists_delimits sound returned
  refine ⟨_, encloses bounds delimits, ?_, ?_⟩
  · rw [valued]
    exact keeps_combineAll delimits _
  · rw [valued, valued]
    exact replays_combineAll gathering delimits

/-- One possible value for every operand. -/
theorem exists_choices {pick : NaryTree → Int}
    (possible : ∀ operand ∈ operands, survey.Possible operand (pick operand)) :
    ∃ choices, survey.IsChoice operands choices ∧ choices.map Prod.snd = operands.map pick := by
  refine ⟨operands.map (fun operand => (operand, pick operand)), ⟨?_, ?_⟩, ?_⟩
  · rw [List.map_map]
    exact List.map_id operands
  · intro choice member
    obtain ⟨operand, inside, rfl⟩ := List.mem_map.mp member
    exact possible operand inside
  · rw [List.map_map]
    rfl

/-- Possible values of operands lie between the ends of the operands. -/
theorem IsChoice.contains {choices : List (NaryTree × Int)}
    (choice : survey.IsChoice operands choices)
    (delimits : ∀ operand ∈ operands, survey.Delimits operand (bounds operand)) :
    ∀ entry ∈ choices, (bounds entry.1).Contains entry.2 := by
  intro entry member
  have inside : entry.1 ∈ operands := by
    rw [← choice.chosen]
    exact List.mem_map_of_mem member
  exact (delimits entry.1 inside).within entry.2 (choice.possible entry member)

/-- A monotone combination of possible values reaches from the one of the lowest to the
one of the highest. -/
theorem encloses_total {total : List Int → Int} {gathered : Extremes}
    (monotone : ∀ choices : List (NaryTree × Int),
      (∀ choice ∈ choices, (bounds choice.1).Contains choice.2) →
        total (choices.map (fun choice => (bounds choice.1).lowest)) ≤
            total (choices.map Prod.snd) ∧
          total (choices.map Prod.snd) ≤
            total (choices.map (fun choice => (bounds choice.1).highest)))
    (lowest : gathered.lowest = total (operands.map (fun operand => (bounds operand).lowest)))
    (highest : gathered.highest =
      total (operands.map (fun operand => (bounds operand).highest)))
    (delimits : ∀ operand ∈ operands, survey.Delimits operand (bounds operand)) :
    gathered.Encloses (fun value =>
      ∃ choices, survey.IsChoice operands choices ∧ total (choices.map Prod.snd) = value) := by
  refine ⟨?_, ?_, ?_⟩
  · obtain ⟨choices, choice, numbers⟩ :=
      exists_choices (fun operand member => (delimits operand member).lowest)
    exact ⟨choices, choice, (congrArg total numbers).trans lowest.symm⟩
  · obtain ⟨choices, choice, numbers⟩ :=
      exists_choices (fun operand member => (delimits operand member).highest)
    exact ⟨choices, choice, (congrArg total numbers).trans highest.symm⟩
  · rintro value ⟨choices, choice, rfl⟩
    obtain ⟨low, high⟩ := monotone choices (choice.contains delimits)
    rw [Extremes.Contains, lowest, highest, ← choice.chosen, List.map_map, List.map_map]
    exact ⟨low, high⟩

/-- The sums of possible values reach from the sum of the lowest to that of the highest. -/
theorem encloses_sum {first : NaryTree} {rest : List NaryTree}
    (delimits : ∀ operand ∈ first :: rest, survey.Delimits operand (bounds operand)) :
    (Gathering.sum.gather (bounds first) (rest.map bounds)).Encloses (fun value =>
      ∃ choices, survey.IsChoice (first :: rest) choices ∧
        (choices.map Prod.snd).sum = value) := by
  obtain ⟨lowest, highest⟩ := Extremes.gather_sum (bounds first) (rest.map bounds)
  rw [List.map_map] at lowest highest
  exact encloses_total (fun _ inside => Extremes.sum_within inside) lowest highest delimits

theorem encloses_product {first : NaryTree} {rest : List NaryTree}
    (delimits : ∀ operand ∈ first :: rest, survey.Delimits operand (bounds operand)) :
    (Gathering.product.gather (bounds first) (rest.map bounds)).Encloses (fun value =>
      ∃ choices, survey.IsChoice (first :: rest) choices ∧
        (choices.map Prod.snd).prod = value) := by
  obtain ⟨lowest, highest⟩ := Extremes.gather_product (bounds first) (rest.map bounds)
  rw [List.map_map] at lowest highest
  exact encloses_total (fun _ inside => (Extremes.product_within inside).2) lowest highest
    delimits

/-- The values of several operands reach from the least to the greatest of their ends. -/
theorem encloses_extremum {first : NaryTree} {rest : List NaryTree}
    (delimits : ∀ operand ∈ first :: rest, survey.Delimits operand (bounds operand)) :
    (Gathering.extremum.gather (bounds first) (rest.map bounds)).Encloses (fun value =>
      ∃ operand ∈ first :: rest, survey.Possible operand value) := by
  obtain ⟨low, lowMember, lowEq⟩ := Extremes.lowest_extremum (bounds first) (rest.map bounds)
  obtain ⟨high, highMember, highEq⟩ :=
    Extremes.highest_extremum (bounds first) (rest.map bounds)
  have reached := Extremes.extremum_reaches (bounds first) (rest.map bounds)
  rw [← List.map_cons] at lowMember highMember reached
  refine ⟨?_, ?_, ?_⟩
  · obtain ⟨operand, member, rfl⟩ := List.mem_map.mp lowMember
    rw [lowEq]
    exact ⟨operand, member, (delimits operand member).lowest⟩
  · obtain ⟨operand, member, rfl⟩ := List.mem_map.mp highMember
    rw [highEq]
    exact ⟨operand, member, (delimits operand member).highest⟩
  · rintro value ⟨operand, member, onOperand⟩
    obtain ⟨low, high⟩ := (delimits operand member).within value onOperand
    obtain ⟨reachedLow, reachedHigh⟩ := reached _ (List.mem_map_of_mem member)
    exact ⟨Int.le_trans reachedLow low, Int.le_trans high reachedHigh⟩

end Survey

end KernelFootprint
