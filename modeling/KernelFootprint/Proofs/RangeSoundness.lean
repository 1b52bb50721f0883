import KernelFootprint.Proofs.Drift
import Mathlib

/-!
# Ranges of monotone trees

Every node of a monotone tree hands the ends of its operands on to the node above. The
range of the tree therefore ends at its least and its greatest value, as long as the
greatest one lies below 2 ^ 63.
-/

namespace KernelFootprint

namespace Survey

open Analysis NaryTree

variable {survey : Survey}

/-- Without values for tokens an index does not resolve. -/
theorem resolve_index (text : Datum) (index : Index) (value : Value) :
    survey.resolver.resolve text (.terminal index.terminal) ≠ .ok value := by
  intro resolved
  have unknown := survey.resolver.unknown?_of_free survey.free text
  by_cases serves : text.isKey = true
  · rw [if_pos serves] at unknown
    rw [Resolver.resolve, unknown] at resolved
    cases index <;> cases resolved
  · rw [if_neg serves] at unknown
    rw [Resolver.resolve, unknown] at resolved
    cases resolved

theorem sound_constant {text : Datum} {node : Terminal} {children : List NaryTree} {number : Int}
    (nonneg : 0 ≤ number)
    (resolved : survey.resolver.resolve text (.terminal node) = .ok (.int number)) :
    survey.Sound (.node text (.terminal node) children) := by
  intro _
  have valued (mode : Mode) :
      survey.value mode (.node text (.terminal node) children) = pure (.int number) := by
    rw [value, rangeValue_terminal]
    exact RangeContext.terminal_of_resolve survey.free resolved
  refine ⟨.exactly number nonneg, Extremes.encloses_exactly nonneg ?_, ?_, ?_⟩
  · intro other
    constructor
    · intro possible
      cases possible with
      | constant found =>
          cases resolved.symm.trans found
          rfl
      | index same _ _ =>
          subst same
          exact absurd resolved (resolve_index _ _ _)
    · rintro rfl
      exact .constant resolved
  · rw [valued]
    exact keeps_pure survey.memo.isPassage_extends _
  · rw [valued, valued]
    exact Memo.replays_pure (Extremes.brackets_exactly nonneg)

/-- An index runs from zero to one less than its dimension. -/
theorem sound_index {text : Datum} {node : Terminal} {children : List NaryTree}
    (isIndex : node.IsIndex) : survey.Sound (.node text (.terminal node) children) := by
  rintro ⟨ledger, result, after, returned⟩
  obtain ⟨index, rfl⟩ := isIndex
  have serves : text.isKey = true := by
    by_contra unserved
    rw [value, rangeValue_terminal, RangeContext.terminal_of_not_isKey survey.free unserved]
      at returned
    cases returned
  have valued (mode : Mode) :
      survey.value mode (.node text (.terminal index.terminal) children) =
        pure (.int (wrapWide (mode.indices survey.extent index))) := by
    rw [value, rangeValue_terminal, RangeContext.terminal_of_free survey.free serves]
    exact RangeContext.intrinsic_index_of_int (fun index => (survey.extents index).1) text index
  have positive := (survey.extents index).2
  have nonneg : 0 ≤ survey.extent index - 1 := Int.le_sub_one_of_lt positive
  refine ⟨⟨0, survey.extent index - 1, Int.le_refl 0, nonneg⟩,
    ⟨.index rfl (Int.le_refl 0) positive,
      .index rfl nonneg (Int.sub_lt_self _ Int.one_pos), ?_⟩, ?_, ?_⟩
  · intro other possible
    cases possible with
    | constant found => exact absurd found (resolve_index _ _ _)
    | index same low high =>
        cases Index.terminal_injective same
        exact ⟨low, Int.le_sub_one_of_lt high⟩
  · rw [valued]
    exact keeps_pure survey.memo.isPassage_extends _
  · rw [valued, valued]
    refine Memo.replays_pure ⟨_, _, rfl, rfl, ?_⟩
    intro small
    exact ⟨wrapWide_eq_self (Int.le_trans (by decide) nonneg) small, rfl⟩

variable {text : Datum} {id : Option Nat} {operands : List NaryTree}

theorem sound_sum {operation : Operation} (additive : operation = .add ∨ operation = .or)
    (nonempty : operands ≠ []) (sound : ∀ operand ∈ operands, survey.Sound operand) :
    survey.Sound (.node text (.operation operation id) operands) := by
  obtain ⟨first, rest, rfl⟩ := List.exists_cons_of_ne_nil nonempty
  refine sound_gather .sum ?_ ?_ sound
  · intro mode
    rcases additive with rfl | rfl
    · exact rangeValue_operation (by decide) text id (first :: rest)
    · exact rangeValue_operation (by decide) text id (first :: rest)
  · intro bounds delimits
    refine (encloses_sum delimits).of_iff ?_
    intro value
    constructor
    · intro possible
      cases possible with
      | sum _ chosen each => exact ⟨_, ⟨chosen, each⟩, rfl⟩
      | product _ _ | merge _ _ _ | recurrence _ _ _ _ _ _ =>
          rcases additive with same | same <;> cases same
    · rintro ⟨choices, choice, rfl⟩
      exact .sum additive choice.chosen choice.possible

theorem sound_product (nonempty : operands ≠ [])
    (sound : ∀ operand ∈ operands, survey.Sound operand) :
    survey.Sound (.node text (.operation .mul id) operands) := by
  obtain ⟨first, rest, rfl⟩ := List.exists_cons_of_ne_nil nonempty
  refine sound_gather .product ?_ ?_ sound
  · intro mode
    exact rangeValue_operation (by decide) text id (first :: rest)
  · intro bounds delimits
    refine (encloses_product delimits).of_iff ?_
    intro value
    constructor
    · intro possible
      cases possible with
      | product chosen each => exact ⟨_, ⟨chosen, each⟩, rfl⟩
      | sum additive _ _ => rcases additive with same | same <;> cases same
    · rintro ⟨choices, choice, rfl⟩
      exact .product choice.chosen choice.possible

/-- A tree that has the value of a subtree has its ends. -/
theorem sound_of_eq {tree inner : NaryTree}
    (valued : ∀ mode, survey.value mode tree = survey.value mode inner)
    (possible : ∀ value, survey.Possible tree value ↔ survey.Possible inner value)
    (sound : survey.Sound inner) : survey.Sound tree := by
  rintro ⟨ledger, result, after, returned⟩
  rw [valued] at returned
  obtain ⟨bounds, delimits⟩ := sound ⟨ledger, result, after, returned⟩
  refine ⟨bounds, delimits.toEncloses.of_iff possible, ?_, ?_⟩
  · rw [valued]
    exact delimits.kept
  · rw [valued, valued]
    exact delimits.replays

theorem sound_passThrough {kind : Structural} {operand : NaryTree}
    (passes : kind.isPassThrough = true) (sound : survey.Sound operand) :
    survey.Sound (.node text (.structural kind) [operand]) := by
  refine sound_of_eq ?_ ?_ sound
  · intro mode
    rw [value, rangeValue_structural]
    cases kind <;> first | rfl | cases passes
  · intro value
    constructor
    · intro possible
      cases possible with
      | passThrough _ inner => exact inner
      | address _ _ => cases passes
      | store _ _ => cases passes
      | select _ _ => cases passes
    · exact .passThrough passes

theorem sound_store {last : NaryTree} (isLast : operands.getLast? = some last)
    (sound : survey.Sound last) : survey.Sound (.node text (.structural .store) operands) := by
  refine sound_of_eq ?_ ?_ sound
  · intro mode
    have nonempty : operands ≠ [] := by
      rintro rfl
      cases isLast
    obtain ⟨first, rest, rfl⟩ := List.exists_cons_of_ne_nil nonempty
    rw [List.getLast?_eq_some_getLast nonempty] at isLast
    cases isLast
    rw [value, rangeValue_structural]
    change (List.map (rangeValue (survey.setting mode)) (first :: rest)).getLast _ = _
    rw [List.getLast_map]
    rfl
  · intro value
    constructor
    · intro possible
      cases possible with
      | store found inner =>
          cases isLast.symm.trans found
          exact inner
      | passThrough passes _ => cases passes
    · exact .store isLast

/-- Without indices an address is zero, with indices it is their sum. -/
theorem sound_address {base : NaryTree} {indices : List NaryTree}
    (sound : ∀ index ∈ indices, survey.Sound index) :
    survey.Sound (.node text (.structural .gep) (base :: indices)) := by
  have possible value : survey.Possible (.node text (.structural .gep) (base :: indices)) value ↔
      ∃ choices, survey.IsChoice indices choices ∧ (choices.map Prod.snd).sum = value := by
    constructor
    · intro possible
      cases possible with
      | address chosen each => exact ⟨_, ⟨chosen, each⟩, rfl⟩
      | passThrough passes _ => cases passes
    · rintro ⟨choices, choice, rfl⟩
      exact .address choice.chosen choice.possible
  cases indices with
  | nil =>
      intro _
      have valued mode : survey.value mode (.node text (.structural .gep) [base]) =
          pure (.int 0) := rangeValue_structural text .gep [base]
      refine ⟨.exactly 0 (Int.le_refl 0), Extremes.encloses_exactly _ ?_, ?_, ?_⟩
      · intro value
        rw [possible]
        constructor
        · rintro ⟨choices, choice, rfl⟩
          cases List.map_eq_nil_iff.mp choice.chosen
          rfl
        · rintro rfl
          exact ⟨[], ⟨rfl, nofun⟩, rfl⟩
      · rw [valued]
        exact keeps_pure survey.memo.isPassage_extends _
      · rw [valued, valued]
        exact Memo.replays_pure (Extremes.brackets_exactly (Int.le_refl 0))
  | cons first rest =>
      refine sound_gather .sum ?_ (fun _ delimits => (encloses_sum delimits).of_iff possible) sound
      intro mode
      exact rangeValue_structural text .gep (base :: first :: rest)

theorem sound_select (several : 2 ≤ operands.length)
    (sound : ∀ branch ∈ branches operands, survey.Sound branch) :
    survey.Sound (.node text (.structural .select) operands) := by
  have valued (mode : Mode) : survey.value mode (.node text (.structural .select) operands) =
      combineAll (survey.setting mode) mode.extremum
        ((branches operands).map (survey.value mode)) :=
    rangeValue_select several text
  obtain ⟨first, rest, split⟩ := List.exists_cons_of_ne_nil (branches_ne_nil several)
  rw [split] at valued sound
  refine sound_gather .extremum valued
    (fun _ delimits => (encloses_extremum delimits).of_iff ?_) sound
  intro value
  rw [← split]
  constructor
  · intro possible
    cases possible with
    | select member inner => exact ⟨_, member, inner⟩
    | passThrough passes _ => cases passes
  · rintro ⟨branch, member, inner⟩
    exact .select member inner

theorem sound_merge (nonempty : operands ≠ []) (unclaimed : claimedTerms operands = [])
    (sound : ∀ operand ∈ operands, survey.Sound operand) :
    survey.Sound (.node text (.operation .phi id) operands) := by
  obtain ⟨first, rest, rfl⟩ := List.exists_cons_of_ne_nil nonempty
  refine sound_gather .extremum ?_
    (fun _ delimits => (encloses_extremum delimits).of_iff ?_) sound
  · intro mode
    exact rangeValue_merge unclaimed text id
  · intro value
    constructor
    · intro possible
      cases possible with
      | merge _ member inner => exact ⟨_, member, inner⟩
      | sum additive _ _ => rcases additive with same | same <;> cases same
      | recurrence claimed _ _ _ _ _ => cases unclaimed.symm.trans claimed
    · rintro ⟨operand, member, inner⟩
      exact .merge unclaimed member inner

/-- Every monotone tree with a greatest value has both ends. -/
theorem sound_of_isMonotone {tree : NaryTree} (monotone : tree.IsMonotone survey.resolver) :
    survey.Sound tree := by
  induction monotone with
  | constant nonneg resolved => exact sound_constant nonneg resolved
  | index isIndex => exact sound_index isIndex
  | sum additive nonempty _ ih => exact sound_sum additive nonempty ih
  | product nonempty _ ih => exact sound_product nonempty ih
  | passThrough passes _ ih => exact sound_passThrough passes ih
  | address _ ih => exact sound_address ih
  | store isLast _ ih => exact sound_store isLast ih
  | select several _ ih => exact sound_select several ih
  | merge nonempty unclaimed _ ih => exact sound_merge nonempty unclaimed ih
  | recurrence claimed _ _ entriesIH addendsIH =>
      exact sound_recurrence claimed entriesIH addendsIH

/-- The range of a monotone tree runs from its least to its greatest possible value. -/
theorem exists_range {tree : NaryTree} (monotone : tree.IsMonotone survey.resolver)
    {ledger : Ledger} {highest : Value}
    (returned : (survey.value .greatest tree).outcome ledger = (.ok highest, survey.final))
    (bounded : ∀ value, survey.Possible tree value → value < 2 ^ 63) :
    ∃ least greatest : Int, highest = .int greatest ∧
      (survey.value .least tree).outcome ledger = (.ok (.int least), survey.final) ∧
        (survey.value .least tree).outcome survey.final = (.ok (.int least), survey.final) ∧
          IsLeast {value | survey.Possible tree value} least ∧
            IsGreatest {value | survey.Possible tree value} greatest := by
  obtain ⟨bounds, delimits⟩ := sound_of_isMonotone monotone ⟨_, _, _, returned⟩
  obtain ⟨_, once, again, _, _, rfl, rfl, ends⟩ := delimits.replays ledger highest survey.final
    returned (survey.memo.isPassage_extends.refl survey.final)
  obtain ⟨rfl, rfl⟩ := ends (bounded _ delimits.highest)
  refine ⟨bounds.lowest, bounds.highest, rfl, once, again, ⟨delimits.lowest, ?_⟩,
    ⟨delimits.highest, ?_⟩⟩
  · intro value possible
    exact (delimits.within value possible).1
  · intro value possible
    exact (delimits.within value possible).2

end Survey

/-- A kernel with one loop of ten iterations, to which the phi of number one belongs. -/
def LoopNest.sample : LoopNest where
  kernel :=
    { name := .text "kernel"
      loops :=
        [(1, { kernel := .text "kernel", id := 1, parent := 0, initial := none, final := none
               step := none, knownCount := .integer 10, buildErrors := [] })]
      phiLoops := [(1, 1)] }
  resolver := .sample (.constant 128)
  settings := {}

def LoopNest.sampleCount (_ : Option Nat) : Nat := 10

namespace NaryTree

def threadLeaf : NaryTree := .node (.text "TIDX") (.terminal (.thread .x)) []

def fourLeaf : NaryTree := .node (.text "4") (.terminal (.constant 4)) []

/-- A thread index that grows by four in every iteration. -/
def growing : NaryTree :=
  .node (.text "PHI1") (.operation .phi (some 1))
    [threadLeaf,
      .node (.text "ADD") (.operation .add none)
        [.node (.text "PHI1") (.terminal (.phiTerm (some 1))) [], fourLeaf]]

variable {argument : Binding} {value : Int}

/-- The possible values of a tree in the sample grid and the sample kernel. -/
def PossibleInSample (argument : Binding) (tree : NaryTree) (value : Int) : Prop :=
  tree.Possible (.sample argument) Resolver.sampleExtent LoopNest.sampleCount value

theorem lt_of_threadLeaf (possible : threadLeaf.PossibleInSample argument value) :
    value < 32 := by
  cases possible with
  | constant resolved => cases resolved
  | @index _ _ index _ _ same _ high =>
      have same : (Index.thread .x).terminal = index.terminal := same
      cases Index.terminal_injective same
      exact high

theorem eq_of_fourLeaf (possible : fourLeaf.PossibleInSample argument value) : value = 4 := by
  cases possible with
  | constant resolved =>
      cases resolved
      rfl
  | @index _ _ index _ _ same _ _ => cases index <;> cases same

theorem claimedTerms_growing :
    claimedTerms growing.children = [({ addends := [fourLeaf] }, [threadLeaf])] := rfl

theorem isMonotone_growing : growing.IsMonotone (.sample argument) := by
  refine .recurrence claimedTerms_growing ?_ ?_
  · intro entry member
    cases List.mem_singleton.mp member
    exact .index ⟨.thread .x, rfl⟩
  · intro addend member
    cases List.mem_singleton.mp member
    exact .constant (by decide) rfl

/-- Ten iterations take an index below 32 to at most 71. -/
theorem lt_of_growing (possible : growing.PossibleInSample argument value) : value < 72 := by
  cases possible with
  | merge unclaimed _ _ => cases unclaimed
  | sum additive _ _ => rcases additive with same | same <;> cases same
  | @recurrence _ _ _ _ _ _ start iterations claimed member entered few chosen each =>
      cases claimedTerms_growing.symm.trans claimed
      cases List.mem_singleton.mp member
      have early : start < 32 := lt_of_threadLeaf entered
      have inside : ∀ step ∈ iterations.map (fun choices => (choices.map Prod.snd).sum),
          (Extremes.exactly 4 (by decide)).Contains step := by
        intro step stepTaken
        obtain ⟨choices, taken, rfl⟩ := List.mem_map.mp stepTaken
        obtain ⟨choice, rfl, single⟩ := List.map_eq_singleton_iff.mp (chosen choices taken)
        have possible := each _ taken choice (List.mem_singleton_self choice)
        rw [single] at possible
        rw [List.map_singleton, List.sum_singleton, eq_of_fourLeaf possible]
        exact ⟨Int.le_refl 4, Int.le_refl 4⟩
      rw [← List.length_map (fun choices : List (NaryTree × Int) =>
        (choices.map Prod.snd).sum)] at few
      have drift := (Extremes.steps_within inside few).2
      change _ ≤ (4 : Int) * 10 at drift
      omega

end NaryTree

/-- With natural numbers as counts, the range of a monotone tree that has a greatest value
runs from its least to its greatest possible value. Both are exact if the greatest one
lies below 2 ^ 63, and the least one is the same before and after the greatest one is
computed. -/
theorem rangeValue_of_isMonotone {nest : Option LoopNest} {resolver : Resolver} {loop : Datum}
    {extent : Index → Int} {count : Option Nat → Nat} {tree : NaryTree}
    (free : resolver.unknowns = []) (extents : resolver.HasExtents extent)
    (monotone : tree.IsMonotone resolver) {ledger after : Ledger} {highest : Value}
    (returned : (tree.rangeValue
      (.of resolver .greatest (nest.map LoopNest.view) loop)).outcome ledger =
        (.ok highest, after))
    (counted : ∀ known ∈ nest, ∀ id value,
      known.HasCount after (known.loopOf id loop) value → value = .int (count id))
    (bounded : ∀ value, tree.Possible resolver extent count value → value < 2 ^ 63) :
    ∃ least greatest : Int, highest = .int greatest ∧
      (tree.rangeValue (.of resolver .least (nest.map LoopNest.view) loop)).outcome ledger =
          (.ok (.int least), after) ∧
        (tree.rangeValue (.of resolver .least (nest.map LoopNest.view) loop)).outcome after =
            (.ok (.int least), after) ∧
          IsLeast {value | tree.Possible resolver extent count value} least ∧
            IsGreatest {value | tree.Possible resolver extent count value} greatest := by
  cases nest with
  | none =>
      let survey : Survey :=
        { resolver, view := none, loop, extent, count, ask := _, memo := .ofNone Misuse.unfinished
          final := after, free, extents, asked := nofun, counted := nofun }
      exact survey.exists_range monotone returned bounded
  | some known =>
      let survey : Survey :=
        { resolver, view := some known.view, loop, extent, count, ask := known.iterationCount
          memo := known.countMemo, final := after, free, extents
          asked := by
            rintro _ ⟨⟩
            rfl
          counted := counted known rfl }
      exact survey.exists_range monotone returned bounded

theorem rangeValue_growing :
    IsLeast {value | NaryTree.growing.PossibleInSample (.constant 128) value} 0 ∧
      IsGreatest {value | NaryTree.growing.PossibleInSample (.constant 128) value} 71 := by
  have greatest : (NaryTree.growing.rangeValue (.of (.sample (.constant 128)) .greatest
      ((some LoopNest.sample).map LoopNest.view) (.integer 0))).outcome {} =
        (.ok (.int 71), { iterationCounts := [(1, .int 10)] }) := by cbv
  have least : (NaryTree.growing.rangeValue (.of (.sample (.constant 128)) .least
      ((some LoopNest.sample).map LoopNest.view) (.integer 0))).outcome {} =
        (.ok (.int 0), { iterationCounts := [(1, .int 10)] }) := by cbv
  have counted : ∀ known ∈ some LoopNest.sample, ∀ id value,
      known.HasCount { iterationCounts := [(1, .int 10)] } (known.loopOf id (.integer 0)) value →
        value = .int (LoopNest.sampleCount id) := by
    rintro known _ id value ⟨number, record, _, found⟩
    rw [Register.find] at found
    split at found
    · cases found
      rfl
    · cases found
  have bounded : ∀ value, NaryTree.growing.PossibleInSample (.constant 128) value →
      value < 2 ^ 63 := by
    intro value possible
    exact Int.lt_trans (NaryTree.lt_of_growing possible) (by decide)
  obtain ⟨_, _, high, low, _, isLeast, isGreatest⟩ :=
    rangeValue_of_isMonotone rfl (Resolver.hasExtents_sample _) NaryTree.isMonotone_growing
      greatest counted bounded
  rw [low] at least
  cases least
  cases high
  exact ⟨isLeast, isGreatest⟩

end KernelFootprint
