import KernelFootprint.Proofs.RangeSoundness

/-!
# The term that a merge takes for its own

A merge takes the first phi term that no merge below it encloses, whichever number that
term has. The way up from the term leads through sums only if the term is to be moved. What
stands beside the way is added in every iteration, and the operands beside the one with the
term are the entries. Hence a merge is valued from the term with its own number exactly if
that comes first.
-/

namespace KernelFootprint

/-- Whether a number is one of 64 bits. -/
def FitsWide (value : Int) : Prop := -2 ^ 63 ≤ value ∧ value < 2 ^ 63

instance (value : Int) : Decidable (FitsWide value) := inferInstanceAs (Decidable (_ ∧ _))

namespace WordOp

/-- Operations that are defined for all operands. -/
def IsTotal (op : WordOp) : Prop :=
  ∀ first second, op.exact .wide first second = .ok (op.unbounded first second)

theorem isTotal_extremum (mode : Mode) : mode.extremum.IsTotal := by
  cases mode <;> exact fun _ _ => rfl

theorem isTotal_add : WordOp.add.IsTotal := fun _ _ => rfl

theorem isTotal_mul : WordOp.mul.IsTotal := fun _ _ => rfl

/-- Whether nothing wraps where numbers are combined from left to right. -/
def StaysWithin (op : WordOp) : Int → List Int → Prop
  | _, [] => True
  | total, value :: rest =>
      FitsWide (op.unbounded total value) ∧ op.StaysWithin (op.unbounded total value) rest

end WordOp

namespace Emitter

variable (emitter : Emitter) {op : WordOp}

theorem combine_of_fits (total : op.IsTotal) {first second : Int}
    (fits : FitsWide (op.unbounded first second)) :
    emitter.combine op (.int first) (.int second) = pure (.int (op.unbounded first second)) := by
  refine emitter.combine_of_fold ?_
  rw [WordOp.fold, total]
  change Except.ok (wrapWide _) = _
  rw [wrapWide_eq_self fits.1 fits.2]

theorem combineAll_of_staysWithin (total : op.IsTotal) {start : Int} {others : List Int}
    (within : op.StaysWithin start others) :
    emitter.combineAll op ((start :: others).map .int) =
      pure (.int (others.foldl op.unbounded start)) := by
  rw [List.map_cons, combineAll]
  induction others generalizing start with
  | nil => rfl
  | cons value rest ih =>
      rw [List.map_cons, List.foldlM_cons, combine_of_fits emitter total within.1, pure_bind,
        ih within.2, List.foldl_cons]

end Emitter

namespace NaryTree

open Analysis

mutual

/-- The numbers of the phi terms in a tree that no merge in it encloses, in preorder. -/
def openIds : NaryTree → List (Option Nat)
  | .node _ symbol children =>
      match symbol with
      | .terminal (.phiTerm id) => id :: openIdsOfAll children
      | .operation .phi _ => []
      | _ => openIdsOfAll children

def openIdsOfAll : List NaryTree → List (Option Nat)
  | [] => []
  | tree :: rest => openIds tree ++ openIdsOfAll rest

end

/-- The way down to a phi term through sums, with everything that is added to the term,
what stands next to it first. -/
inductive LeadsTo (id : Option Nat) : NaryTree → List NaryTree → Prop
  | here {text : Datum} {children : List NaryTree} :
      LeadsTo id (.node text (.terminal (.phiTerm id)) children) []
  | through {text : Datum} {symbol : Symbol} {before after addends : List NaryTree}
      {carrier : NaryTree} (additive : symbol.isAdditive = true)
      (further : LeadsTo id carrier addends) :
      LeadsTo id (.node text symbol (before ++ carrier :: after)) (addends ++ (before ++ after))

theorem openIdsOfAll_append (trees others : List NaryTree) :
    openIdsOfAll (trees ++ others) = openIdsOfAll trees ++ openIdsOfAll others := by
  induction trees with
  | nil => rfl
  | cons tree rest ih => rw [List.cons_append, openIdsOfAll, openIdsOfAll, ih, List.append_assoc]

mutual

/-- There is one number for every open term. -/
theorem length_openTerms (tree : NaryTree) : tree.openTerms.length = tree.openIds.length := by
  cases tree with
  | node text symbol children =>
      have lifted : ((termsAmong [] children).map
          (fun entry => entry.1.lift text.shown symbol.isAdditive entry.2)).length =
            (openIdsOfAll children).length := by
        rw [List.length_map, length_termsAmong]
      cases symbol with
      | terminal node =>
          cases node with
          | phiTerm id => exact congrArg (· + 1) lifted
          | _ => exact lifted
      | operation operation id =>
          cases operation with
          | phi => rfl
          | _ => exact lifted
      | structural kind => exact lifted

theorem length_termsAmong (before trees : List NaryTree) :
    (termsAmong before trees).length = (openIdsOfAll trees).length := by
  cases trees with
  | nil => rfl
  | cons tree rest =>
      rw [termsAmong, openIdsOfAll, List.length_append, List.length_append, List.length_map,
        length_openTerms, length_termsAmong]

end

theorem termsAmong_append (beside trees others : List NaryTree) :
    ∃ front, termsAmong beside (trees ++ others) = front ++ termsAmong (beside ++ trees) others ∧
      front.length = (openIdsOfAll trees).length := by
  induction trees generalizing beside with
  | nil => exact ⟨[], by simp, rfl⟩
  | cons tree rest ih =>
      obtain ⟨front, split, length⟩ := ih (beside ++ [tree])
      refine ⟨tree.openTerms.map (fun term => (term, beside ++ (rest ++ others))) ++ front, ?_, ?_⟩
      · rw [List.cons_append, termsAmong, split, List.append_assoc, List.append_assoc]
        rfl
      · rw [List.length_append, List.length_map, length_openTerms, length, openIdsOfAll,
          List.length_append]

/-- Where a term stands among those of its tree it stands among those of all operands,
behind the terms of the operands before. -/
theorem exists_place_among {carrier : NaryTree} {term : OpenTerm NaryTree} {id : Option Nat}
    {place : Nat} (found : carrier.openTerms[place]? = some term)
    (named : carrier.openIds[place]? = some id) (before after : List NaryTree) :
    ∃ place : Nat,
      (termsAmong [] (before ++ carrier :: after))[place]? = some (term, before ++ after) ∧
      (openIdsOfAll (before ++ carrier :: after))[place]? = some id := by
  obtain ⟨front, split, length⟩ := termsAmong_append [] before (carrier :: after)
  refine ⟨front.length + place, ?_, ?_⟩
  · have inside : place < (carrier.openTerms.map (fun term => (term, before ++ after))).length := by
      rw [List.length_map]
      exact (List.getElem?_eq_some_iff.mp found).1
    rw [split, termsAmong, List.nil_append, List.getElem?_append_right (Nat.le_add_right _ _),
      Nat.add_sub_cancel_left, List.getElem?_append_left inside, List.getElem?_map, found]
    rfl
  · rw [openIdsOfAll_append, openIdsOfAll, length,
      List.getElem?_append_right (Nat.le_add_right _ _), Nat.add_sub_cancel_left,
      List.getElem?_append_left (List.getElem?_eq_some_iff.mp named).1, named]

theorem openTerms_of_additive {symbol : Symbol} (additive : symbol.isAdditive = true)
    (text : Datum) (children : List NaryTree) :
    (node text symbol children).openTerms =
        (termsAmong [] children).map (fun entry => entry.1.lift text.shown true entry.2) ∧
      (node text symbol children).openIds = openIdsOfAll children := by
  cases symbol with
  | operation operation id => cases operation <;> first | exact ⟨rfl, rfl⟩ | cases additive
  | terminal node => cases additive
  | structural kind => cases additive

/-- A term that a way leads to is open, and nothing but sums stands above it. -/
theorem LeadsTo.exists_place {id : Option Nat} {tree : NaryTree} {addends : List NaryTree}
    (leads : LeadsTo id tree addends) :
    ∃ place : Nat, tree.openTerms[place]? = some { addends := addends } ∧
      tree.openIds[place]? = some id := by
  induction leads with
  | here => exact ⟨0, rfl, rfl⟩
  | @through text symbol before after addends carrier additive further ih =>
      obtain ⟨_, found, named⟩ := ih
      obtain ⟨place, among, listed⟩ := exists_place_among found named before after
      obtain ⟨terms, ids⟩ := openTerms_of_additive additive text (before ++ carrier :: after)
      refine ⟨place, ?_, by rw [ids, listed]⟩
      rw [terms, List.getElem?_map, among]
      rfl

theorem eq_zero_of_count {ids : List (Option Nat)} {id : Option Nat} {place : Nat}
    (unique : ids.count id = 1) (first : ids.head? = some id) (found : ids[place]? = some id) :
    place = 0 := by
  cases ids with
  | nil => cases first
  | cons other rest =>
      cases first
      cases place with
      | zero => rfl
      | succ place =>
          have absent : rest.count id = 0 := by
            rw [List.count_cons_self] at unique
            omega
          rw [List.getElem?_cons_succ] at found
          exact absurd (List.mem_of_getElem? found) (List.count_eq_zero.mp absent)

/-- A merge takes the one term with a number if no other term comes first. -/
theorem LeadsTo.claimedTerms_eq {id : Option Nat} {before after addends : List NaryTree}
    {carrier : NaryTree} (leads : LeadsTo id carrier addends)
    (unique : (openIdsOfAll (before ++ carrier :: after)).count id = 1)
    (first : (openIdsOfAll (before ++ carrier :: after)).head? = some id) :
    ∃ rest, claimedTerms (before ++ carrier :: after) =
      ({ addends := addends }, before ++ after) :: rest := by
  obtain ⟨_, found, named⟩ := leads.exists_place
  obtain ⟨place, among, listed⟩ := exists_place_among found named before after
  cases eq_zero_of_count unique first listed
  rw [claimedTerms]
  cases listed : termsAmong [] (before ++ carrier :: after) with
  | nil =>
      rw [listed] at among
      cases among
  | cons entry rest =>
      rw [listed] at among
      cases among
      exact ⟨rest, rfl⟩

variable (setting : RangeSetting) {ledger after : Ledger}

theorem outcome_combineAll {op : WordOp} (total : op.IsTotal) {operands : List (Analysis Value)}
    {start : Int} {others : List Int}
    (returned : (operands.mapM id).outcome ledger =
      (.ok ((start :: others).map .int), after))
    (within : op.StaysWithin start others) :
    (combineAll setting op operands).outcome ledger =
      (.ok (.int (others.foldl op.unbounded start)), after) := by
  rw [combineAll, outcome_bind, returned]
  change Analysis.outcome (setting.context.emitter.combineAll op _) after = _
  rw [Emitter.combineAll_of_staysWithin _ total within, outcome_pure]

/-- Addends are valued and added one after the other. -/
theorem outcome_addends {addends : List (Analysis Value)} {total : Int} {values : List Int}
    (returned : (addends.mapM id).outcome ledger = (.ok (values.map .int), after))
    (within : WordOp.add.StaysWithin total values) :
    (addends.foldlM (addOne setting) (.int total)).outcome ledger =
      (.ok (.int (values.foldl (· + ·) total)), after) := by
  induction addends generalizing ledger total values with
  | nil =>
      cases values with
      | nil =>
          cases returned
          rfl
      | cons value rest => cases returned
  | cons addend addends ih =>
      rw [List.mapM_cons] at returned
      obtain ⟨first, next, onFirst, onRest⟩ := outcome_bind_eq_ok.mp returned
      obtain ⟨others, last, onOthers, same⟩ := outcome_bind_eq_ok.mp onRest
      cases values with
      | nil => cases same
      | cons value rest =>
          cases same
          change addend.outcome ledger = _ at onFirst
          have one : (addOne setting (.int total) addend).outcome ledger =
              (.ok (.int (total + value)), next) := by
            rw [addOne, outcome_bind, onFirst]
            change Analysis.outcome (setting.context.emitter.combine .add (.int total) (.int value))
              next = _
            rw [Emitter.combine_of_fits _ WordOp.isTotal_add within.1]
            rfl
          rw [List.foldlM_cons, outcome_bind, one]
          exact ih onOthers within.2

end NaryTree

/-- The extremum of one value and others. -/
def Mode.extremeOf (mode : Mode) (start : Int) (others : List Int) : Int :=
  others.foldl mode.extremum.unbounded start

/-- Whether nothing wraps where an entry value is moved by a number of increments. -/
structure Mode.MovesWithin (mode : Mode) (start : Int) (others increments : List Int)
    (count : Int) : Prop where
  entry : mode.extremum.StaysWithin start others
  increment : WordOp.add.StaysWithin 0 increments
  drift : FitsWide (increments.sum * count)
  moved : FitsWide (mode.extremeOf start others + increments.sum * count)
  result : FitsWide (mode.extremum.unbounded (mode.extremeOf start others)
    (mode.extremeOf start others + increments.sum * count))

theorem Emitter.moveEntry_of_movesWithin (emitter : Emitter) {mode : Mode} {start count : Int}
    {others increments : List Int} (within : mode.MovesWithin start others increments count) :
    emitter.moveEntry mode (.int (mode.extremeOf start others)) (.int increments.sum)
        (.int count) =
      pure (.int (mode.extremum.unbounded (mode.extremeOf start others)
        (mode.extremeOf start others + increments.sum * count))) := by
  have drift := combine_of_fits emitter WordOp.isTotal_mul within.drift
  have moved := combine_of_fits emitter WordOp.isTotal_add within.moved
  have result := combine_of_fits emitter (WordOp.isTotal_extremum mode) within.result
  rw [moveEntry, drift, pure_bind]
  change emitter.combine .add _ (.int (increments.sum * count)) >>= _ = _
  rw [moved, pure_bind]
  exact result

namespace NaryTree

open Analysis

variable {resolver : Resolver} {mode : Mode} {view : LoopView} {loop text : Datum}
  {own term : Option Nat} {before after addends : List NaryTree} {carrier : NaryTree}
  {start count : Int} {others increments : List Int} {ledger entered added counted : Ledger}

/-- A merge is worth the extremum of its entries and of these moved by one increment per
iteration of its loop, where the recurrence is that of the first term below the merge. -/
theorem rangeValue_of_first (leads : LeadsTo term carrier addends)
    (unique : (openIdsOfAll (before ++ carrier :: after)).count term = 1)
    (first : (openIdsOfAll (before ++ carrier :: after)).head? = some term)
    (inside : isOutsideLoops (view.loopOf own loop) = false)
    (entries : (((before ++ after).map (rangeValue (.of resolver mode (some view) loop))).mapM
      id).outcome ledger = (.ok ((start :: others).map .int), entered))
    (additions : ((addends.map (rangeValue (.of resolver mode (some view) loop))).mapM
      id).outcome entered = (.ok (increments.map .int), added))
    (iterations : (view.iterationCount (view.loopOf own loop)).outcome added =
      (.ok (.int count), counted))
    (within : mode.MovesWithin start others increments count) :
    (rangeValue (.of resolver mode (some view) loop)
        (.node text (.operation .phi own) (before ++ carrier :: after))).outcome ledger =
      (.ok (.int (mode.extremum.unbounded (mode.extremeOf start others)
        (mode.extremeOf start others + increments.sum * count))), counted) := by
  obtain ⟨rest, claimed⟩ := leads.claimedTerms_eq unique first
  have nonempty : (before ++ after).isEmpty = false := by
    cases split : before ++ after with
    | nil =>
        rw [split] at entries
        cases entries
    | cons entry rest => rfl
  have entry := outcome_combineAll (.of resolver mode (some view) loop)
    (WordOp.isTotal_extremum mode) entries within.entry
  have increment := outcome_addends (.of resolver mode (some view) loop)
    additions within.increment
  rw [← List.sum_eq_foldl] at increment
  rw [rangeValue_recurrence claimed]
  simp only [nonempty]
  have counting : (RangeSetting.of resolver mode (some view) loop).iterationCount =
      some view.iterationCount := rfl
  change Analysis.outcome (recurrenceValue _ _ _ _ _) ledger = _
  rw [recurrenceValue_of_count counting inside]
  refine outcome_bind_eq_ok.mpr ⟨_, entered, entry, ?_⟩
  refine outcome_bind_eq_ok.mpr ⟨_, added, increment, ?_⟩
  refine outcome_bind_eq_ok.mpr ⟨_, counted, iterations, ?_⟩
  exact congrFun (congrArg Analysis.outcome (Emitter.moveEntry_of_movesWithin _ within)) counted

/-- The phi term of loop 1 with four added. -/
def stepped : NaryTree :=
  .node (.text "ADD") (.operation .add none)
    [.node (.text "PHI1") (.terminal (.phiTerm (some 1))) [], fourLeaf]

theorem leadsTo_stepped : LeadsTo (some 1) stepped [fourLeaf] :=
  @LeadsTo.through (some 1) (.text "ADD") (.operation .add none) [] [fourLeaf] []
    (.node (.text "PHI1") (.terminal (.phiTerm (some 1))) []) rfl .here

/-- A thread index to which four is added ten times. -/
theorem rangeValue_of_first_growing :
    (rangeValue (.of (.sample (.constant 128)) .greatest (some LoopNest.sample.view)
        (.integer 0)) growing).outcome {} =
      (.ok (.int 71), { iterationCounts := [(1, .int 10)] }) := by
  have unique : (openIdsOfAll ([threadLeaf] ++ stepped :: [])).count (some 1) = 1 := by decide
  have first : (openIdsOfAll ([threadLeaf] ++ stepped :: [])).head? = some (some 1) := by decide
  have entries : ((([threadLeaf] ++ []).map (rangeValue (.of (.sample (.constant 128)) .greatest
      (some LoopNest.sample.view) (.integer 0)))).mapM id).outcome {} =
        (.ok (([31] : List Int).map .int), {}) := by cbv
  have additions : (([fourLeaf].map (rangeValue (.of (.sample (.constant 128)) .greatest
      (some LoopNest.sample.view) (.integer 0)))).mapM id).outcome {} =
        (.ok (([4] : List Int).map .int), {}) := by cbv
  have iterations : (LoopNest.sample.view.iterationCount
      (LoopNest.sample.view.loopOf (some 1) (.integer 0))).outcome {} =
        (.ok (.int 10), { iterationCounts := [(1, .int 10)] }) := by cbv
  have within : Mode.greatest.MovesWithin 31 [] [4] 10 := by
    constructor
    · trivial
    · exact ⟨by decide, trivial⟩
    all_goals decide
  exact rangeValue_of_first leadsTo_stepped unique first rfl entries additions iterations within

end NaryTree

/-- A loop from 0 to 10 in a loop from 100 to 200, each with a phi of its own. -/
def LoopNest.started : LoopNest where
  kernel :=
    { name := .text "kernel"
      loops :=
        [(1, { kernel := .text "kernel", id := 1, parent := 2, initial := some (.constant 0)
               final := some (.constant 10), step := none, knownCount := .null, buildErrors := [] }),
          (2, { kernel := .text "kernel", id := 2, parent := 0, initial := some (.constant 100)
                final := some (.constant 200), step := none, knownCount := .null
                buildErrors := [] })]
      phiLoops := [(1, 1), (0, 2)] }
  resolver := .sample (.constant 128)
  settings := {}

namespace NaryTree

/-- An inner loop that starts where the outer one stands and adds four ten times. The term of
the outer loop comes first, so that the sum is an entry. With its own term the merge would come
to 240. -/
theorem rangeValue_started :
    LeadsTo (some 1) stepped [fourLeaf] ∧
      (openIdsOfAll [.node (.text "PHI0") (.terminal (.phiTerm (some 0))) [], stepped]).count
        (some 1) = 1 ∧
      (rangeValue (.of (.sample (.constant 128)) .greatest (some LoopNest.started.view)
        (.integer 0)) (.node (.text "PHI0") (.terminal (.phiTerm (some 0))) [])).outcome {} =
          (.ok (.int 200), { upperBounds := [(2, .int 200)] }) ∧
      (LoopNest.started.view.iterationCount
        (LoopNest.started.view.loopOf (some 1) (.integer 0))).outcome {} =
          (.ok (.int 10), { iterationCounts := [(1, .int 10)] }) ∧
      (rangeValue (.of (.sample (.constant 128)) .greatest (some LoopNest.started.view)
        (.integer 0)) (.node (.text "PHI1") (.operation .phi (some 1))
          [.node (.text "PHI0") (.terminal (.phiTerm (some 0))) [], stepped])).outcome {} =
            (.ok (.int 14), { upperBounds := [(1, .int 10)], iterationCounts := [(1, .int 10)] }) ∧
      Mode.greatest.MovesWithin 200 [] [4] 10 ∧
      (14 : Int) ≠ max 200 (200 + 4 * 10) := by
  refine ⟨leadsTo_stepped, by decide, by cbv, by cbv, by cbv, ⟨trivial, ⟨by decide, trivial⟩,
    by decide, by decide, by decide⟩, by decide⟩

end NaryTree

end KernelFootprint
