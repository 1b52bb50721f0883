import KernelFootprint.Proofs.Survey
import Mathlib.Algebra.Order.BigOperators.Group.List

/-!
# Drift of recurrences

A recurrence moves its entry value by one increment per iteration. As no increment is
negative, it starts with its least value and is at its greatest one after the last
iteration, whichever values the increments take in between.
-/

namespace KernelFootprint

namespace Extremes

variable {entry increment : Extremes} {count : Nat}

/-- The ends of an entry value that is moved by an increment per iteration. -/
def moved (entry increment : Extremes) (count : Nat) : Extremes :=
  Gathering.extremum.apply entry
    (Gathering.sum.apply entry
      (Gathering.product.apply increment (exactly count (Int.natCast_nonneg count))))

theorem lowest_moved : (moved entry increment count).lowest = entry.lowest := by
  have drift : 0 ≤ increment.lowest * count :=
    Int.mul_nonneg increment.nonneg (Int.natCast_nonneg count)
  exact min_eq_left (Int.le_add_of_nonneg_right drift)

theorem highest_moved :
    (moved entry increment count).highest = entry.highest + increment.highest * count := by
  have drift : 0 ≤ increment.highest * count :=
    Int.mul_nonneg increment.highest_nonneg (Int.natCast_nonneg count)
  exact max_eq_right (Int.le_add_of_nonneg_right drift)

/-- No steps are negative, and together they are no more than as many of the highest. -/
theorem steps_within {steps : List Int} (inside : ∀ step ∈ steps, increment.Contains step)
    (few : steps.length ≤ count) : 0 ≤ steps.sum ∧ steps.sum ≤ increment.highest * count := by
  constructor
  · refine List.sum_nonneg ?_
    intro step member
    exact Int.le_trans increment.nonneg (inside step member).1
  · have most := List.sum_le_card_nsmul steps increment.highest
      (fun step member => (inside step member).2)
    rw [nsmul_eq_mul, Int.mul_comm] at most
    refine Int.le_trans most ?_
    exact Int.mul_le_mul_of_nonneg_left (Int.ofNat_le.mpr few) increment.highest_nonneg

/-- Values from the lowest entry to the highest one with the highest increments. -/
theorem encloses_moved {starts steps : Int → Prop} (onEntry : entry.Encloses starts)
    (onIncrement : increment.Encloses steps) :
    (moved entry increment count).Encloses (fun value =>
      ∃ (start : Int) (taken : List Int), starts start ∧ taken.length ≤ count ∧
        (∀ step ∈ taken, steps step) ∧
          start + taken.sum = value) := by
  refine ⟨?_, ?_, ?_⟩
  · rw [lowest_moved]
    exact ⟨entry.lowest, [], onEntry.lowest, Nat.zero_le count, nofun, Int.add_zero _⟩
  · refine ⟨entry.highest, List.replicate count increment.highest, onEntry.highest, ?_, ?_, ?_⟩
    · rw [List.length_replicate]
    · intro step member
      rw [List.eq_of_mem_replicate member]
      exact onIncrement.highest
    · rw [highest_moved, List.sum_replicate, nsmul_eq_mul, Int.mul_comm]
  · rintro value ⟨start, taken, isStart, few, each, rfl⟩
    obtain ⟨low, high⟩ := onEntry.within start isStart
    obtain ⟨forward, most⟩ :=
      steps_within (fun step member => onIncrement.within step (each step member)) few
    rw [Contains, lowest_moved, highest_moved]
    exact ⟨Int.le_trans low (Int.le_add_of_nonneg_right forward), Int.add_le_add high most⟩

end Extremes

/-- An entry value moved by its total drift, at the extreme. -/
def Emitter.moveEntry (emitter : Emitter) (mode : Mode) (entry increment count : Value) :
    Analysis Value := do
  let drift ← emitter.combine .mul increment count
  let moved ← emitter.combine .add entry drift
  emitter.combine mode.extremum entry moved

theorem Emitter.moveEntry_brackets (emitter : Emitter) {entry increment : Extremes}
    {greatest least otherGreatest otherLeast : Value} (onEntry : entry.Brackets greatest least)
    (onIncrement : increment.Brackets otherGreatest otherLeast) (count : Nat) :
    ∃ high low, emitter.moveEntry .greatest greatest otherGreatest (.int count) = pure high ∧
      emitter.moveEntry .least least otherLeast (.int count) = pure low ∧
        (entry.moved increment count).Brackets high low := by
  obtain ⟨drift, otherDrift, multiplied, otherMultiplied, onDrift⟩ :=
    Gathering.product.combine_brackets emitter onIncrement
      (Extremes.brackets_exactly (Int.natCast_nonneg count))
  obtain ⟨last, otherLast, added, otherAdded, onLast⟩ :=
    Gathering.sum.combine_brackets emitter onEntry onDrift
  obtain ⟨high, low, chosen, otherChosen, brackets⟩ :=
    Gathering.extremum.combine_brackets emitter onEntry onLast
  change emitter.combine .mul otherGreatest (.int count) = pure drift at multiplied
  change emitter.combine .mul otherLeast (.int count) = pure otherDrift at otherMultiplied
  change emitter.combine .add greatest drift = pure last at added
  change emitter.combine .add least otherDrift = pure otherLast at otherAdded
  refine ⟨high, low, ?_, ?_, brackets⟩
  · rw [moveEntry, multiplied, pure_bind, added, pure_bind]
    exact chosen
  · rw [moveEntry, otherMultiplied, pure_bind, otherAdded, pure_bind]
    exact otherChosen

theorem Emitter.keeps_moveEntry {related : Ledger → Ledger → Prop}
    (passage : Analysis.IsPassage related) (emitter : Emitter) (mode : Mode)
    (entry increment count : Value) :
    Analysis.Keeps related (emitter.moveEntry mode entry increment count) := by
  refine Analysis.Keeps.bind passage (keeps_combine passage emitter _ _ _) ?_
  intro drift
  refine Analysis.Keeps.bind passage (keeps_combine passage emitter _ _ _) ?_
  intro moved
  exact keeps_combine passage emitter _ _ _

namespace NaryTree

open Analysis

variable {setting : RangeSetting} {id : Option Nat}

/-- A recurrence has a value only inside a loop. -/
theorem exists_count_of_recurrenceValue {text : String} {addends entries : List (Analysis Value)}
    {ledger after : Ledger} {result : Value}
    (returned : (recurrenceValue setting text id addends entries).outcome ledger =
      (.ok result, after)) :
    (∃ ask, setting.iterationCount = some ask) ∧
      isOutsideLoops (setting.context.loopOf id) = false := by
  obtain ⟨entry, middle, _, incremented⟩ := outcome_bind_eq_ok.mp returned
  obtain ⟨increment, last, _, moved⟩ := outcome_bind_eq_ok.mp incremented
  cases counting : setting.iterationCount with
  | none =>
      simp only [counting] at moved
      cases moved
  | some ask =>
      refine ⟨⟨ask, rfl⟩, ?_⟩
      by_contra outside
      rw [Bool.not_eq_false] at outside
      simp only [counting, outside, if_true] at moved
      cases moved

/-- Inside a loop a recurrence is its entry value moved by its drift. -/
theorem recurrenceValue_of_count {ask : Datum → Analysis Value}
    (counting : setting.iterationCount = some ask)
    (inside : isOutsideLoops (setting.context.loopOf id) = false) (text : String)
    (addends entries : List (Analysis Value)) :
    recurrenceValue setting text id addends entries = (do
      let entry ← combineAll setting setting.context.mode.extremum entries
      let increment ← addends.foldlM (addOne setting) 0
      let count ← ask (setting.context.loopOf id)
      setting.context.emitter.moveEntry setting.context.mode entry increment count) := by
  simp only [recurrenceValue, counting, inside, Bool.false_eq_true, if_false]
  rfl

end NaryTree

namespace Survey

open Analysis NaryTree

variable {survey : Survey} {bounds : NaryTree → Extremes} {addends : List NaryTree}

/-- The sum of what is added to a phi term, from a given value on. -/
def increment (survey : Survey) (mode : Mode) (addends : List NaryTree) (start : Value) :
    Analysis Value :=
  (addends.map (survey.value mode)).foldlM (addOne (survey.setting mode)) start

theorem increment_cons (mode : Mode) (first : NaryTree) (rest : List NaryTree) (start : Value) :
    survey.increment mode (first :: rest) start = (do
      let value ← survey.value mode first
      let total ← survey.resolver.emitter.combine .add start value
      survey.increment mode rest total) := by
  rw [increment, List.map_cons, List.foldlM_cons, addOne, bind_assoc]
  rfl

theorem keeps_increment
    (delimits : ∀ addend ∈ addends, survey.Delimits addend (bounds addend)) (start : Value) :
    Keeps survey.memo.Extends (survey.increment .greatest addends start) := by
  have passage := survey.memo.isPassage_extends
  induction addends generalizing start with
  | nil => exact keeps_pure passage start
  | cons first rest ih =>
      rw [increment_cons]
      refine Keeps.bind passage (delimits first (List.mem_cons_self ..)).kept ?_
      intro value
      refine Keeps.bind passage (Emitter.keeps_combine passage _ _ _ _) ?_
      exact ih (fun addend member => delimits addend (List.mem_cons_of_mem _ member))

/-- The increment is replayed between the sums of the ends. -/
theorem replays_increment
    (delimits : ∀ addend ∈ addends, survey.Delimits addend (bounds addend)) {start : Extremes}
    {greatest least : Value} (onStart : start.Brackets greatest least) :
    survey.memo.Replays survey.final (survey.increment .greatest addends greatest)
      (survey.increment .least addends least)
      (Gathering.sum.gather start (addends.map bounds)).Brackets := by
  have passage := survey.memo.isPassage_extends
  induction addends generalizing start greatest least with
  | nil => exact Memo.replays_pure onStart
  | cons first rest ih =>
      have restDelimits addend (member : addend ∈ rest) :=
        delimits addend (List.mem_cons_of_mem _ member)
      rw [increment_cons, increment_cons]
      refine (delimits first (List.mem_cons_self ..)).replays.bind ?_ ?_
      · intro value
        refine Keeps.bind passage (Emitter.keeps_combine passage _ _ _ _) ?_
        exact keeps_increment restDelimits
      · intro value other brackets
        obtain ⟨total, otherTotal, added, otherAdded, onTotal⟩ :=
          Gathering.sum.combine_brackets survey.resolver.emitter onStart brackets
        change survey.resolver.emitter.combine .add greatest value = pure total at added
        change survey.resolver.emitter.combine .add least other = pure otherTotal at otherAdded
        rw [added, otherAdded, pure_bind, pure_bind]
        exact ih restDelimits onTotal

/-- Addends of which the increment is known have both ends. -/
theorem exists_delimits_of_increment {ledger after : Ledger} {start result : Value}
    (sound : ∀ addend ∈ addends, survey.Sound addend)
    (returned : (survey.increment .greatest addends start).outcome ledger =
      (.ok result, after)) :
    ∀ addend ∈ addends, ∃ bounds, survey.Delimits addend bounds := by
  induction addends generalizing ledger start with
  | nil => exact nofun
  | cons first rest ih =>
      rw [increment_cons] at returned
      obtain ⟨value, middle, onFirst, added⟩ := outcome_bind_eq_ok.mp returned
      obtain ⟨total, last, _, onRest⟩ := outcome_bind_eq_ok.mp added
      intro addend member
      rcases List.mem_cons.mp member with rfl | inRest
      · exact sound addend member ⟨ledger, value, middle, onFirst⟩
      · exact ih (fun addend member => sound addend (List.mem_cons_of_mem _ member)) onRest
          addend inRest

variable {text : Datum} {id : Option Nat} {operands entries : List NaryTree}
  {term : OpenTerm NaryTree} {rest : List (OpenTerm NaryTree × List NaryTree)}

/-- The loop that a merge belongs to. -/
def loopOf (survey : Survey) (id : Option Nat) : Datum :=
  (survey.setting .greatest).context.loopOf id

/-- An entry value moved by as many increments as its loop counts. -/
def moveOver (survey : Survey) (mode : Mode) (id : Option Nat) (entry increment : Value) :
    Analysis Value := do
  let count ← survey.ask (survey.loopOf id)
  survey.resolver.emitter.moveEntry mode entry increment count

/-- What a merge with a term of its own is worth in a counted loop. -/
def recurrence (survey : Survey) (mode : Mode) (id : Option Nat)
    (addends entries : List NaryTree) : Analysis Value := do
  let entry ← combineAll (survey.setting mode) mode.extremum (entries.map (survey.value mode))
  let increment ← survey.increment mode addends 0
  survey.moveOver mode id entry increment

theorem keeps_moveOver (id : Option Nat) (entry increment : Value) :
    Keeps survey.memo.Extends (survey.moveOver .greatest id entry increment) := by
  have passage := survey.memo.isPassage_extends
  refine Keeps.bind passage (survey.memo.keeps_ask _) ?_
  intro count
  exact Emitter.keeps_moveEntry passage _ _ _ _ _

/-- The least value is moved by the same count as the greatest one. -/
theorem replays_moveOver {entry increment : Extremes}
    {greatest least otherGreatest otherLeast : Value} (onEntry : entry.Brackets greatest least)
    (onIncrement : increment.Brackets otherGreatest otherLeast) :
    survey.memo.Replays survey.final (survey.moveOver .greatest id greatest otherGreatest)
      (survey.moveOver .least id least otherLeast)
      (entry.moved increment (survey.count id)).Brackets := by
  refine (Memo.replays_ask _).bind ?_ ?_
  · intro count
    exact Emitter.keeps_moveEntry survey.memo.isPassage_extends _ _ _ _ _
  · rintro count _ ⟨rfl, known⟩
    cases survey.counted id count known
    obtain ⟨high, low, moved, otherMoved, brackets⟩ :=
      survey.resolver.emitter.moveEntry_brackets onEntry onIncrement (survey.count id)
    rw [moved, otherMoved]
    exact Memo.replays_pure brackets

/-- A merge has a value only inside a loop, with entries and with nothing but sums around
its term. -/
theorem exists_view {ledger after : Ledger} {result : Value}
    (claimed : claimedTerms operands = (term, entries) :: rest)
    (returned : (survey.value .greatest (.node text (.operation .phi id) operands)).outcome
      ledger = (.ok result, after)) :
    term.obstacle = none ∧ entries ≠ [] ∧ (∃ known, survey.view = some known) ∧
      isOutsideLoops (survey.loopOf id) = false := by
  rw [value, rangeValue_recurrence claimed] at returned
  cases obstacle : term.obstacle with
  | some name =>
      rw [obstacle] at returned
      cases returned
  | none =>
      rw [obstacle] at returned
      cases entries with
      | nil => cases returned
      | cons first others =>
          obtain ⟨counted, inside⟩ := exists_count_of_recurrenceValue returned
          obtain ⟨known, viewed, _⟩ := Option.map_eq_some_iff.mp counted.choose_spec
          exact ⟨rfl, List.cons_ne_nil first others, ⟨known, viewed⟩, inside⟩

theorem value_recurrence {known : LoopView}
    (claimed : claimedTerms operands = (term, entries) :: rest)
    (unobstructed : term.obstacle = none) (nonempty : entries ≠ [])
    (viewed : survey.view = some known) (inside : isOutsideLoops (survey.loopOf id) = false)
    (mode : Mode) :
    survey.value mode (.node text (.operation .phi id) operands) =
      survey.recurrence mode id term.addends entries := by
  obtain ⟨first, others, rfl⟩ := List.exists_cons_of_ne_nil nonempty
  have counting : (survey.setting mode).iterationCount = some survey.ask := by
    change survey.view.map LoopView.iterationCount = _
    rw [viewed, ← survey.asked known viewed]
    rfl
  rw [loopOf, ← loopOf_setting mode] at inside
  rw [value, rangeValue_recurrence claimed, unobstructed]
  refine (recurrenceValue_of_count counting inside _ _ _).trans ?_
  rw [loopOf_setting]
  rfl

/-- The possible values of a recurrence are entry values with possible increments added. -/
theorem possible_recurrence (claimed : claimedTerms operands = [(term, entries)]) (value : Int) :
    survey.Possible (.node text (.operation .phi id) operands) value ↔
      ∃ (start : Int) (taken : List Int), (∃ entry ∈ entries, survey.Possible entry start) ∧
        taken.length ≤ survey.count id ∧
          (∀ step ∈ taken, ∃ choices, survey.IsChoice term.addends choices ∧
            (choices.map Prod.snd).sum = step) ∧ start + taken.sum = value := by
  constructor
  · intro possible
    cases possible with
    | recurrence found member entered few chosen each =>
        cases claimed.symm.trans found
        refine ⟨_, _, ⟨_, member, entered⟩, ?_, ?_, rfl⟩
        · rw [List.length_map]
          exact few
        · intro step inside
          obtain ⟨choices, taken, rfl⟩ := List.mem_map.mp inside
          exact ⟨choices, ⟨chosen choices taken, each choices taken⟩, rfl⟩
    | sum additive _ _ => rcases additive with same | same <;> cases same
    | merge unclaimed _ _ => cases unclaimed.symm.trans claimed
  · rintro ⟨start, taken, ⟨entry, member, entered⟩, few, each, rfl⟩
    choose! choices isChoice sums using each
    have steps : (taken.map choices).map (fun choices => (choices.map Prod.snd).sum) = taken := by
      rw [List.map_map]
      exact (List.map_congr_left sums).trans (List.map_id taken)
    rw [← steps]
    refine .recurrence claimed member entered ?_ ?_ ?_
    · rw [List.length_map]
      exact few
    · intro choices inside
      obtain ⟨step, stepTaken, rfl⟩ := List.mem_map.mp inside
      exact (isChoice step stepTaken).chosen
    · intro choices inside
      obtain ⟨step, stepTaken, rfl⟩ := List.mem_map.mp inside
      exact (isChoice step stepTaken).possible

/-- The sums of increments from zero on reach from the lowest to the highest. -/
theorem encloses_increment
    (delimits : ∀ addend ∈ addends, survey.Delimits addend (bounds addend)) :
    (Gathering.sum.gather (.exactly 0 (Int.le_refl 0)) (addends.map bounds)).Encloses
      (fun value => ∃ choices, survey.IsChoice addends choices ∧
        (choices.map Prod.snd).sum = value) := by
  obtain ⟨lowest, highest⟩ :=
    Extremes.gather_sum (.exactly 0 (Int.le_refl 0)) (addends.map bounds)
  rw [List.map_map] at lowest highest
  exact encloses_total (fun _ inside => Extremes.sum_within inside)
    (lowest.trans (Int.zero_add _)) (highest.trans (Int.zero_add _)) delimits

theorem keeps_recurrence
    (entriesDelimit : ∀ entry ∈ entries, survey.Delimits entry (bounds entry))
    {addendBounds : NaryTree → Extremes}
    (delimits : ∀ addend ∈ addends, survey.Delimits addend (addendBounds addend)) :
    Keeps survey.memo.Extends (survey.recurrence .greatest id addends entries) := by
  have passage := survey.memo.isPassage_extends
  refine Keeps.bind passage (keeps_combineAll entriesDelimit _) ?_
  intro entry
  refine Keeps.bind passage (keeps_increment delimits _) ?_
  intro increment
  exact keeps_moveOver id entry increment

/-- A recurrence is replayed between the ends of its entries and of what they are moved to. -/
theorem replays_recurrence {first : NaryTree} {others : List NaryTree}
    (entriesDelimit : ∀ entry ∈ first :: others, survey.Delimits entry (bounds entry))
    {addendBounds : NaryTree → Extremes}
    (delimits : ∀ addend ∈ addends, survey.Delimits addend (addendBounds addend)) :
    survey.memo.Replays survey.final
      (survey.recurrence .greatest id addends (first :: others))
      (survey.recurrence .least id addends (first :: others))
      (Extremes.moved (Gathering.extremum.gather (bounds first) (others.map bounds))
        (Gathering.sum.gather (.exactly 0 (Int.le_refl 0)) (addends.map addendBounds))
          (survey.count id)).Brackets := by
  refine (replays_combineAll .extremum entriesDelimit).bind ?_ ?_
  · intro entry
    refine Keeps.bind survey.memo.isPassage_extends (keeps_increment delimits _) ?_
    intro increment
    exact keeps_moveOver id entry increment
  · intro entry otherEntry onEntry
    have onZero := Extremes.brackets_exactly (Int.le_refl 0)
    refine (replays_increment delimits onZero).bind ?_ ?_
    · intro increment
      exact keeps_moveOver id entry increment
    · intro increment otherIncrement onIncrement
      exact replays_moveOver onEntry onIncrement

/-- A merge with one term of its own has both ends if its entries and increments have. -/
theorem sound_recurrence (claimed : claimedTerms operands = [(term, entries)])
    (entriesSound : ∀ entry ∈ entries, survey.Sound entry)
    (addendsSound : ∀ addend ∈ term.addends, survey.Sound addend) :
    survey.Sound (.node text (.operation .phi id) operands) := by
  rintro ⟨ledger, result, after, returned⟩
  obtain ⟨unobstructed, nonempty, ⟨known, viewed⟩, inside⟩ := exists_view claimed returned
  have valued (mode : Mode) : survey.value mode (.node text (.operation .phi id) operands) =
      survey.recurrence mode id term.addends entries :=
    value_recurrence claimed unobstructed nonempty viewed inside mode
  obtain ⟨first, others, rfl⟩ := List.exists_cons_of_ne_nil nonempty
  rw [valued] at returned
  obtain ⟨entry, middle, entered, incremented⟩ := outcome_bind_eq_ok.mp returned
  obtain ⟨increment, last, summed, _⟩ := outcome_bind_eq_ok.mp incremented
  obtain ⟨bounds, entriesDelimit⟩ := exists_delimits entriesSound entered
  have each := exists_delimits_of_increment addendsSound summed
  choose! addendBounds delimits using each
  refine ⟨Extremes.moved (Gathering.extremum.gather (bounds first) (others.map bounds))
    (Gathering.sum.gather (.exactly 0 (Int.le_refl 0)) (term.addends.map addendBounds))
      (survey.count id), ?_, ?_, ?_⟩
  · exact (Extremes.encloses_moved (encloses_extremum entriesDelimit)
      (encloses_increment delimits)).of_iff (possible_recurrence claimed)
  · rw [valued]
    exact keeps_recurrence entriesDelimit delimits
  · rw [valued, valued]
    exact replays_recurrence entriesDelimit delimits

end Survey

end KernelFootprint
