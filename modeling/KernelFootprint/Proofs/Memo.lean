import KernelFootprint.Proofs.Frame

/-!
# Iteration counts are kept

Once a loop has a count it keeps it: asking again gives the same count and leaves the
ledger as it is, whatever is counted or requested in between.
-/

namespace KernelFootprint

/-- A quantity of loops that is kept once it is known. -/
structure Memo (ask : Datum → Analysis Value) where
  known : Ledger → Datum → Value → Prop
  answers : ∀ {ledger loop value}, known ledger loop value →
    (ask loop).outcome ledger = (.ok value, ledger)
  settles : ∀ {ledger loop value after}, (ask loop).outcome ledger = (.ok value, after) →
    known after loop value
  persists : ∀ {ledger loop value}, known ledger loop value → ∀ other,
    known ((ask other).outcome ledger).2 loop value
  unrequested : ∀ {ledger loop value}, known ledger loop value → ∀ requests,
    known { ledger with requests := requests } loop value

namespace Memo

open Analysis

/-- A quantity that no loop has. -/
def ofNone (fault : Fault) : Memo (fun _ => Analysis.fail fault) where
  known _ _ _ := False
  answers := False.elim
  settles := nofun
  persists := False.elim
  unrequested := False.elim

variable {First Second : Type} {ask : Datum → Analysis Value} {memo : Memo ask}

/-- Whatever is known in one ledger is known in another. -/
def Extends (memo : Memo ask) (before after : Ledger) : Prop :=
  ∀ loop value, memo.known before loop value → memo.known after loop value

theorem isPassage_extends (memo : Memo ask) : IsPassage memo.Extends where
  refl _ _ _ known := known
  trans onFirst onSecond loop value known := onSecond loop value (onFirst loop value known)
  requests _ requests _ _ known := memo.unrequested known requests

theorem keeps_ask (memo : Memo ask) (loop : Datum) : Keeps memo.Extends (ask loop) :=
  fun _ _ _ known => memo.persists known loop

/-- Wherever the first analysis succeeds, the second one takes the same way through the
ledgers, and it has the same result again at the end, without a change to the ledger. -/
def Replays (memo : Memo ask) (final : Ledger) (first second : Analysis First)
    (related : First → First → Prop) : Prop :=
  ∀ ledger result after, first.outcome ledger = (.ok result, after) → memo.Extends after final →
    ∃ other, second.outcome ledger = (.ok other, after) ∧
      second.outcome final = (.ok other, final) ∧ related result other

variable {final : Ledger} {related : First → First → Prop}

theorem replays_pure {value other : First} (holds : related value other) :
    memo.Replays final (pure value) (pure other) related := by
  intro ledger result after returned _
  cases returned
  exact ⟨other, rfl, rfl, holds⟩

theorem Replays.bind {first second : Analysis First} {next otherNext : First → Analysis Second}
    {goal : Second → Second → Prop} (onFirst : memo.Replays final first second related)
    (kept : ∀ value, Keeps memo.Extends (next value))
    (onNext : ∀ value other, related value other →
      memo.Replays final (next value) (otherNext other) goal) :
    memo.Replays final (first >>= next) (second >>= otherNext) goal := by
  intro ledger result after returned extended
  obtain ⟨value, middle, firstReturned, nextReturned⟩ := outcome_bind_eq_ok.mp returned
  have passed : memo.Extends middle after := by
    have step := kept value middle
    rw [nextReturned] at step
    exact step
  obtain ⟨other, secondReturned, again, holds⟩ := onFirst ledger value middle firstReturned
    (memo.isPassage_extends.trans passed extended)
  obtain ⟨last, lastReturned, lastAgain, lastHolds⟩ :=
    onNext value other holds middle result after nextReturned extended
  refine ⟨last, ?_, ?_, lastHolds⟩
  · exact outcome_bind_eq_ok.mpr ⟨other, middle, secondReturned, lastReturned⟩
  · exact outcome_bind_eq_ok.mpr ⟨other, final, again, lastAgain⟩

/-- Asking for the quantity of a loop gives what is known of it in the end. -/
theorem replays_ask (loop : Datum) :
    memo.Replays final (ask loop) (ask loop)
      (fun value other => value = other ∧ memo.known final loop value) := by
  intro ledger value after returned extended
  have known := extended loop value (memo.settles returned)
  exact ⟨value, returned, memo.answers known, rfl, known⟩

end Memo

namespace LoopNest

open Analysis

/-- What is kept is given back, and what is computed is kept. -/
theorem outcome_remember (kept : Ledger → List (Int × Value))
    (keep : List (Int × Value) → Ledger → Ledger) (loop : Int) (compute : Analysis Value)
    (ledger : Ledger) :
    (remember kept keep loop compute).outcome ledger =
      match Register.find loop (kept ledger) with
      | some value => (.ok value, ledger)
      | none =>
          match compute.outcome ledger with
          | (.ok value, after) => (.ok value, keep (Register.insert loop value (kept after)) after)
          | (.error fault, after) => (.error fault, after) := by
  rw [remember, outcome_bind]
  change (match Register.find loop (kept ledger) with
    | some value => (pure value : Analysis Value)
    | none => compute >>= fun value =>
        modify (fun ledger => keep (Register.insert loop value (kept ledger)) ledger) >>=
          fun _ => pure value).outcome ledger = _
  cases Register.find loop (kept ledger) with
  | some value => rfl
  | none =>
      change (compute >>= _).outcome ledger = _
      rw [outcome_bind]
      rcases compute.outcome ledger with ⟨fault | value, after⟩
      · rfl
      · rfl

/-- Whether it was kept before or not, what is given back is kept. -/
theorem find_of_remember {kept : Ledger → List (Int × Value)}
    {keep : List (Int × Value) → Ledger → Ledger} {loop : Int} {compute : Analysis Value}
    {ledger after : Ledger} {value : Value}
    (reads : ∀ values ledger, kept (keep values ledger) = values)
    (returned : (remember kept keep loop compute).outcome ledger = (.ok value, after)) :
    Register.find loop (kept after) = some value := by
  rw [outcome_remember] at returned
  cases found : Register.find loop (kept ledger) with
  | some old =>
      rw [found] at returned
      cases returned
      exact found
  | none =>
      simp only [found] at returned
      rcases fresh : compute.outcome ledger with ⟨fault | new, middle⟩
      · rw [fresh] at returned
        cases returned
      · rw [fresh] at returned
        cases returned
        rw [reads, Register.find_insert_self]

variable {nest : LoopNest}

/-- The count of a loop that has none yet. -/
def freshCount (nest : LoopNest) (loop : Datum) (record : LoopRecord) : Analysis Value := do
  match record.knownCount with
  | .null =>
      let tree ← Analysis.ofExcept (nest.iterationTree loop)
      return nest.clamp (← nest.evaluateBound nest.lowerBound record .iterationCount tree)
  | known => return .int (← Analysis.ofExcept (known.toInteger.mapError Fault.misuse))

theorem iterationCount_of_entry {loop : Datum} {number : Int} {record : LoopRecord}
    (named : nest.entry loop = .ok (number, record)) :
    nest.iterationCount loop = rememberCount number (nest.freshCount loop record) := by
  rw [iterationCount, named]
  rfl

/-- Whether two ledgers have the same iteration counts. -/
def SameCounts (before after : Ledger) : Prop := after.iterationCounts = before.iterationCounts

theorem isApart_sameCounts : IsApart SameCounts where
  refl _ := rfl
  trans onFirst onSecond := onSecond.trans onFirst
  requests _ _ := rfl
  lowerBounds _ _ := rfl
  active _ _ := rfl

theorem keeps_freshCount (nest : LoopNest) (loop : Datum) (record : LoopRecord) :
    Keeps SameCounts (nest.freshCount loop record) := by
  have apart := isApart_sameCounts
  have passage := apart.toIsPassage
  unfold freshCount
  split
  · refine Keeps.bind passage (keeps_ofExcept passage _) ?_
    intro tree
    refine Keeps.bind passage
      (keeps_evaluateBound apart (keeps_lowerBound apart) record _ tree) ?_
    intro count
    exact keeps_pure passage _
  · refine Keeps.bind passage (keeps_ofExcept passage _) ?_
    intro count
    exact keeps_pure passage _

/-- A loop has a count in the ledger. -/
def HasCount (nest : LoopNest) (ledger : Ledger) (loop : Datum) (value : Value) : Prop :=
  ∃ number record, nest.entry loop = .ok (number, record) ∧
    Register.find number ledger.iterationCounts = some value

theorem HasCount.answers {ledger : Ledger} {loop : Datum} {value : Value}
    (counted : nest.HasCount ledger loop value) :
    (nest.iterationCount loop).outcome ledger = (.ok value, ledger) := by
  obtain ⟨number, record, named, found⟩ := counted
  rw [iterationCount_of_entry named, rememberCount, outcome_remember, found]

theorem hasCount_of_iterationCount {ledger after : Ledger} {loop : Datum} {value : Value}
    (counted : (nest.iterationCount loop).outcome ledger = (.ok value, after)) :
    nest.HasCount after loop value := by
  rcases named : nest.entry loop with fault | ⟨number, record⟩
  · rw [iterationCount, named] at counted
    cases counted
  · rw [iterationCount_of_entry named, rememberCount] at counted
    exact ⟨number, record, named, find_of_remember (fun _ _ => rfl) counted⟩

/-- Asking for another count changes none that is there. -/
theorem HasCount.persists {ledger : Ledger} {loop : Datum} {value : Value}
    (counted : nest.HasCount ledger loop value) (other : Datum) :
    nest.HasCount ((nest.iterationCount other).outcome ledger).2 loop value := by
  obtain ⟨number, record, named, found⟩ := counted
  refine ⟨number, record, named, ?_⟩
  rcases otherNamed : nest.entry other with fault | ⟨otherNumber, otherRecord⟩
  · rw [iterationCount, otherNamed]
    exact found
  · have kept := nest.keeps_freshCount other otherRecord ledger
    rw [iterationCount_of_entry otherNamed, rememberCount, outcome_remember]
    cases old : Register.find otherNumber ledger.iterationCounts with
    | some value => exact found
    | none =>
        have different : number ≠ otherNumber := by
          intro same
          rw [same, old] at found
          cases found
        rcases fresh : (nest.freshCount other otherRecord).outcome ledger with
          ⟨fault | new, middle⟩
        · rw [fresh] at kept
          change Register.find number middle.iterationCounts = some value
          rw [show middle.iterationCounts = ledger.iterationCounts from kept]
          exact found
        · rw [fresh] at kept
          change Register.find number
            (Register.insert otherNumber new middle.iterationCounts) = some value
          rw [Register.find_insert_of_ne different,
            show middle.iterationCounts = ledger.iterationCounts from kept]
          exact found

/-- Iteration counts are kept once they are known. -/
def countMemo (nest : LoopNest) : Memo nest.iterationCount where
  known := nest.HasCount
  answers := HasCount.answers
  settles := hasCount_of_iterationCount
  persists := HasCount.persists
  unrequested counted _ := counted

end LoopNest

end KernelFootprint
