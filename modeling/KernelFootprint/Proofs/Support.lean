import KernelFootprint.Proofs.Index
import KernelFootprint.Proofs.Quantity
import KernelFootprint.Proofs.Steady

/-!
# Values that a ledger supports

A ledger supports a value of a loop if the trees of the loop come to this value when
the lower bounds of other loops are looked up in the ledger. A ledger is sound if it
supports all it keeps, and if no lower bound in it goes back to itself. The lower
bounds of loops are then the same in all sound ledgers, and two sound ledgers are
part of a third one.
-/

namespace KernelFootprint

open Analysis

namespace Register

/-- Every entry of one register is found in another. -/
def IsWithin (small large : List (Int × Value)) : Prop :=
  ∀ loop value, find loop small = some value → find loop large = some value

theorem isWithin_refl (values : List (Int × Value)) : IsWithin values values :=
  fun _ _ found => found

theorem IsWithin.trans {small middle large : List (Int × Value)}
    (first : IsWithin small middle) (second : IsWithin middle large) : IsWithin small large :=
  fun loop value found => second loop value (first loop value found)

theorem isWithin_nil (values : List (Int × Value)) : IsWithin [] values := nofun

/-- An entry can be put into a register that has no other value for its key. -/
theorem isWithin_insert {loop : Int} {value : Value} {values : List (Int × Value)}
    (only : ∀ other, find loop values = some other → other = value) :
    IsWithin values (insert loop value values) := by
  intro key found present
  by_cases same : key = loop
  · subst same
    rw [only found present, find_insert_self]
  · rwa [find_insert_of_ne same]

theorem eq_or_find_of_find_insert {key loop : Int} {value entry : Value}
    {values : List (Int × Value)} (found : find key (insert loop value values) = some entry) :
    (key = loop ∧ entry = value) ∨ find key values = some entry := by
  by_cases same : key = loop
  · subst same
    rw [find_insert_self] at found
    exact .inl ⟨rfl, (Option.some.inj found).symm⟩
  · rw [find_insert_of_ne same] at found
    exact .inr found

theorem insert_isWithin {loop : Int} {value : Value} {small large : List (Int × Value)}
    (within : IsWithin small large) (found : find loop large = some value) :
    IsWithin (insert loop value small) large := by
  intro key entry present
  by_cases same : key = loop
  · subst same
    rw [find_insert_self] at present
    cases present
    exact found
  · rw [find_insert_of_ne same] at present
    exact within key entry present

theorem insert_isWithin_insert {loop : Int} {value : Value} {small large : List (Int × Value)}
    (within : IsWithin small large) :
    IsWithin (insert loop value small) (insert loop value large) := by
  intro key entry present
  by_cases same : key = loop
  · subst same
    rwa [find_insert_self] at present ⊢
  · rw [find_insert_of_ne same] at present ⊢
    exact within key entry present

theorem IsWithin.find_eq_none {small large : List (Int × Value)} (within : IsWithin small large)
    {loop : Int} (missing : find loop large = none) : find loop small = none := by
  cases found : find loop small with
  | none => rfl
  | some value =>
      rw [within loop value found] at missing
      cases missing

theorem isWithin_append_left (first second : List (Int × Value)) :
    IsWithin first (first ++ second) := by
  intro loop value found
  rw [find_append, found]
  rfl

theorem isWithin_append_right {first second : List (Int × Value)}
    (agree : ∀ loop value other, find loop first = some value →
      find loop second = some other → value = other) : IsWithin second (first ++ second) := by
  intro loop other found
  rw [find_append]
  cases present : find loop first with
  | none => exact found
  | some value => rw [agree loop value other present found]; rfl

end Register

namespace LoopNest

variable {nest : LoopNest}

/-- The kept value of a quantity. -/
def lookUp (nest : LoopNest) (ledger : Ledger) (quantity : LoopQuantity) (loop : Datum) :
    Analysis Value := do
  let (number, _) ← Analysis.ofExcept (nest.entry loop)
  match Register.find number (ledger.kept quantity) with
  | some value => return value
  | none => Analysis.fail Misuse.unfinished

/-- Evaluates trees with lower bounds that are kept in a ledger. -/
def evaluateFrom (nest : LoopNest) (ledger : Ledger) : BoundEvaluation :=
  fun record quantity tree =>
    ExceptT.adapt (asObstacle record quantity)
      ((nest.boundContext (nest.lookUp ledger (.bound .initial)) record).ofBinary tree)

/-- A loop of the given number has a value if lower bounds are those of the ledger. -/
def Supports (nest : LoopNest) (ledger : Ledger) (quantity : LoopQuantity) (number : Int)
    (value : Value) : Prop :=
  ∃ loop record, nest.entry loop = .ok (number, record) ∧
    (nest.compute (nest.evaluateFrom ledger) quantity loop record).Gives value

/-- A value that goes back to lower bounds known before it. -/
inductive HasLower (nest : LoopNest) : Int → Value → Prop
  | of {known : Ledger} {number : Int} {value : Value}
      (before : ∀ other found, Register.find other known.lowerBounds = some found →
        HasLower nest other found)
      (supported : nest.Supports known (.bound .initial) number value) :
      HasLower nest number value

/-- A ledger supports what it keeps, and its lower bounds do not go back to themselves. -/
structure IsSound (nest : LoopNest) (ledger : Ledger) : Prop where
  grounded : ∀ number value, Register.find number ledger.lowerBounds = some value →
    nest.HasLower number value
  supported : ∀ quantity number value,
    Register.find number (ledger.kept quantity) = some value →
      nest.Supports ledger quantity number value

theorem isSteady_lookUp (nest : LoopNest) (ledger : Ledger) (quantity : LoopQuantity)
    (loop : Datum) : (nest.lookUp ledger quantity loop).IsSteady := by
  refine IsSteady.bind (isExtensible_steady.ofExcept (nest.entry loop)) ?_
  rintro ⟨number, _⟩
  dsimp only
  split
  · exact fun _ _ => rfl
  · exact fun _ _ => rfl

theorem gives_lookUp {ledger : Ledger} {quantity : LoopQuantity} {loop : Datum}
    {value : Value} :
    (nest.lookUp ledger quantity loop).Gives value ↔
      ∃ number record, nest.entry loop = .ok (number, record) ∧
        Register.find number (ledger.kept quantity) = some value := by
  rcases named : nest.entry loop with fault | ⟨number, record⟩
  · rw [lookUp, named]
    constructor
    · intro given
      cases given {}
    · rintro ⟨number, record, other, _⟩
      cases other
  · rw [lookUp, named]
    change Analysis.Gives (match Register.find number (ledger.kept quantity) with
      | some value => pure value
      | none => fail Misuse.unfinished) value ↔ _
    constructor
    · intro given
      refine ⟨number, record, rfl, ?_⟩
      cases found : Register.find number (ledger.kept quantity) with
      | none =>
          rw [found] at given
          cases given {}
      | some kept =>
          rw [found] at given
          cases given {}
          rfl
    · rintro ⟨other, otherRecord, same, found⟩
      cases same
      rw [found]
      exact fun _ => rfl

theorem grows_lookUp {ledger other : Ledger} {quantity : LoopQuantity}
    (within : Register.IsWithin (ledger.kept quantity) (other.kept quantity)) (loop : Datum) :
    Grows Value (nest.lookUp ledger quantity loop) (nest.lookUp other quantity loop) := by
  refine ⟨isSteady_lookUp nest ledger quantity loop, ?_⟩
  intro value given
  obtain ⟨number, record, named, found⟩ := gives_lookUp.mp given
  exact gives_lookUp.mpr ⟨number, record, named, within number value found⟩

/-- With more lower bounds trees keep their values. -/
theorem grows_evaluateFrom (plain : nest.resolver.emitter = .symbolic) {ledger other : Ledger}
    (within : Register.IsWithin ledger.lowerBounds other.lowerBounds) (record : LoopRecord)
    (quantity : LoopQuantity) (tree : BinaryTree) :
    Grows Value (nest.evaluateFrom ledger record quantity tree)
      (nest.evaluateFrom other record quantity tree) := by
  have extensible : IsExtensible nest.resolver.emitter Grows := plain ▸ isExtensible_grows
  obtain ⟨steady, grown⟩ := related_boundContext extensible
    (fun loop => @grows_lookUp nest ledger other (.bound .initial) within loop) record tree
  exact ⟨steady.adapt _, fun value given => gives_adapt.mpr (grown value (gives_adapt.mp given))⟩

theorem Supports.mono (plain : nest.resolver.emitter = .symbolic) {ledger other : Ledger}
    (within : Register.IsWithin ledger.lowerBounds other.lowerBounds) {quantity : LoopQuantity}
    {number : Int} {value : Value} (supported : nest.Supports ledger quantity number value) :
    nest.Supports other quantity number value := by
  obtain ⟨loop, record, named, given⟩ := supported
  have extensible : IsExtensible nest.resolver.emitter Grows := plain ▸ isExtensible_grows
  have grown := related_compute extensible (grows_evaluateFrom plain within record) quantity loop
  exact ⟨loop, record, named, grown.2 value given⟩

/-- How a loop is named matters for faults only. -/
theorem iterationTree_congr {loop other : Datum} {record : LoopRecord} {tree : BinaryTree}
    (named : nest.record loop = .ok record) (otherNamed : nest.record other = .ok record)
    (made : nest.iterationTree loop = .ok tree) : nest.iterationTree other = .ok tree := by
  revert made
  rw [iterationTree, named, iterationTree, otherNamed]
  simp only [bind, Except.bind]
  cases boundTree record .initial with
  | error fault => exact id
  | ok initial =>
      cases boundTree record .final with
      | error fault => exact id
      | ok final =>
          cases record.step with
          | none => exact id
          | some step =>
              cases sentinel : step.isSentinel with
              | true => simp [throw, throwThe, MonadExceptOf.throw, sentinel]
              | false => simp [sentinel]

theorem gives_compute_congr {evaluate : BoundEvaluation} {quantity : LoopQuantity}
    {loop other : Datum} {record : LoopRecord} {value : Value}
    (named : nest.record loop = .ok record) (otherNamed : nest.record other = .ok record)
    (given : (nest.compute evaluate quantity loop record).Gives value) :
    (nest.compute evaluate quantity other record).Gives value := by
  cases quantity with
  | bound which => exact given
  | iterationCount =>
      simp only [compute] at given ⊢
      cases known : record.knownCount with
      | null =>
          rw [known] at given
          cases made : nest.iterationTree loop with
          | error fault =>
              rw [made] at given
              cases given {}
          | ok tree =>
              rw [made] at given
              rw [iterationTree_congr named otherNamed made]
              exact given
      | _ =>
          rw [known] at given
          exact given

/-- The tables of a ledger are within those of another one. -/
def Within (ledger other : Ledger) : Prop :=
  ∀ quantity, Register.IsWithin (ledger.kept quantity) (other.kept quantity)

variable {ledger other : Ledger} {quantity : LoopQuantity} {number : Int} {value : Value}

/-- A value can be kept where no other one is. -/
theorem within_enter (only : ∀ found,
    Register.find number (ledger.kept quantity) = some found → found = value) :
    Within ledger (ledger.enter quantity number value) := by
  intro asked
  by_cases same : asked = quantity
  · subst same
    rw [Ledger.kept_enter]
    exact Register.isWithin_insert only
  · rw [Ledger.kept_enter_of_ne same]
    exact Register.isWithin_refl _

/-- With one more value kept, what is found is that value or was found before. -/
theorem eq_or_find_of_find_enter {asked : LoopQuantity} {key : Int} {entry : Value}
    (found : Register.find key ((ledger.enter quantity number value).kept asked) = some entry) :
    (asked = quantity ∧ key = number ∧ entry = value) ∨
      Register.find key (ledger.kept asked) = some entry := by
  by_cases same : asked = quantity
  · subst same
    rw [Ledger.kept_enter] at found
    exact (Register.eq_or_find_of_find_insert found).imp_left (⟨rfl, ·⟩)
  · rw [Ledger.kept_enter_of_ne same] at found
    exact .inr found

/-- A value that the larger ledger keeps can be put into the smaller one. -/
theorem Within.enter_left (within : Within ledger other)
    (found : Register.find number (other.kept quantity) = some value) :
    Within (ledger.enter quantity number value) other := by
  intro asked
  by_cases same : asked = quantity
  · subst same
    rw [Ledger.kept_enter]
    exact Register.insert_isWithin (within asked) found
  · rw [Ledger.kept_enter_of_ne same]
    exact within asked

theorem Within.enter (within : Within ledger other) :
    Within (ledger.enter quantity number value) (other.enter quantity number value) := by
  intro asked
  by_cases same : asked = quantity
  · subst same
    rw [Ledger.kept_enter, Ledger.kept_enter]
    exact Register.insert_isWithin_insert (within asked)
  · rw [Ledger.kept_enter_of_ne same, Ledger.kept_enter_of_ne same]
    exact within asked

theorem Supports.gives (supported : nest.Supports ledger quantity number value) {loop : Datum}
    {record : LoopRecord} (named : nest.entry loop = .ok (number, record)) :
    (nest.compute (nest.evaluateFrom ledger) quantity loop record).Gives value := by
  obtain ⟨first, found, firstNamed, given⟩ := supported
  cases entry_unique firstNamed named
  exact gives_compute_congr (record_eq_ok.mpr ⟨number, firstNamed⟩)
    (record_eq_ok.mpr ⟨number, named⟩) given

theorem Supports.unique {second : Value}
    (supported : nest.Supports ledger quantity number value)
    (otherSupported : nest.Supports ledger quantity number second) : value = second := by
  obtain ⟨loop, record, named, given⟩ := otherSupported
  exact (supported.gives named).unique given

/-- A lower bound that goes back to bounds known before it is the only one of its loop. -/
theorem HasLower.unique (plain : nest.resolver.emitter = .symbolic) {second : Value}
    (first : nest.HasLower number value) (again : nest.HasLower number second) :
    value = second := by
  induction first generalizing second with
  | @of known number value before supported ih =>
      obtain ⟨otherBefore, otherSupported⟩ := again
      rename_i otherKnown
      let merged : Ledger := { lowerBounds := known.lowerBounds ++ otherKnown.lowerBounds }
      have onFirst : Register.IsWithin known.lowerBounds merged.lowerBounds :=
        Register.isWithin_append_left _ _
      have onSecond : Register.IsWithin otherKnown.lowerBounds merged.lowerBounds :=
        Register.isWithin_append_right (fun loop value other found present =>
          ih loop value found (otherBefore loop other present))
      exact (supported.mono plain onFirst).unique (otherSupported.mono plain onSecond)

theorem isSound_of_nothing {ledger : Ledger} (nothing : ∀ quantity, ledger.kept quantity = []) :
    nest.IsSound ledger where
  grounded number value found := by
    have empty : ledger.lowerBounds = [] := nothing (.bound .initial)
    rw [empty] at found
    cases found
  supported quantity number value found := by
    rw [nothing quantity] at found
    cases found

/-- A supported value can be kept without losing another one. -/
theorem IsSound.within_enter (sound : nest.IsSound ledger)
    (supported : nest.Supports ledger quantity number value) :
    Within ledger (ledger.enter quantity number value) := by
  refine LoopNest.within_enter (fun other found => ?_)
  exact (sound.supported quantity number other found).unique supported

theorem IsSound.enter (plain : nest.resolver.emitter = .symbolic) (sound : nest.IsSound ledger)
    (supported : nest.Supports ledger quantity number value) :
    nest.IsSound (ledger.enter quantity number value) := by
  have lowers := sound.within_enter supported (.bound .initial)
  refine ⟨?_, ?_⟩
  · intro key entry found
    have present := @eq_or_find_of_find_enter _ _ _ _ (.bound .initial) key entry found
    rcases present with ⟨rfl, rfl, rfl⟩ | old
    · exact .of sound.grounded supported
    · exact sound.grounded key entry old
  · intro asked key entry found
    rcases eq_or_find_of_find_enter found with ⟨rfl, rfl, rfl⟩ | old
    · exact supported.mono plain lowers
    · exact (sound.supported asked key entry old).mono plain lowers

/-- Two sound ledgers are part of a third one. -/
theorem IsSound.merge (plain : nest.resolver.emitter = .symbolic) (sound : nest.IsSound ledger)
    (otherSound : nest.IsSound other) :
    ∃ merged, nest.IsSound merged ∧ Within ledger merged ∧ Within other merged := by
  let merged : Ledger :=
    { lowerBounds := ledger.lowerBounds ++ other.lowerBounds
      upperBounds := ledger.upperBounds ++ other.upperBounds
      iterationCounts := ledger.iterationCounts ++ other.iterationCounts }
  have kept (quantity : LoopQuantity) :
      merged.kept quantity = ledger.kept quantity ++ other.kept quantity := by
    rcases quantity with ⟨_ | _⟩ | _ <;> rfl
  have onFirst : Register.IsWithin ledger.lowerBounds merged.lowerBounds :=
    Register.isWithin_append_left _ _
  have onSecond : Register.IsWithin other.lowerBounds merged.lowerBounds :=
    Register.isWithin_append_right (fun loop value second found present =>
      (sound.grounded loop value found).unique plain (otherSound.grounded loop second present))
  have supportedFirst {quantity : LoopQuantity} {number : Int} {value : Value}
      (found : Register.find number (ledger.kept quantity) = some value) :
      nest.Supports merged quantity number value :=
    (sound.supported quantity number value found).mono plain onFirst
  have supportedSecond {quantity : LoopQuantity} {number : Int} {value : Value}
      (found : Register.find number (other.kept quantity) = some value) :
      nest.Supports merged quantity number value :=
    (otherSound.supported quantity number value found).mono plain onSecond
  refine ⟨merged, ⟨?_, ?_⟩, ?_, ?_⟩
  · intro number value found
    rw [Register.find_append] at found
    rcases Option.or_eq_some_iff.mp found with first | ⟨_, second⟩
    · exact sound.grounded number value first
    · exact otherSound.grounded number value second
  · intro quantity number value found
    rw [kept, Register.find_append] at found
    rcases Option.or_eq_some_iff.mp found with first | ⟨_, second⟩
    · exact supportedFirst first
    · exact supportedSecond second
  · intro quantity
    rw [kept]
    exact Register.isWithin_append_left _ _
  · intro quantity
    rw [kept]
    exact Register.isWithin_append_right (fun loop value second found present =>
      (supportedFirst found).unique (supportedSecond present))

end LoopNest

end KernelFootprint
