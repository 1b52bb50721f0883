import KernelFootprint.Proofs.Nesting
import KernelFootprint.Proofs.Support

/-!
# Calls with a history

Kept values save evaluations, and they let evaluations succeed that would otherwise
come back to a loop underway, but they never change a value. What a call comes to can
be told afterwards, by looking up in a ledger that keeps at least as much as the call
has left behind. Hence calls with two histories agree, as there is a ledger
that keeps what both of them have left behind. And a call that succeeds in one ledger
succeeds in every ledger that keeps more, because it never comes across anything that
is kept there and that it would not have computed itself.
-/

namespace KernelFootprint

open Analysis

namespace LoopNest

variable {nest : LoopNest} {final ledger other : Ledger} {Result : Type}

theorem within_of_same (same : ∀ quantity, other.kept quantity = ledger.kept quantity) :
    Within ledger other := by
  intro quantity
  rw [same]
  exact Register.isWithin_refl _

theorem Within.trans {last : Ledger} (first : Within ledger other) (second : Within other last) :
    Within ledger last :=
  fun quantity => (first quantity).trans (second quantity)

theorem IsSound.of_same (plain : nest.resolver.emitter = .symbolic) (sound : nest.IsSound ledger)
    (same : ∀ quantity, other.kept quantity = ledger.kept quantity) : nest.IsSound other := by
  have within := within_of_same same
  have lower : other.lowerBounds = ledger.lowerBounds := same (.bound .initial)
  refine ⟨?_, ?_⟩
  · intro number value found
    rw [lower] at found
    exact sound.grounded number value found
  · intro quantity number value found
    rw [same] at found
    exact (sound.supported quantity number value found).mono plain
      (within (.bound .initial))

theorem kept_active (ledger : Ledger) (active : List Int) (quantity : LoopQuantity) :
    ({ ledger with active := active } : Ledger).kept quantity = ledger.kept quantity := by
  rcases quantity with ⟨_ | _⟩ | _ <;> rfl

theorem kept_requests (ledger : Ledger) (requests : List Request) (quantity : LoopQuantity) :
    ({ ledger with requests := requests } : Ledger).kept quantity = ledger.kept quantity := by
  rcases quantity with ⟨_ | _⟩ | _ <;> rfl

/-- An outcome in a sound ledger that is repeated by looking up in a final ledger. It
adds nothing to the final ledger if the lookups succeed and the final ledger has
everything that was there before. -/
structure IsTrace (nest : LoopNest) (final ledger : Ledger)
    (outcome : Except Fault Result × Ledger) (again : Analysis Result) : Prop where
  sound : nest.IsSound outcome.2
  grown : Within ledger outcome.2
  active : outcome.2.active = ledger.active
  gives : ∀ value, outcome.1 = .ok value → Within outcome.2 final → again.Gives value
  stays : Within ledger final → ∀ value, again.Gives value → Within outcome.2 final

/-- The first analysis can be repeated by the second one. -/
def Tracks (nest : LoopNest) (final : Ledger) (Result : Type)
    (first again : Analysis Result) : Prop :=
  again.IsSteady ∧ ∀ ledger, nest.IsSound ledger →
    nest.IsTrace final ledger (first.outcome ledger) again

/-- A trace on which nothing is kept or marked. -/
theorem isTrace_of_same (plain : nest.resolver.emitter = .symbolic) (sound : nest.IsSound ledger)
    {outcome : Except Fault Result × Ledger} {again : Analysis Result}
    (same : ∀ quantity, outcome.2.kept quantity = ledger.kept quantity)
    (active : outcome.2.active = ledger.active)
    (gives : ∀ value, outcome.1 = .ok value → again.Gives value) :
    nest.IsTrace final ledger outcome again where
  sound := sound.of_same plain same
  grown := within_of_same same
  active := active
  gives value succeeded _ := gives value succeeded
  stays before _ _ := (within_of_same (fun quantity => (same quantity).symm)).trans before

theorem isExtensible_tracks (plain : nest.resolver.emitter = .symbolic) (final : Ledger) :
    IsExtensible .symbolic (nest.Tracks final) where
  value value := by
    refine ⟨isExtensible_steady.value value, fun ledger sound => ?_⟩
    refine isTrace_of_same plain sound (fun _ => rfl) rfl ?_
    intro result succeeded
    cases succeeded
    exact fun _ => rfl
  fault fault := by
    refine ⟨isExtensible_steady.fault fault, fun ledger sound => ?_⟩
    exact isTrace_of_same plain sound (fun _ => rfl) rfl nofun
  request request := by
    have steady := isExtensible_steady.request request
    refine ⟨steady, fun ledger sound => ?_⟩
    refine isTrace_of_same plain sound ?_ ?_ (fun value succeeded => steady.gives succeeded)
    · intro quantity
      rw [Emitter.outcome_emit]
      cases Emitter.symbolic.respond ledger.requests request with
      | ok value => exact kept_requests ledger _ quantity
      | error fault => rfl
    · rw [Emitter.outcome_emit]
      cases Emitter.symbolic.respond ledger.requests request <;> rfl
  sequence := by
    intro First Second first again next nextAgain onFirst onNext
    refine ⟨onFirst.1.bind (fun value => (onNext value).1), fun ledger sound => ?_⟩
    have trace := onFirst.2 ledger sound
    rw [outcome_bind]
    rcases found : first.outcome ledger with ⟨fault | value, middle⟩
    · rw [found] at trace
      refine ⟨trace.sound, trace.grown, trace.active, nofun, ?_⟩
      intro before result given
      obtain ⟨value, onwards, _⟩ := given.of_bind onFirst.1 (fun value => (onNext value).1)
      exact trace.stays before value onwards
    · rw [found] at trace
      have rest := (onNext value).2 middle trace.sound
      refine ⟨rest.sound, trace.grown.trans rest.grown, rest.active.trans trace.active, ?_, ?_⟩
      · intro result succeeded after
        exact (trace.gives value rfl (rest.grown.trans after)).bind
          (rest.gives result succeeded after)
      · intro before result given
        obtain ⟨again, onwards, last⟩ := given.of_bind onFirst.1 (fun value => (onNext value).1)
        have between := trace.stays before again onwards
        cases (trace.gives value rfl between).unique onwards
        exact rest.stays between result last

theorem tracks_adapt {first again : Analysis Result}
    (tracked : nest.Tracks final Result first again) (change : Fault → Fault) :
    nest.Tracks final Result (ExceptT.adapt change first) (ExceptT.adapt change again) := by
  refine ⟨tracked.1.adapt change, fun ledger sound => ?_⟩
  have trace := tracked.2 ledger sound
  rw [outcome_adapt]
  refine ⟨trace.sound, trace.grown, trace.active, ?_, ?_⟩
  · intro value succeeded after
    refine gives_adapt.mpr (trace.gives value ?_ after)
    cases outcome : (first.outcome ledger).1 with
    | ok result =>
        rw [outcome] at succeeded
        exact succeeded
    | error fault =>
        rw [outcome] at succeeded
        cases succeeded
  · intro before value given
    exact trace.stays before value (gives_adapt.mp given)

theorem tracks_whileActive (plain : nest.resolver.emitter = .symbolic) (loop : Int)
    {first again : Analysis Value} (tracked : nest.Tracks final Value first again) :
    nest.Tracks final Value (whileActive loop first) again := by
  refine ⟨tracked.1, fun ledger sound => ?_⟩
  have trace := tracked.2 { ledger with active := loop :: ledger.active }
    (sound.of_same plain (kept_active ledger _))
  rcases found : first.outcome { ledger with active := loop :: ledger.active } with
    ⟨outcome, middle⟩
  rw [found] at trace
  have same := kept_active middle (middle.active.erase loop)
  rw [outcome_whileActive found]
  refine ⟨trace.sound.of_same plain same, ?_, ?_, ?_, ?_⟩
  · exact ((within_of_same (kept_active ledger _)).trans trace.grown).trans (within_of_same same)
  · change middle.active.erase loop = ledger.active
    rw [trace.active, List.erase_cons_head]
  · intro value succeeded after
    exact trace.gives value succeeded ((within_of_same same).trans after)
  · intro before value given quantity
    rw [same]
    refine trace.stays (fun asked => ?_) value given quantity
    rw [kept_active]
    exact before asked

theorem tracks_evaluateBound (plain : nest.resolver.emitter = .symbolic)
    {lowerBound : Datum → Analysis Value} (bounds : ∀ loop,
      nest.Tracks final Value (lowerBound loop) (nest.lookUp final (.bound .initial) loop))
    (record : LoopRecord) (quantity : LoopQuantity) (tree : BinaryTree) :
    nest.Tracks final Value (nest.evaluateBound lowerBound record quantity tree)
      (nest.evaluateFrom final record quantity tree) := by
  have extensible : IsExtensible nest.resolver.emitter (nest.Tracks final) :=
    plain ▸ isExtensible_tracks plain final
  have tracked := tracks_adapt (tracks_whileActive plain record.id
    (related_boundContext extensible bounds record tree)) (asObstacle record quantity)
  refine ⟨tracked.1, fun ledger sound => ?_⟩
  rw [evaluateBound_eq, outcome_unlessActive]
  split
  · exact isTrace_of_same plain sound (fun _ => rfl) rfl nofun
  · exact tracked.2 ledger sound

/-- What can be looked up is also computed from the ledger that it is looked up in. -/
theorem IsSound.of_lookUp (sound : nest.IsSound ledger) {quantity : LoopQuantity} {loop : Datum}
    {number : Int} {record : LoopRecord} (named : nest.entry loop = .ok (number, record))
    {value : Value} (given : (nest.lookUp ledger quantity loop).Gives value) :
    Register.find number (ledger.kept quantity) = some value ∧
      (nest.compute (nest.evaluateFrom ledger) quantity loop record).Gives value := by
  obtain ⟨_, _, otherNamed, found⟩ := gives_lookUp.mp given
  cases named.symm.trans otherNamed
  exact ⟨found, (sound.supported quantity number value found).gives named⟩

/-- A computation whose value is kept afterwards is repeated by looking the value up. -/
theorem IsTrace.enter (plain : nest.resolver.emitter = .symbolic) (finalSound : nest.IsSound final)
    {quantity : LoopQuantity} {loop : Datum} {number : Int} {record : LoopRecord}
    (named : nest.entry loop = .ok (number, record)) {value : Value} {middle : Ledger}
    (trace : nest.IsTrace final ledger (.ok value, middle)
      (nest.compute (nest.evaluateFrom final) quantity loop record))
    (supported : nest.Supports middle quantity number value) :
    nest.IsTrace final ledger (.ok value, middle.enter quantity number value)
      (nest.lookUp final quantity loop) where
  sound := trace.sound.enter plain supported
  grown := trace.grown.trans (trace.sound.within_enter supported)
  active := Ledger.active_enter.trans trace.active
  gives := by
    intro result succeeded after
    cases succeeded
    refine gives_lookUp.mpr ⟨number, record, named, after quantity number value ?_⟩
    rw [Ledger.kept_enter, Register.find_insert_self]
  stays := by
    intro before result given
    obtain ⟨present, again⟩ := finalSound.of_lookUp named given
    have between := trace.stays before result again
    cases (trace.gives value rfl between).unique again
    exact between.enter_left present

/-- Asking for a quantity is repeated by looking it up. -/
theorem tracks_ask (plain : nest.resolver.emitter = .symbolic) {evaluate : BoundEvaluation}
    (evaluated : ∀ final, nest.IsSound final → ∀ record quantity tree,
      nest.Tracks final Value (evaluate record quantity tree)
        (nest.evaluateFrom final record quantity tree))
    (finalSound : nest.IsSound final) (quantity : LoopQuantity) (loop : Datum) :
    nest.Tracks final Value (nest.ask evaluate quantity loop)
      (nest.lookUp final quantity loop) := by
  refine ⟨isSteady_lookUp nest final quantity loop, fun ledger sound => ?_⟩
  rcases named : nest.entry loop with fault | ⟨number, record⟩
  · rw [ask_of_error named]
    exact isTrace_of_same plain sound (fun _ => rfl) rfl nofun
  cases kept : Register.find number (ledger.kept quantity) with
  | some old =>
      rw [outcome_ask_kept named kept]
      refine ⟨sound, within_of_same (fun _ => rfl), rfl, ?_, fun before _ _ => before⟩
      intro value succeeded after
      cases succeeded
      exact gives_lookUp.mpr ⟨number, record, named, after quantity number old kept⟩
  | none =>
      have tracked (final : Ledger) (finalSound : nest.IsSound final) :
          nest.Tracks final Value (nest.compute evaluate quantity loop record)
            (nest.compute (nest.evaluateFrom final) quantity loop record) :=
        related_compute (plain ▸ isExtensible_tracks plain final)
          (evaluated final finalSound record) quantity loop
      have trace := (tracked final finalSound).2 ledger sound
      rw [outcome_ask_missing named kept]
      rcases found : (nest.compute evaluate quantity loop record).outcome ledger with
        ⟨fault | value, middle⟩
      · rw [found] at trace
        refine ⟨trace.sound, trace.grown, trace.active, nofun, ?_⟩
        intro before value given
        exact trace.stays before value (finalSound.of_lookUp named given).2
      · rw [found] at trace
        -- The ledger after the computation serves as the final one of its own trace.
        have own := (tracked middle trace.sound).2 ledger sound
        rw [found] at own
        have given := own.gives value rfl (within_of_same (fun _ => rfl))
        exact trace.enter plain finalSound named ⟨loop, record, named, given⟩

theorem tracks_lowerBoundWithin (plain : nest.resolver.emitter = .symbolic) (budget : Nat) :
    ∀ final, nest.IsSound final → ∀ loop, nest.Tracks final Value
      (nest.lowerBoundWithin budget loop) (nest.lookUp final (.bound .initial) loop) := by
  induction budget with
  | zero =>
      intro final _ loop
      refine ⟨isSteady_lookUp nest final _ loop, fun ledger sound => ?_⟩
      exact isTrace_of_same plain sound (fun _ => rfl) rfl nofun
  | succ budget ih =>
      intro final finalSound loop
      rw [lowerBoundWithin_succ]
      exact tracks_ask plain (fun other sound record quantity tree =>
        tracks_evaluateBound plain (ih other sound) record quantity tree) finalSound _ loop

theorem tracks_evaluation (plain : nest.resolver.emitter = .symbolic) (budget : Nat)
    (final : Ledger) (finalSound : nest.IsSound final) (record : LoopRecord)
    (quantity : LoopQuantity) (tree : BinaryTree) :
    nest.Tracks final Value
      (nest.evaluateBound (nest.lowerBoundWithin budget) record quantity tree)
      (nest.evaluateFrom final record quantity tree) :=
  tracks_evaluateBound plain (tracks_lowerBoundWithin plain budget final finalSound)
    record quantity tree

end LoopNest

/-- A call that looks up what the ledger keeps. -/
def LoopCall.lookUp (nest : LoopNest) (ledger : Ledger) : LoopCall → Analysis Value
  | .lowerBound loop => nest.lookUp ledger (.bound .initial) loop
  | .upperBound loop => nest.lookUp ledger (.bound .final) loop
  | .iterationCount loop => nest.lookUp ledger .iterationCount loop
  | .nestedIterationCount loop =>
      nest.nestedBy (fail Misuse.unfinished) (nest.lookUp ledger .iterationCount) loop
        (nest.kernel.loops.length + 1) [] loop 1

namespace LoopNest

variable {nest : LoopNest} {final ledger other : Ledger} {Result : Type}

/-- A call is repeated by looking up. -/
theorem tracks_call (plain : nest.resolver.emitter = .symbolic) (finalSound : nest.IsSound final)
    (call : LoopCall) : nest.Tracks final Value (call.run nest) (call.lookUp nest final) := by
  have asked (budget : Nat) (quantity : LoopQuantity) (loop : Datum) :
      nest.Tracks final Value
        (nest.ask (nest.evaluateBound (nest.lowerBoundWithin budget)) quantity loop)
        (nest.lookUp final quantity loop) :=
    tracks_ask plain (tracks_evaluation plain budget) finalSound quantity loop
  cases call with
  | lowerBound loop =>
      rw [LoopCall.run, lowerBound_eq]
      exact asked _ _ loop
  | upperBound loop =>
      rw [LoopCall.run, upperBound_eq]
      exact asked _ _ loop
  | iterationCount loop =>
      rw [LoopCall.run, iterationCount_eq]
      exact asked _ _ loop
  | nestedIterationCount loop =>
      have extensible : IsExtensible nest.resolver.emitter (nest.Tracks final) :=
        plain ▸ isExtensible_tracks plain final
      rw [LoopCall.run, nestedIterationCount, nestedFrom_eq]
      exact related_nestedBy extensible (extensible.fault _) (fun current => asked _ _ current)
        loop _ [] loop 1

theorem keeps_isSound_iterationCounts (plain : nest.resolver.emitter = .symbolic) :
    Keeps (fun before after => nest.IsSound before → nest.IsSound after) nest.iterationCounts := by
  have passage : IsPassage (fun before after => nest.IsSound before → nest.IsSound after) := by
    refine ⟨fun _ sound => sound, fun first second sound => second (first sound), ?_⟩
    intro ledger requests sound
    exact sound.of_same plain (kept_requests ledger requests)
  refine keeps_iterationCounts passage (fun loop ledger sound => ?_)
  exact ((tracks_call plain sound (.iterationCount loop)).2 ledger sound).sound

theorem kept_fresh (requests : List Request) (quantity : LoopQuantity) :
    ({ requests := requests } : Ledger).kept quantity = [] := by
  rcases quantity with ⟨_ | _⟩ | _ <;> rfl

/-- In every ledger that calls lead to, the kept values are sound. -/
theorem Reachable.isSound (plain : nest.resolver.emitter = .symbolic)
    (reachable : nest.Reachable ledger) : nest.IsSound ledger := by
  induction reachable with
  | fresh requests => exact isSound_of_nothing (kept_fresh requests)
  | call call before sound => exact ((tracks_call plain sound call).2 _ sound).sound
  | counts before sound => exact keeps_isSound_iterationCounts plain _ sound

/-- Ledgers in which the same loops are active, the second of which may keep more. -/
structure AreAligned (nest : LoopNest) (ledger other : Ledger) : Prop where
  sound : nest.IsSound ledger
  otherSound : nest.IsSound other
  within : Within ledger other
  active : other.active = ledger.active

/-- Wherever the first analysis succeeds, the second one has the same value in any aligned
ledger, and leaves aligned ledgers. -/
def Follows (nest : LoopNest) (Result : Type) (first second : Analysis Result) : Prop :=
  ∀ ledger other, nest.AreAligned ledger other → ∀ value after,
    first.outcome ledger = (.ok value, after) →
      ∃ last, second.outcome other = (.ok value, last) ∧ nest.AreAligned after last

theorem isExtensible_follows (plain : nest.resolver.emitter = .symbolic) :
    IsExtensible .symbolic nest.Follows where
  value value ledger other aligned result after succeeded := by
    cases succeeded
    exact ⟨other, rfl, aligned⟩
  fault fault ledger other aligned := nofun
  request request ledger other aligned value after succeeded := by
    have respond (ledger : Ledger) : Emitter.symbolic.respond ledger.requests request =
        Emitter.symbolic.respond [] request := rfl
    rw [Emitter.outcome_emit, respond] at succeeded
    rw [Emitter.outcome_emit, respond]
    cases answered : Emitter.symbolic.respond [] request with
    | error fault =>
        rw [answered] at succeeded
        cases succeeded
    | ok answer =>
        rw [answered] at succeeded
        cases succeeded
        refine ⟨_, rfl, aligned.sound.of_same plain (kept_requests ledger _),
          aligned.otherSound.of_same plain (kept_requests other _), ?_, aligned.active⟩
        intro quantity
        rw [kept_requests ledger, kept_requests other]
        exact aligned.within quantity
  sequence := by
    intro First Second first again next nextAgain onFirst onNext ledger other aligned result after
      succeeded
    obtain ⟨value, middle, firstSucceeded, nextSucceeded⟩ := outcome_bind_eq_ok.mp succeeded
    obtain ⟨between, againSucceeded, onward⟩ := onFirst ledger other aligned value middle
      firstSucceeded
    obtain ⟨last, lastSucceeded, alignedLast⟩ := onNext value middle between onward result after
      nextSucceeded
    exact ⟨last, outcome_bind_eq_ok.mpr ⟨value, between, againSucceeded, lastSucceeded⟩,
      alignedLast⟩

theorem follows_adapt {first second : Analysis Value} (followed : nest.Follows Value first second)
    (change : Fault → Fault) :
    nest.Follows Value (ExceptT.adapt change first) (ExceptT.adapt change second) := by
  intro ledger other aligned value after succeeded
  rw [outcome_adapt] at succeeded
  rcases found : first.outcome ledger with ⟨fault | result, middle⟩
  · rw [found] at succeeded
    cases succeeded
  · rw [found] at succeeded
    cases succeeded
    obtain ⟨last, secondSucceeded, onward⟩ := followed ledger other aligned value _ found
    refine ⟨last, ?_, onward⟩
    rw [outcome_adapt, secondSucceeded]
    rfl

theorem AreAligned.mark (plain : nest.resolver.emitter = .symbolic)
    (aligned : nest.AreAligned ledger other) {active : List Int} :
    nest.AreAligned { ledger with active := active } { other with active := active } := by
  refine ⟨aligned.sound.of_same plain (kept_active ledger _),
    aligned.otherSound.of_same plain (kept_active other _), ?_, rfl⟩
  intro quantity
  rw [kept_active ledger, kept_active other]
  exact aligned.within quantity

theorem follows_whileActive (plain : nest.resolver.emitter = .symbolic) (loop : Int)
    {first second : Analysis Value} (followed : nest.Follows Value first second) :
    nest.Follows Value (whileActive loop first) (whileActive loop second) := by
  intro ledger other aligned value after succeeded
  rcases found : first.outcome { ledger with active := loop :: ledger.active } with
    ⟨outcome, middle⟩
  rw [outcome_whileActive found] at succeeded
  cases succeeded
  have marked : nest.AreAligned { ledger with active := loop :: ledger.active }
      { other with active := loop :: other.active } := by
    rw [aligned.active]
    exact aligned.mark plain
  obtain ⟨last, secondSucceeded, onward⟩ := followed _ _ marked value middle found
  refine ⟨_, outcome_whileActive secondSucceeded, ?_⟩
  rw [onward.active]
  exact onward.mark plain

theorem follows_evaluateBound (plain : nest.resolver.emitter = .symbolic)
    {lowerBound : Datum → Analysis Value}
    (bounds : ∀ loop, nest.Follows Value (lowerBound loop) (lowerBound loop))
    (record : LoopRecord) (quantity : LoopQuantity) (tree : BinaryTree) :
    nest.Follows Value (nest.evaluateBound lowerBound record quantity tree)
      (nest.evaluateBound lowerBound record quantity tree) := by
  have extensible : IsExtensible nest.resolver.emitter nest.Follows :=
    plain ▸ isExtensible_follows plain
  have followed := follows_adapt (follows_whileActive plain record.id
    (related_boundContext extensible bounds record tree)) (asObstacle record quantity)
  intro ledger other aligned value after succeeded
  rw [evaluateBound_eq, outcome_unlessActive] at succeeded
  rw [evaluateBound_eq, outcome_unlessActive, aligned.active]
  split at succeeded
  · cases succeeded
  · next unmarked =>
      rw [if_neg unmarked]
      exact followed ledger other aligned value after succeeded

/-- Asking for a quantity succeeds with the same value where more is kept. -/
theorem follows_ask (plain : nest.resolver.emitter = .symbolic) {evaluate : BoundEvaluation}
    (evaluated : ∀ final, nest.IsSound final → ∀ record quantity tree,
      nest.Tracks final Value (evaluate record quantity tree)
        (nest.evaluateFrom final record quantity tree))
    (followed : ∀ record quantity tree,
      nest.Follows Value (evaluate record quantity tree) (evaluate record quantity tree))
    (quantity : LoopQuantity) (loop : Datum) :
    nest.Follows Value (nest.ask evaluate quantity loop) (nest.ask evaluate quantity loop) := by
  intro ledger other aligned value after succeeded
  have tracked := tracks_ask plain evaluated aligned.otherSound quantity loop
  have trace := tracked.2 ledger aligned.sound
  rw [succeeded] at trace
  rcases named : nest.entry loop with fault | ⟨number, record⟩
  · rw [ask_of_error named] at succeeded
    cases succeeded
  cases present : Register.find number (other.kept quantity) with
  | some kept =>
      -- Everything that the first call keeps is kept by the other ledger already.
      have given : (nest.lookUp other quantity loop).Gives kept :=
        gives_lookUp.mpr ⟨number, record, named, present⟩
      have between := trace.stays aligned.within kept given
      cases (trace.gives value rfl between).unique given
      exact ⟨other, outcome_ask_kept named present, trace.sound, aligned.otherSound, between,
        aligned.active.trans trace.active.symm⟩
  | none =>
      have otherTrace := tracked.2 other aligned.otherSound
      rw [outcome_ask_missing named ((aligned.within quantity).find_eq_none present)] at succeeded
      rw [outcome_ask_missing named present] at otherTrace ⊢
      rcases found : (nest.compute evaluate quantity loop record).outcome ledger with
        ⟨fault | result, middle⟩
      · rw [found] at succeeded
        cases succeeded
      · rw [found] at succeeded
        cases succeeded
        obtain ⟨last, otherFound, onward⟩ := related_compute
          (plain ▸ isExtensible_follows plain) (followed record) quantity loop ledger other
          aligned value middle found
        rw [otherFound] at otherTrace ⊢
        refine ⟨_, rfl, trace.sound, otherTrace.sound, onward.within.enter, ?_⟩
        rw [Ledger.active_enter, Ledger.active_enter]
        exact onward.active

theorem follows_lowerBoundWithin (plain : nest.resolver.emitter = .symbolic) (budget : Nat)
    (loop : Datum) :
    nest.Follows Value (nest.lowerBoundWithin budget loop) (nest.lowerBoundWithin budget loop) := by
  induction budget generalizing loop with
  | zero => exact fun _ _ _ _ _ => nofun
  | succ budget ih =>
      rw [lowerBoundWithin_succ]
      exact follows_ask plain (tracks_evaluation plain budget)
        (follows_evaluateBound plain ih) _ loop

/-- A call succeeds with the same value where more is kept. -/
theorem follows_call (plain : nest.resolver.emitter = .symbolic) (call : LoopCall) :
    nest.Follows Value (call.run nest) (call.run nest) := by
  let count := nest.kernel.loops.length
  have asked (budget : Nat) (quantity : LoopQuantity) (loop : Datum) :
      nest.Follows Value
        (nest.ask (nest.evaluateBound (nest.lowerBoundWithin budget)) quantity loop)
        (nest.ask (nest.evaluateBound (nest.lowerBoundWithin budget)) quantity loop) :=
    follows_ask plain (tracks_evaluation plain budget)
      (follows_evaluateBound plain (follows_lowerBoundWithin plain budget)) quantity loop
  cases call with
  | lowerBound loop =>
      rw [LoopCall.run, lowerBound_eq]
      exact asked count _ loop
  | upperBound loop =>
      rw [LoopCall.run, upperBound_eq]
      exact asked (count + 1) _ loop
  | iterationCount loop =>
      rw [LoopCall.run, iterationCount_eq]
      exact asked (count + 1) _ loop
  | nestedIterationCount loop =>
      have extensible : IsExtensible nest.resolver.emitter nest.Follows :=
        plain ▸ isExtensible_follows plain
      rw [LoopCall.run, nestedIterationCount, nestedFrom_eq]
      exact related_nestedBy extensible (extensible.fault _) (asked (count + 1) .iterationCount)
        loop _ [] loop 1

/-- What a call comes to does not depend on the calls before it: a value that it has in a
fresh ledger it has in every ledger that calls lead to, and its values in two such ledgers
are equal. -/
theorem run_history (plain : nest.resolver.emitter = .symbolic) (call : LoopCall) :
    (∀ (requests : List Request) (value : Value),
      ((call.run nest).outcome { requests := requests }).1 = .ok value →
        ∀ ledger, nest.Reachable ledger → ((call.run nest).outcome ledger).1 = .ok value) ∧
      ∀ ledger other, nest.Reachable ledger → nest.Reachable other →
        ∀ value second, ((call.run nest).outcome ledger).1 = .ok value →
          ((call.run nest).outcome other).1 = .ok second → value = second := by
  constructor
  · intro requests value succeeded ledger reachable
    have aligned : nest.AreAligned { requests := requests } ledger := by
      refine ⟨isSound_of_nothing (kept_fresh requests), reachable.isSound plain, ?_,
        reachable.active_eq_nil⟩
      intro quantity
      rw [kept_fresh]
      exact Register.isWithin_nil _
    obtain ⟨last, followed, _⟩ :=
      follows_call plain call _ ledger aligned value _ (Prod.ext succeeded rfl)
    rw [followed]
  · intro ledger other reachable otherReachable value second succeeded otherSucceeded
    have sound := reachable.isSound plain
    have otherSound := otherReachable.isSound plain
    have after := ((tracks_call plain sound call).2 ledger sound).sound
    have otherAfter := ((tracks_call plain sound call).2 other otherSound).sound
    obtain ⟨merged, mergedSound, within, otherWithin⟩ := after.merge plain otherAfter
    have tracked := tracks_call plain mergedSound call
    exact ((tracked.2 ledger sound).gives value succeeded within).unique
      ((tracked.2 other otherSound).gives second otherSucceeded otherWithin)

/-- One loop, which ends eight after its own start. -/
def counting : LoopNest where
  kernel :=
    { name := .text "kernel"
      loops :=
        [(1, { kernel := .text "kernel", id := 1, parent := 0, initial := some (.constant 0)
               final := some (.branch "ADD" .add
                 (.leaf (.text "PHI") (.terminal (.phiTerm (some 0)))) (.constant 8))
               step := none, knownCount := .null, buildErrors := [] })]
      phiLoops := [(0, 1)] }
  resolver := .sample (.constant 128)
  settings := {}

/-- The upper bound comes back to its own loop unless the lower bound is known before. The
failure has no effect on later calls. -/
theorem run_history_counting :
    ((counting.upperBound (.integer 1)).outcome {}).1 =
        .error (AnalysisError.incomputable "1" (.dependsOnItself (.bound .initial))) ∧
      ((counting.lowerBound (.integer 1)).outcome
        ((counting.upperBound (.integer 1)).outcome {}).2).1 = .ok 0 ∧
      ∃ value, ((counting.upperBound (.integer 1)).outcome
        ((counting.iterationCount (.integer 1)).outcome
          ((counting.lowerBound (.integer 1)).outcome {}).2).2).1 = .ok value ∧ value = 8 := by
  have lower : counting.Reachable ((counting.lowerBound (.integer 1)).outcome {}).2 :=
    .call (.lowerBound (.integer 1)) (.fresh [])
  have upper : counting.Reachable ((counting.upperBound (.integer 1)).outcome {}).2 :=
    .call (.upperBound (.integer 1)) (.fresh [])
  have counted : counting.Reachable ((counting.iterationCount (.integer 1)).outcome
      ((counting.lowerBound (.integer 1)).outcome {}).2).2 :=
    .call (.iterationCount (.integer 1)) lower
  refine ⟨rfl, ?_, _, rfl, ?_⟩
  · exact (run_history rfl (.lowerBound (.integer 1))).1 [] 0 rfl _ upper
  · exact (run_history rfl (.upperBound (.integer 1))).2 _ _ counted lower _ 8 rfl rfl

end LoopNest

end KernelFootprint
