import KernelFootprint.Proofs.SideBySide

/-!
# What evaluating a bound leaves alone

Evaluating an address adds to the requests. Evaluating the bounds of a loop also keeps
the lower bounds of other loops and marks loops as active for a while. Every other part
of the ledger is the same afterwards, whether the evaluation fails or not.
-/

namespace KernelFootprint

namespace Analysis

variable {First Second : Type} {related : Ledger → Ledger → Prop}

/-- A relation that every ledger has with itself and with what requests make of it, and
that holds over several steps if it holds over each. -/
structure IsPassage (related : Ledger → Ledger → Prop) : Prop where
  refl : ∀ ledger, related ledger ledger
  trans : ∀ {before middle after}, related before middle → related middle after →
    related before after
  requests : ∀ ledger requests, related ledger { ledger with requests := requests }

/-- A relation that evaluating bounds of loops has no effect on. -/
structure IsApart (related : Ledger → Ledger → Prop) : Prop extends IsPassage related where
  lowerBounds : ∀ ledger bounds, related ledger { ledger with lowerBounds := bounds }
  active : ∀ ledger active, related ledger { ledger with active := active }

/-- An analysis that keeps a relation to the ledger before it, whether it fails or not. -/
def Keeps (related : Ledger → Ledger → Prop) (analysis : Analysis First) : Prop :=
  ∀ ledger, related ledger (analysis.outcome ledger).2

theorem keeps_pure (passage : IsPassage related) (value : First) :
    Keeps related (pure value : Analysis First) := passage.refl

theorem keeps_fail (passage : IsPassage related) (fault : Fault) :
    Keeps related (fail fault : Analysis First) := passage.refl

theorem keeps_ofExcept (passage : IsPassage related) (outcome : Except Fault First) :
    Keeps related (ofExcept outcome) := by
  intro ledger
  rw [outcome_ofExcept]
  exact passage.refl ledger

theorem Keeps.bind (passage : IsPassage related) {first : Analysis First}
    {next : First → Analysis Second} (onFirst : Keeps related first)
    (onNext : ∀ value, Keeps related (next value)) : Keeps related (first >>= next) := by
  intro ledger
  have before := onFirst ledger
  rw [outcome_bind]
  rcases found : first.outcome ledger with ⟨fault | value, middle⟩
  · rw [found] at before
    exact before
  · rw [found] at before
    exact passage.trans before (onNext value middle)

theorem keeps_mapM (passage : IsPassage related) {analyses : List (Analysis First)}
    (each : ∀ analysis ∈ analyses, Keeps related analysis) :
    Keeps related (analyses.mapM id) := by
  induction analyses with
  | nil => exact keeps_pure passage _
  | cons first rest ih =>
      rw [List.mapM_cons]
      refine Keeps.bind passage (each first (List.mem_cons_self ..)) ?_
      intro value
      refine Keeps.bind passage
        (ih (fun analysis member => each analysis (List.mem_cons_of_mem _ member))) ?_
      intro values
      exact keeps_pure passage _

theorem keeps_get (passage : IsPassage related) :
    Keeps related (get : Analysis Ledger) := passage.refl

theorem keeps_modify {change : Ledger → Ledger}
    (changed : ∀ ledger, related ledger (change ledger)) :
    Keeps related (modify change : Analysis PUnit) := changed

theorem outcome_adapt (change : Fault → Fault) (analysis : Analysis First) (ledger : Ledger) :
    Analysis.outcome (ExceptT.adapt change analysis) ledger =
      ((analysis.outcome ledger).1.mapError change, (analysis.outcome ledger).2) := rfl

theorem Keeps.adapt {analysis : Analysis First} (kept : Keeps related analysis)
    (change : Fault → Fault) :
    Keeps related (ExceptT.adapt change analysis : Analysis First) := by
  intro ledger
  rw [outcome_adapt]
  exact kept ledger

theorem Keeps.tryCatch (passage : IsPassage related) {analysis : Analysis First}
    (kept : Keeps related analysis) {handler : Fault → Analysis First}
    (handled : ∀ fault, Keeps related (handler fault)) :
    Keeps related (MonadExcept.tryCatch analysis handler) := by
  intro ledger
  have before := kept ledger
  rw [outcome_tryCatch]
  rcases found : analysis.outcome ledger with ⟨fault | value, after⟩
  · rw [found] at before
    exact passage.trans before (handled fault after)
  · rw [found] at before
    exact before

theorem Keeps.lift {analysis : Analysis First} (kept : Keeps related analysis) :
    Keeps related (ExceptT.lift analysis.run : Analysis (Except Fault First)) := kept

end Analysis

open Analysis

variable {related : Ledger → Ledger → Prop}

namespace Emitter

theorem keeps_emit (passage : IsPassage related) (emitter : Emitter) (request : Request) :
    Keeps related (emitter.emit request) := by
  intro ledger
  rw [outcome_emit]
  cases emitter.respond ledger.requests request with
  | ok value => exact passage.requests ledger _
  | error fault => exact passage.refl ledger

theorem isExtensible_keeps (passage : IsPassage related) (emitter : Emitter) :
    IsExtensible emitter (fun _ analysis _ => Keeps related analysis) where
  value := keeps_pure passage
  fault := keeps_fail passage
  request := keeps_emit passage emitter
  sequence := Keeps.bind passage

/-- Combining values adds to the requests at most. -/
theorem keeps_combine (passage : IsPassage related) (emitter : Emitter) (op : WordOp)
    (first second : Value) : Keeps related (emitter.combine op first second) :=
  (isExtensible_keeps passage emitter).combine op first second

theorem keeps_combineAll (passage : IsPassage related) (emitter : Emitter) (op : WordOp)
    (values : List Value) : Keeps related (emitter.combineAll op values) := by
  cases values with
  | nil => exact keeps_fail passage _
  | cons first rest =>
      change Keeps related (rest.foldlM (emitter.combine op) first)
      induction rest generalizing first with
      | nil => exact keeps_pure passage first
      | cons second rest ih =>
          rw [List.foldlM_cons]
          exact Keeps.bind passage (keeps_combine passage emitter op first second) ih

end Emitter

namespace LoopNest

variable {nest : LoopNest}

theorem keeps_whileActive (apart : IsApart related) (loop : Int) {evaluation : Analysis Value}
    (kept : Keeps related evaluation) : Keeps related (whileActive loop evaluation) := by
  have passage := apart.toIsPassage
  refine Keeps.bind passage (keeps_modify (fun ledger => apart.active ledger _)) ?_
  intro _
  refine Keeps.bind passage kept.lift ?_
  intro outcome
  refine Keeps.bind passage (keeps_modify (fun ledger => apart.active ledger _)) ?_
  intro _
  exact keeps_ofExcept passage outcome

theorem keeps_boundContext (passage : IsPassage related) {lowerBound : Datum → Analysis Value}
    (bounds : ∀ loop, Keeps related (lowerBound loop)) (record : LoopRecord)
    (tree : BinaryTree) :
    Keeps related ((nest.boundContext lowerBound record).ofBinary tree) :=
  -- Keeping a relation is a relation that ignores its second analysis.
  @related_boundContext nest _ (Emitter.isExtensible_keeps passage _) lowerBound lowerBound bounds
    record tree

theorem keeps_evaluateBound (apart : IsApart related) {lowerBound : Datum → Analysis Value}
    (bounds : ∀ loop, Keeps related (lowerBound loop)) (record : LoopRecord)
    (quantity : LoopQuantity) (tree : BinaryTree) :
    Keeps related (nest.evaluateBound lowerBound record quantity tree) := by
  refine Keeps.bind apart.toIsPassage (keeps_get apart.toIsPassage) ?_
  intro current
  split
  · exact keeps_fail apart.toIsPassage _
  · exact Keeps.adapt (keeps_whileActive apart record.id
      (keeps_boundContext apart.toIsPassage bounds record tree)) _

theorem keeps_rememberLower (apart : IsApart related) (loop : Int) {compute : Analysis Value}
    (kept : Keeps related compute) : Keeps related (rememberLower loop compute) := by
  have passage := apart.toIsPassage
  refine Keeps.bind passage (keeps_get passage) ?_
  intro current
  split
  · exact keeps_pure passage _
  · refine Keeps.bind passage kept ?_
    intro value
    refine Keeps.bind passage (keeps_modify (fun ledger => apart.lowerBounds ledger _)) ?_
    intro _
    exact keeps_pure passage _

/-- A lower bound changes requests and lower bounds, and no other part of the ledger. -/
theorem keeps_lowerBoundWithin (apart : IsApart related) (budget : Nat) (loop : Datum) :
    Keeps related (nest.lowerBoundWithin budget loop) := by
  have passage := apart.toIsPassage
  induction budget generalizing loop with
  | zero => exact keeps_fail passage _
  | succ budget ih =>
      rw [lowerBoundWithin]
      refine Keeps.bind passage (keeps_ofExcept passage _) ?_
      rintro ⟨number, record⟩
      refine keeps_rememberLower apart number ?_
      refine Keeps.bind passage (keeps_ofExcept passage _) ?_
      intro tree
      exact keeps_evaluateBound apart ih record _ tree

theorem keeps_lowerBound (apart : IsApart related) (loop : Datum) :
    Keeps related (nest.lowerBound loop) := keeps_lowerBoundWithin apart _ loop

end LoopNest

end KernelFootprint
