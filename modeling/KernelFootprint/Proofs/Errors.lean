import KernelFootprint.Proofs.Quantity

/-!
# Errors of evaluations

What an analysis can fail with is read off the trees that it evaluates. Values that are
missing make a quantity indeterminate, and a loop without a value is incomputable. Only a
tree with a node that has no integer value is misshapen. Hence the bounds and the counts
of loops are misshapen only where such a tree is among the bounds or the steps of the
catalogued loops, and otherwise they are incomputable at most. Misuse is left open
throughout.
-/

namespace KernelFootprint

namespace AnalysisError

def IsIndeterminate (error : AnalysisError) : Prop := ∃ cause, error = .indeterminate cause

def IsMisshapen (error : AnalysisError) : Prop := ∃ cause, error = .misshapen cause

def IsIncomputable (error : AnalysisError) : Prop :=
  ∃ loop obstacle, error = .incomputable loop obstacle

end AnalysisError

/-- A fault that is misuse or an analysis error of the given kind. -/
def Fault.IsOf (raised : AnalysisError → Prop) : Fault → Prop
  | .analysis error => raised error
  | .misuse _ => True

variable {State First Second : Type} {returned : First → Prop} {goal : Second → Prop}
  {raised other : AnalysisError → Prop}

theorem Fault.IsOf.mono {fault : Fault} (kind : fault.IsOf raised)
    (weaker : ∀ error, raised error → other error) : fault.IsOf other := by
  cases fault with
  | analysis error => exact weaker error kind
  | misuse cause => trivial

/-- A text that cannot be quoted makes a misuse, so only what is quoted matters. -/
theorem Fault.isOf_quoting_bind {text : Except Misuse First}
    {quoted : First → Except Misuse AnalysisError}
    (kind : ∀ value, (Fault.quoting (quoted value)).IsOf raised) :
    (Fault.quoting (text >>= quoted)).IsOf raised := by
  cases text with
  | ok value => exact kind value
  | error cause => trivial

/-- A result of one kind, or a fault with errors of another. -/
def Fits (returned : First → Prop) (raised : AnalysisError → Prop) : Except Fault First → Prop
  | .ok result => returned result
  | .error fault => fault.IsOf raised

theorem fits_mapError_misuse (outcome : Except Misuse First) :
    Fits (fun _ => True) raised (outcome.mapError Fault.misuse) := by
  cases outcome <;> trivial

theorem Fits.mono {outcome : Except Fault First} (fits : Fits returned raised outcome)
    (errors : ∀ error, raised error → other error) : Fits returned other outcome := by
  cases outcome with
  | ok result => exact fits
  | error fault => exact Fault.IsOf.mono fits errors

theorem Fits.bind {outcome : Except Fault First} {next : First → Except Fault Second}
    (fits : Fits returned raised outcome)
    (onward : ∀ result, returned result → Fits goal raised (next result)) :
    Fits goal raised (outcome >>= next) := by
  cases outcome with
  | ok result => exact onward result fits
  | error fault => exact fits

/-- What a computation comes to, whatever the state before it. -/
def Ends (returned : First → Prop) (raised : AnalysisError → Prop)
    (computation : ExceptT Fault (StateM State) First) : Prop :=
  ∀ state, Fits returned raised (computation.run.run state).1

theorem ends_pure {value : First} (holds : returned value) :
    Ends returned raised (pure value : ExceptT Fault (StateM State) First) := fun _ => holds

theorem ends_throw {fault : Fault} (kind : fault.IsOf raised) :
    Ends returned raised (throw fault : ExceptT Fault (StateM State) First) := fun _ => kind

theorem ends_get :
    Ends (fun _ => True) raised (get : ExceptT Fault (StateM State) State) := fun _ => trivial

theorem ends_set (state : State) :
    Ends (fun _ => True) raised (set state : ExceptT Fault (StateM State) PUnit) :=
  fun _ => trivial

theorem ends_modify (change : State → State) :
    Ends (fun _ => True) raised (modify change : ExceptT Fault (StateM State) PUnit) :=
  fun _ => trivial

theorem Ends.mono {computation : ExceptT Fault (StateM State) First}
    (ends : Ends returned raised computation)
    (errors : ∀ error, raised error → other error) : Ends returned other computation :=
  fun state => (ends state).mono errors

theorem Ends.bind {first : ExceptT Fault (StateM State) First}
    {next : First → ExceptT Fault (StateM State) Second} (onFirst : Ends returned raised first)
    (onNext : ∀ value, returned value → Ends goal raised (next value)) :
    Ends goal raised (first >>= next) := by
  intro state
  have fits := onFirst state
  rw [ExceptT.run_bind, StateT.run_bind]
  change Fits goal raised (match first.run.run state with | (outcome, after) => _ : _ × _).1
  rcases found : first.run.run state with ⟨outcome, after⟩
  rw [found] at fits
  cases outcome with
  | ok value => exact onNext value fits after
  | error fault => exact fits

namespace Analysis

theorem ends_fail {fault : Fault} (kind : fault.IsOf raised) :
    Ends returned raised (fail fault : Analysis First) := ends_throw kind

theorem ends_ofExcept {outcome : Except Fault First} (fits : Fits returned raised outcome) :
    Ends returned raised (ofExcept outcome) := by
  intro ledger
  change Fits returned raised ((ofExcept outcome).outcome ledger).1
  rw [outcome_ofExcept]
  exact fits

theorem ends_lift {analysis : Analysis First} (ends : Ends returned raised analysis) :
    Ends (Fits returned raised) other
      (ExceptT.lift analysis.run : Analysis (Except Fault First)) := ends

theorem ends_adapt {analysis : Analysis First} {change : Fault → Fault}
    (ends : Ends returned raised analysis)
    (changed : ∀ fault, fault.IsOf raised → (change fault).IsOf other) :
    Ends returned other (ExceptT.adapt change analysis : Analysis First) := by
  intro ledger
  have fits := ends ledger
  change Fits returned other (((analysis.outcome ledger).1).mapError change)
  cases found : (analysis.outcome ledger).1 with
  | ok result =>
      rw [show (analysis.run.run ledger).1 = .ok result from found] at fits
      exact fits
  | error fault =>
      rw [show (analysis.run.run ledger).1 = .error fault from found] at fits
      exact changed fault fits

theorem ends_tryCatch {analysis : Analysis First} {handler : Fault → Analysis First}
    (ends : Ends returned raised analysis)
    (handled : ∀ fault, fault.IsOf raised → Ends returned other (handler fault)) :
    Ends returned other (tryCatch analysis handler) := by
  intro ledger
  have fits := ends ledger
  change Fits returned other (Analysis.outcome (tryCatch analysis handler) ledger).1
  change Fits returned raised (analysis.outcome ledger).1 at fits
  rw [outcome_tryCatch]
  rcases found : analysis.outcome ledger with ⟨fault | result, after⟩
  · rw [found] at fits
    exact handled fault fits after
  · rw [found] at fits
    exact fits

end Analysis

open Analysis

theorem WordOp.isOf_shiftFault (width : Width) (amount : Except Misuse String) :
    (shiftFault width amount).IsOf AnalysisError.IsIndeterminate :=
  Fault.isOf_quoting_bind (fun _ => ⟨_, rfl⟩)

theorem WordOp.isOf_divisionFault (dividend : Except Misuse String) :
    (divisionFault dividend).IsOf AnalysisError.IsIndeterminate :=
  Fault.isOf_quoting_bind (fun _ => ⟨_, rfl⟩)

theorem WordOp.fits_fold (op : WordOp) (first second : Int) :
    Fits (fun _ => True) AnalysisError.IsIndeterminate (op.fold .wide first second) := by
  have exact : Fits (fun _ => True) AnalysisError.IsIndeterminate
      (op.exact .wide first second) := by
    cases op with
    | shl | lshr =>
        simp only [WordOp.exact]
        split
        · trivial
        · exact isOf_shiftFault .wide _
    | sdiv | srem =>
        simp only [WordOp.exact]
        split
        · exact isOf_divisionFault _
        · trivial
    | udiv =>
        simp only [WordOp.exact]
        split
        · exact isOf_divisionFault _
        · split <;> trivial
    | _ => trivial
  rw [fold]
  cases computed : op.exact .wide first second with
  | ok value => trivial
  | error fault =>
      rw [computed] at exact
      exact exact

namespace Emitter

/-- The emitter never answers with an analysis error. -/
def IsReliable (emitter : Emitter) : Prop :=
  ∀ before request error, emitter.respond before request ≠ .error (.analysis error)

theorem isReliable_symbolic : symbolic.IsReliable := by
  intro before request error answered
  cases request with
  | constant width value =>
      cases converted : value.toInteger with
      | ok number => simp [symbolic, converted, Except.map, Except.mapError] at answered
      | error cause => simp [symbolic, converted, Except.map, Except.mapError] at answered
  | operation op first second => cases answered

variable {emitter : Emitter}

theorem ends_emit (reliable : emitter.IsReliable) (request : Request) :
    Ends (fun _ => True) raised (emitter.emit request) := by
  intro ledger
  change Fits _ raised ((emitter.emit request).outcome ledger).1
  rw [outcome_emit]
  cases answered : emitter.respond ledger.requests request with
  | ok value => trivial
  | error fault =>
      cases fault with
      | analysis error => exact absurd answered (reliable _ _ _)
      | misuse cause => trivial

theorem ends_lift (reliable : emitter.IsReliable) (value : Value) :
    Ends (fun _ => True) raised (emitter.lift value) := by
  cases value with
  | int number => exact ends_emit reliable _
  | _ => exact ends_pure trivial

/-- Operations fail only as they do on known integers. -/
theorem ends_combine_of_fold (reliable : emitter.IsReliable) {op : WordOp}
    (folds : ∀ first second, Fits (fun _ => True) raised (op.fold .wide first second))
    (first second : Value) : Ends (fun _ => True) raised (emitter.combine op first second) := by
  have requested (first second : Value) : Ends (fun _ => True) raised (do
      let first ← emitter.lift first
      let second ← emitter.lift second
      emitter.emit (.operation op first second) : Analysis Value) := by
    refine (ends_lift reliable first).bind (fun first _ => ?_)
    refine (ends_lift reliable second).bind (fun second _ => ?_)
    exact ends_emit reliable _
  cases first with
  | int first =>
      cases second with
      | int second =>
          rw [combine_int]
          refine ends_ofExcept ?_
          have fits := folds first second
          cases folded : op.fold .wide first second with
          | ok value => trivial
          | error fault =>
              rw [folded] at fits
              exact fits
      | _ => exact requested _ _
  | _ => exact requested _ _

theorem ends_combine (reliable : emitter.IsReliable)
    (indeterminate : ∀ error, error.IsIndeterminate → raised error) (op : WordOp)
    (first second : Value) : Ends (fun _ => True) raised (emitter.combine op first second) :=
  ends_combine_of_fold reliable
    (fun first second => (op.fits_fold first second).mono indeterminate)
    first second

/-- A product always exists. -/
theorem ends_combine_mul (reliable : emitter.IsReliable) (first second : Value) :
    Ends (fun _ => True) raised (emitter.combine .mul first second) :=
  ends_combine_of_fold reliable
    (fun first second => (rfl : WordOp.fold .mul .wide first second = .ok _) ▸ trivial)
    first second

end Emitter

namespace BinaryTree

/-- All operations of a tree compute integers, and all its leaves can have a value. -/
def IsArithmetic : BinaryTree → Prop
  | .leaf _ (.terminal _) => True
  | .leaf _ (.structural _) => False
  | .branch _ operation left right =>
      (operation = .phi ∨ operation.wordOp?.isSome) ∧ left.IsArithmetic ∧ right.IsArithmetic

/-- What two trees are combined to is arithmetic, with an exception that holds for either. -/
theorem isArithmetic_combine_or {left right : BinaryTree} {operation : Operation}
    {exception : Prop} (computes : operation.wordOp?.isSome = true)
    (onLeft : left.IsArithmetic ∨ exception) (onRight : right.IsArithmetic ∨ exception) :
    (combine operation left right).IsArithmetic ∨ exception := by
  rcases onLeft with onLeft | holds
  · exact onRight.imp_left (fun onRight => ⟨.inr computes, onLeft, onRight⟩)
  · exact .inr holds

/-- An operand that has a value, unless misshapen trees are allowed for. -/
def Operand.IsSound (raised : AnalysisError → Prop) : Operand → Prop
  | .known _ => True
  | .irreducible _ => ∀ cause, raised (.misshapen cause)

variable {valuation : Valuation} {operation : Operation}

theorem Operand.IsSound.ends_asOperandOf {operand : Operand} (sound : operand.IsSound raised)
    (text : String) : Ends (fun _ => True) raised (operand.asOperandOf text) := by
  cases operand with
  | known value => exact ends_pure trivial
  | irreducible leaf => exact ends_fail (sound _)

theorem Operand.IsSound.ends_asResult {operand : Operand} (sound : operand.IsSound raised) :
    Ends (fun _ => True) raised operand.asResult := by
  cases operand with
  | known value => exact ends_pure trivial
  | irreducible leaf => exact ends_fail (sound _)

theorem ends_apply
    (merges : ∀ text first second,
      Ends (fun _ => True) raised (valuation.merge text first second))
    (combines : ∀ op first second,
      Ends (fun _ => True) raised (valuation.emitter.combine op first second))
    (computes : (operation = .phi ∨ operation.wordOp?.isSome) ∨ ∀ cause, raised (.misshapen cause))
    (text : String) (first second : Value) :
    Ends (fun _ => True) raised (valuation.apply text operation first second) := by
  unfold Valuation.apply
  split
  · exact merges text first second
  · next different =>
      split
      · exact combines _ first second
      · next none =>
          rcases computes with (phi | some) | misshapen
          · exact absurd phi different
          · rw [none] at some
            cases some
          · exact ends_fail (misshapen _)

/-- Only trees that are not arithmetic are misshapen. -/
theorem ends_evaluateWith
    (terminals : ∀ text node, Ends (fun _ => True) raised (valuation.terminal text node))
    (merges : ∀ text first second,
      Ends (fun _ => True) raised (valuation.merge text first second))
    (combines : ∀ op first second,
      Ends (fun _ => True) raised (valuation.emitter.combine op first second))
    {tree : BinaryTree} (shape : tree.IsArithmetic ∨ ∀ cause, raised (.misshapen cause)) :
    Ends (fun _ => True) raised (tree.evaluateWith valuation) := by
  have reduced : Ends (Operand.IsSound raised) raised (tree.operand valuation) := by
    induction tree with
    | leaf text symbol =>
        cases symbol with
        | terminal node => exact (terminals text node).bind (fun _ _ => ends_pure trivial)
        | structural node => exact ends_pure (shape.resolve_left id)
    | branch text operation left right leftIH rightIH =>
        rw [operand]
        refine (leftIH (shape.imp_left (·.2.1))).bind (fun first firstSound => ?_)
        refine (rightIH (shape.imp_left (·.2.2))).bind (fun second secondSound => ?_)
        refine (firstSound.ends_asOperandOf text).bind (fun first _ => ?_)
        refine (secondSound.ends_asOperandOf text).bind (fun second _ => ?_)
        refine (ends_apply merges combines (shape.imp_left (·.1)) text first second).bind ?_
        exact fun _ _ => ends_pure trivial
  exact reduced.bind (fun _ sound => sound.ends_asResult)

end BinaryTree

namespace Resolver

variable {resolver : Resolver}

theorem fits_unknown? (text : Datum) :
    Fits (fun _ => True) raised (resolver.unknown? text) := by
  rw [unknown?]
  split <;> trivial

theorem fits_originOf (formal : String) (steps : Nat) (binding : Binding) :
    Fits (fun _ => True) AnalysisError.IsIndeterminate (originOf formal steps binding) := by
  induction steps generalizing binding with
  | zero => cases binding <;> first | trivial | exact ⟨_, rfl⟩
  | succ steps ih =>
      cases binding with
      | forwarded handle origin => exact ih origin
      | _ => trivial

theorem fits_valueOf (binding : Binding) :
    Fits (fun _ => True) raised (valueOf binding) := by
  cases binding <;> trivial

theorem fits_resolveArgument (formal : Datum) :
    Fits (fun _ => True) AnalysisError.IsIndeterminate (resolver.resolveArgument formal) := by
  refine (fits_mapError_misuse _).bind (fun found _ => ?_)
  cases found with
  | none => exact ⟨_, rfl⟩
  | some binding =>
      exact (fits_originOf _ _ binding).bind (fun origin _ => fits_valueOf origin)

/-- A symbol that does not resolve has no value. -/
theorem fits_resolve (text : Datum) (symbol : Symbol) :
    Fits (fun _ => True) AnalysisError.IsIndeterminate (resolver.resolve text symbol) := by
  refine (fits_unknown? text).bind (fun given _ => ?_)
  cases given with
  | some value => trivial
  | none =>
      change Fits _ _ (resolver.intrinsic text symbol)
      unfold intrinsic
      split
      · trivial
      · trivial
      · exact fits_resolveArgument _
      · exact ⟨_, rfl⟩

theorem fits_gridDimAtIterationZero (axis : Axis) :
    Fits (fun _ => True) raised (resolver.gridDimAtIterationZero axis) := by
  rw [gridDimAtIterationZero, atIterationZero]
  split
  · trivial
  · exact fits_mapError_misuse _

end Resolver

namespace RangeContext

variable {context : RangeContext}

theorem ends_lastIndex (reliable : context.emitter.IsReliable)
    (indeterminate : ∀ error, error.IsIndeterminate → raised error)
    {dimension : Unit → Except Fault Value} (sized : Fits (fun _ => True) raised (dimension ())) :
    Ends (fun _ => True) raised (context.lastIndex dimension) := by
  unfold lastIndex
  split
  · exact ends_pure trivial
  · exact (ends_ofExcept sized).bind
      (fun _ _ => Emitter.ends_combine reliable indeterminate _ _ _)

/-- A terminal without a value is indeterminate, unless it leads to the bound of a loop. -/
theorem ends_terminal (reliable : context.emitter.IsReliable)
    (indeterminate : ∀ error, error.IsIndeterminate → raised error)
    (bounds : ∀ scope, context.phis = some scope →
      ∀ loop, Ends (fun _ => True) raised (scope.bound loop)) (text : Datum) (node : Terminal) :
    Ends (fun _ => True) raised (context.terminal text node) := by
  refine (ends_ofExcept (Resolver.fits_unknown? text)).bind (fun given _ => ?_)
  cases given with
  | some value => exact ends_pure trivial
  | none =>
      have resolved :=
        (@Resolver.fits_resolve context.resolver text (.terminal node)).mono indeterminate
      cases node with
      | thread axis => exact ends_lastIndex reliable indeterminate trivial
      | block axis =>
          exact ends_lastIndex reliable indeterminate
            (Resolver.fits_gridDimAtIterationZero axis)
      | phiTerm id =>
          change Ends _ raised (context.phiTerm text id)
          rw [phiTerm]
          split
          · exact ends_pure trivial
          · split
            · next scope found => exact bounds scope found _
            · exact ends_fail (Fault.isOf_quoting_bind (fun _ => indeterminate _ ⟨_, rfl⟩))
      | incomplete => exact ends_fail (indeterminate _ ⟨_, rfl⟩)
      | _ => exact ends_ofExcept resolved

theorem ends_ofBinary (reliable : context.emitter.IsReliable)
    (indeterminate : ∀ error, error.IsIndeterminate → raised error)
    (bounds : ∀ scope, context.phis = some scope →
      ∀ loop, Ends (fun _ => True) raised (scope.bound loop)) {tree : BinaryTree}
    (shape : tree.IsArithmetic ∨ ∀ cause, raised (.misshapen cause)) :
    Ends (fun _ => True) raised (context.ofBinary tree) :=
  BinaryTree.ends_evaluateWith (ends_terminal reliable indeterminate bounds)
    (fun _ => Emitter.ends_combine reliable indeterminate _)
    (Emitter.ends_combine reliable indeterminate) shape

end RangeContext

/-- A bound or a step of a loop that was built without being arithmetic. -/
def LoopRecord.IsDistorted (record : LoopRecord) : Prop :=
  ∃ tree, (record.initial = some tree ∨ record.final = some tree ∨ record.step = some tree) ∧
    tree.isSentinel = false ∧ ¬ tree.IsArithmetic

namespace LoopNest

variable {nest : LoopNest} {record : LoopRecord}

/-- A catalogued loop with a distorted bound or step. -/
def IsDistorted (nest : LoopNest) : Prop := ∃ entry ∈ nest.kernel.loops, entry.2.IsDistorted

/-- An error that the quantities of loops have: a loop is incomputable, or else a distorted
loop is misshapen. -/
def HasError (nest : LoopNest) (error : AnalysisError) : Prop :=
  error.IsIncomputable ∨ nest.IsDistorted ∧ error.IsMisshapen

theorem hasError_incomputable (loop : Except Misuse String)
    (obstacle : Except Misuse LoopObstacle) : (incomputable loop obstacle).IsOf nest.HasError :=
  Fault.isOf_quoting_bind (fun _ => Fault.isOf_quoting_bind (fun _ => .inl ⟨_, _, rfl⟩))

theorem hasError_obstructed (obstacle : LoopObstacle) :
    (obstructed record obstacle).IsOf nest.HasError := hasError_incomputable _ _

theorem fits_entry (loop : Datum) :
    Fits (fun entry => entry ∈ nest.kernel.loops) nest.HasError (nest.entry loop) := by
  cases named : nest.entry loop with
  | ok entry => exact (mem_loops_of_entry named).1
  | error fault =>
      rw [entry] at named
      split at named
      · cases named
      · cases named
        exact hasError_incomputable _ _
      · cases named
        trivial

theorem fits_record (loop : Datum) :
    Fits (fun record => ∃ number, (number, record) ∈ nest.kernel.loops) nest.HasError
      (nest.record loop) := by
  have fits := @fits_entry nest loop
  rw [LoopNest.record]
  cases named : nest.entry loop with
  | ok entry =>
      rw [named] at fits
      exact ⟨entry.1, fits⟩
  | error fault =>
      rw [named] at fits
      exact fits

theorem fits_boundTree (which : Bound) :
    Fits (fun tree => tree.IsArithmetic ∨ record.IsDistorted) nest.HasError
      (boundTree record which) := by
  have checked (tree : BinaryTree) (among : record.initial = some tree ∨
      record.final = some tree ∨ record.step = some tree) :
      Fits (fun tree => tree.IsArithmetic ∨ record.IsDistorted) nest.HasError
        (if tree.isSentinel then .error (obstructed record (.boundNotAnalyzable which))
          else .ok tree) := by
    cases sentinel : tree.isSentinel with
    | true => exact hasError_obstructed _
    | false =>
        by_cases shaped : tree.IsArithmetic
        · exact .inl shaped
        · exact .inr ⟨tree, among, sentinel, shaped⟩
  cases which with
  | initial =>
      rw [boundTree]
      cases found : record.initial with
      | none => exact hasError_obstructed _
      | some tree => exact checked tree (.inl found)
  | final =>
      rw [boundTree]
      cases found : record.final with
      | none => exact hasError_obstructed _
      | some tree => exact checked tree (.inr (.inl found))

/-- The tree of a count is arithmetic if those of the bounds and of the step are. -/
theorem fits_iterationTree (loop : Datum) :
    Fits (fun tree => tree.IsArithmetic ∨ nest.IsDistorted) nest.HasError
      (nest.iterationTree loop) := by
  refine (fits_record loop).bind ?_
  rintro record ⟨number, member⟩
  refine (fits_boundTree .initial).bind (fun initial onInitial => ?_)
  refine (fits_boundTree .final).bind (fun final onFinal => ?_)
  have distorted (isDistorted : record.IsDistorted) : nest.IsDistorted :=
    ⟨(number, record), member, isDistorted⟩
  have distance : (BinaryTree.combine .sub final initial).IsArithmetic ∨ nest.IsDistorted :=
    BinaryTree.isArithmetic_combine_or rfl (onFinal.imp_right distorted)
      (onInitial.imp_right distorted)
  cases step : record.step with
  | none => exact BinaryTree.isArithmetic_combine_or rfl distance (.inl trivial)
  | some tree =>
      dsimp only
      cases sentinel : tree.isSentinel with
      | true => exact hasError_incomputable _ _
      | false =>
          refine BinaryTree.isArithmetic_combine_or rfl distance ?_
          by_cases shaped : tree.IsArithmetic
          · exact .inl shaped
          · exact .inr (distorted ⟨tree, .inr (.inr step), sentinel, shaped⟩)

theorem ends_whileActive (loop : Int) {evaluation : Analysis Value}
    (ends : Ends (fun _ => True) raised evaluation) :
    Ends (fun _ => True) raised (whileActive loop evaluation) := by
  refine (ends_modify _).bind (fun _ _ => ?_)
  refine (ends_lift ends).bind (fun outcome fits => ?_)
  exact (ends_modify _).bind (fun _ _ => ends_ofExcept fits)

/-- A bound without a value makes its loop incomputable. -/
theorem ends_evaluateBound (reliable : nest.resolver.emitter.IsReliable)
    {lowerBound : Datum → Analysis Value}
    (bounds : ∀ loop, Ends (fun _ => True) nest.HasError (lowerBound loop)) (record : LoopRecord)
    (quantity : LoopQuantity) {tree : BinaryTree} (shape : tree.IsArithmetic ∨ nest.IsDistorted) :
    Ends (fun _ => True) nest.HasError
      (nest.evaluateBound lowerBound record quantity tree) := by
  refine ends_get.bind (fun ledger _ => ?_)
  split
  · exact ends_fail (hasError_obstructed _)
  · have evaluated : Ends (fun _ => True) (fun error => error.IsIndeterminate ∨ nest.HasError error)
        ((nest.boundContext lowerBound record).ofBinary tree) := by
      refine @RangeContext.ends_ofBinary _ (nest.boundContext lowerBound record) reliable
        (fun _ => .inl) ?_ tree
        (shape.imp_right (fun distorted cause => .inr (.inr ⟨distorted, cause, rfl⟩)))
      intro scope found loop
      cases found
      exact (bounds loop).mono (fun _ => .inr)
    refine ends_adapt (ends_whileActive record.id evaluated) ?_
    rintro (error | cause) kind
    · rcases kind with ⟨cause, rfl⟩ | has
      · exact hasError_obstructed _
      · cases error with
        | indeterminate cause => exact hasError_obstructed _
        | _ => exact has
    · trivial

theorem ends_remember (kept : Ledger → List (Int × Value))
    (keep : List (Int × Value) → Ledger → Ledger) (loop : Int) {compute : Analysis Value}
    (ends : Ends (fun _ => True) raised compute) :
    Ends (fun _ => True) raised (remember kept keep loop compute) := by
  refine ends_get.bind (fun ledger _ => ?_)
  split
  · exact ends_pure trivial
  · refine ends.bind (fun value _ => ?_)
    exact (ends_modify _).bind (fun _ _ => ends_pure trivial)

theorem ends_compute {evaluate : BoundEvaluation}
    (evaluated : ∀ record quantity tree, tree.IsArithmetic ∨ nest.IsDistorted →
      Ends (fun _ => True) nest.HasError (evaluate record quantity tree))
    {number : Int} (catalogued : (number, record) ∈ nest.kernel.loops) (quantity : LoopQuantity)
    (loop : Datum) :
    Ends (fun _ => True) nest.HasError (nest.compute evaluate quantity loop record) := by
  cases quantity with
  | bound which =>
      refine (ends_ofExcept (fits_boundTree which)).bind (fun tree shape => ?_)
      exact evaluated record _ tree (shape.imp_right (fun distorted => ⟨_, catalogued, distorted⟩))
  | iterationCount =>
      simp only [compute]
      split
      · refine (ends_ofExcept (fits_iterationTree loop)).bind (fun tree shape => ?_)
        exact (evaluated record _ tree shape).bind (fun _ _ => ends_pure trivial)
      · exact (ends_ofExcept (fits_mapError_misuse _)).bind (fun _ _ => ends_pure trivial)

theorem ends_ask {evaluate : BoundEvaluation}
    (evaluated : ∀ record quantity tree, tree.IsArithmetic ∨ nest.IsDistorted →
      Ends (fun _ => True) nest.HasError (evaluate record quantity tree))
    (quantity : LoopQuantity) (loop : Datum) :
    Ends (fun _ => True) nest.HasError (nest.ask evaluate quantity loop) := by
  refine (ends_ofExcept (fits_entry loop)).bind ?_
  rintro ⟨number, record⟩ catalogued
  exact ends_remember _ _ number (ends_compute evaluated catalogued quantity loop)

theorem ends_lowerBoundWithin (reliable : nest.resolver.emitter.IsReliable) (budget : Nat)
    (loop : Datum) : Ends (fun _ => True) nest.HasError (nest.lowerBoundWithin budget loop) := by
  induction budget generalizing loop with
  | zero => exact ends_fail trivial
  | succ budget ih =>
      rw [lowerBoundWithin_succ]
      exact ends_ask (fun record quantity _ shape =>
        ends_evaluateBound reliable ih record quantity shape) _ loop

theorem ends_iterationCount (reliable : nest.resolver.emitter.IsReliable) (loop : Datum) :
    Ends (fun _ => True) nest.HasError (nest.iterationCount loop) := by
  rw [iterationCount_eq]
  exact ends_ask (fun record quantity _ shape =>
    ends_evaluateBound reliable (ends_lowerBoundWithin reliable _) record quantity shape) _ loop

theorem ends_nestedIterationCount (reliable : nest.resolver.emitter.IsReliable) (loop : Datum) :
    Ends (fun _ => True) nest.HasError (nest.nestedIterationCount loop) := by
  have walked (steps : Nat) (seen : List Datum) (current : Datum) (total : Value) :
      Ends (fun _ => True) nest.HasError (nest.nestedFrom loop steps seen current total) := by
    induction steps generalizing seen current total with
    | zero => exact ends_fail trivial
    | succ steps ih =>
        rw [nestedFrom]
        split
        · exact ends_pure trivial
        split
        · exact ends_fail (hasError_incomputable _ _)
        refine (ends_iterationCount reliable current).bind (fun count _ => ?_)
        refine (Emitter.ends_combine_mul reliable _ _).bind (fun total _ => ?_)
        exact (ends_ofExcept (fits_record current)).bind (fun record _ => ih _ _ _)
  exact walked _ _ _ _

/-- Counting all loops fails only if a distorted loop is misshapen. -/
theorem ends_iterationCounts (reliable : nest.resolver.emitter.IsReliable) :
    Ends (fun _ => True) (fun error => nest.IsDistorted ∧ error.IsMisshapen)
      nest.iterationCounts := by
  rw [iterationCounts]
  induction Register.sort (fun first second => decide (first ≤ second))
      (nest.kernel.loops.map Prod.fst) with
  | nil => exact ends_pure trivial
  | cons loop rest ih =>
      have counted : Ends (fun _ => True) (fun error => nest.IsDistorted ∧ error.IsMisshapen)
          (nest.countIfComputable loop) := by
        refine ends_tryCatch ((ends_iterationCount reliable _).bind
          (fun _ _ => ends_pure trivial)) ?_
        intro fault kind
        split
        · exact ends_pure trivial
        · next computable =>
            refine ends_throw ?_
            rcases fault with error | cause
            · rcases kind with ⟨_, _, rfl⟩ | has
              · exact absurd rfl computable
              · exact has
            · trivial
      have entered : Ends (fun _ => True) (fun error => nest.IsDistorted ∧ error.IsMisshapen)
          (do return (loop, ← nest.countIfComputable loop)) :=
        counted.bind (fun _ _ => ends_pure trivial)
      rw [List.mapM_cons]
      refine entered.bind (fun entry _ => ?_)
      exact ih.bind (fun _ _ => ends_pure trivial)

end LoopNest

end KernelFootprint
