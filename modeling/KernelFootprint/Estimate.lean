import KernelFootprint.Address.Stride
import KernelFootprint.Estimate.Sink
import KernelFootprint.Loop.Nest
import KernelFootprint.Warning

/-!
# Estimation of an invocation

All accesses of the launched kernel are estimated in ascending order, after the
iteration counts of its loops. An access without an analyzable expression, or
inside an incomputable loop, gets a flag and no quantities. Otherwise every
quantity is computed by itself: an analysis error in one of them is recorded on
the access and leaves the others alone. In strict mode an error about the shape
of a tree ends the estimation.
-/

namespace KernelFootprint

/-- What an estimation leaves behind, also when it fails. -/
structure Progress where
  ledger : Ledger := {}
  warnings : List Warning := []
  sink : Sink

abbrev Estimation := ExceptT Fault (StateM Progress)

namespace Estimation

variable {Result : Type}

/-- Runs an analysis on the ledger and returns its outcome. -/
def attempt (analysis : Analysis Result) : Estimation (Except Fault Result) := do
  let progress ← get
  let (outcome, ledger) := analysis.outcome progress.ledger
  set { progress with ledger := ledger }
  return outcome

def ofExcept (outcome : Except Fault Result) : Estimation Result :=
  match outcome with
  | .ok result => pure result
  | .error fault => throw fault

def ofAnalysis (analysis : Analysis Result) : Estimation Result := do
  ofExcept (← attempt analysis)

/-- Runs an analysis and returns its result or its analysis error; misuse fails. -/
def attemptAnalysis (analysis : Analysis Result) : Estimation (Except AnalysisError Result) := do
  match ← attempt analysis with
  | .ok result => return .ok result
  | .error (.analysis error) => return .error error
  | .error fault => throw fault

def warn (patterns : Datum) (kernel id text : String) (category : WarningCategory) :
    Estimation Unit := do
  let issued := Warning.issue? patterns (.text kernel) (.text id) (.text text) category
  match ← ofExcept (issued.mapError Fault.misuse) with
  | some warning =>
      modify (fun progress => { progress with warnings := progress.warnings ++ [warning] })
  | none => return ()

def deliver (delivery : Delivery) : Estimation Unit := do
  let progress ← get
  let sink ← ofExcept (progress.sink.receive delivery)
  set { progress with sink := sink }

end Estimation

namespace AddressTree

/-- An address that involves more than one load reads a pointer from memory. -/
def isIndirect (tree : AddressTree) : Bool := 1 < tree.table.count (.structural .load)

/-- An address without address computation is a single location. -/
def isTrivial (tree : AddressTree) : Bool := !tree.table.contains (.structural .gep)

/-- The flag and the reason of a tree that was not built. -/
def obstacle? (tree : AddressTree) (what : String) : Option (Flag × String) :=
  if tree.isPointerChase then some (.pointerChase, what ++ " exceeds the size bound")
  else if tree.isIncomplete then some (.incomplete, what ++ " is incomplete")
  else none

end AddressTree

structure Estimator where
  nest : LoopNest
  threads : Value

namespace Estimator

variable (estimator : Estimator)

def resolver : Resolver := estimator.nest.resolver

def emitter : Emitter := estimator.resolver.emitter

def settings : Settings := estimator.nest.settings

def warn (access : AccessRecord) (id text : String) (category : WarningCategory) :
    Estimation Unit :=
  Estimation.warn estimator.settings.silencedWarnings estimator.nest.kernel.name.shown id
    ("access " ++ toString access.id ++ ": " ++ text) category

/-- The error text of a quantity that could not be computed. -/
def recordFailure (access : AccessRecord) (what : String) (error : AnalysisError) :
    Estimation String := do
  let text := what ++ ": " ++ error.message
  match error with
  | .misshapen _ =>
      if estimator.settings.strict.holds then throw (Fault.analysis error)
      estimator.warn access "shape_error" text .shapeError
  | _ => pure ()
  return text

def strideValuation : Stride.Valuation BinaryTree where
  emitter := estimator.emitter
  value site := estimator.resolver.evaluate site.tree

def hostLoopStride (places : List (Place BinaryTree)) (formals : List Int) : Analysis Value :=
  formals.foldlM
    (fun total formal => do
      let stride ← Stride.along estimator.strideValuation places .argument (.integer formal)
      estimator.emitter.combine .add total stride) 0

/-- The sensitivities to compute: the host loop counts only if an argument is bound to one. -/
def sensitivityAxes (expression : BinaryTree) : List (SensitivityAxis × Analysis Value) :=
  let places := expression.places
  let valuation := estimator.strideValuation
  let formals := estimator.resolver.invocation.hostLoops.map Prod.fst
  [(.blockX, Stride.along valuation places (.block .x) .null),
    (.blockY, Stride.along valuation places (.block .y) .null),
    (.loop, Stride.alongLoops valuation places)] ++
    if formals.isEmpty then [] else [(.hostLoop, estimator.hostLoopStride places formals)]

/-- The sensitivities along all axes and the errors of those that are missing. -/
def sensitivities (access : AccessRecord) :
    List (SensitivityAxis × Analysis Value) →
      Estimation (List (SensitivityAxis × Value) × List String)
  | [] => return ([], [])
  | (axis, compute) :: rest => do
      match ← Estimation.attemptAnalysis compute with
      | .ok value =>
          let (values, errors) ← sensitivities access rest
          return ((axis, value.promote .wide) :: values, errors)
      | .error error =>
          let text ← estimator.recordFailure access (axis.name ++ " sensitivity") error
          let (values, errors) ← sensitivities access rest
          return (values, text :: errors)

/-- The working set of a tree that was built, or the flag and the error that explain
why there is none. -/
def workingSet (access : AccessRecord) (tree : AddressTree) :
    Estimation (Option Value × List Flag × List String) := do
  if tree.isIndirect then return (none, [.indirect], [])
  if tree.isTrivial then return (some 1, [], [])
  match ← Estimation.attemptAnalysis
      (workingSetSize estimator.resolver (some estimator.nest.view)
        (.integer access.loop) tree) with
  | .ok value => return (some (value.promote .wide), [], [])
  | .error (.incomputable loop obstacle) =>
      let error := AnalysisError.incomputable loop obstacle
      return (none, [.incomputable], ["working set: " ++ error.message])
  | .error error => return (none, [], [← estimator.recordFailure access "working set" error])

def addressTree (access : AccessRecord) (expression : BinaryTree) : AddressTree :=
  match access.tree with
  | some tree => .nary tree
  | none => .binary expression

def key (access : AccessRecord) : AccessKey where
  access := access.id
  allocation := estimator.resolver.invocation.allocationFor (.integer access.allocationArg)
  invocation := estimator.resolver.invocation.id

/-- The expression to analyse, or the flag and the reason for having none. -/
def analyzable (access : AccessRecord) : Except (Flag × String) BinaryTree :=
  match access.expression with
  | none =>
      .error (.incomputable,
        if access.buildErrors.isEmpty then "no address expression"
        else "; ".intercalate access.buildErrors)
  | some expression =>
      match (AddressTree.binary expression).obstacle? "address expression" with
      | some obstacle => .error obstacle
      | none => .ok expression

/-- Adds a reason unless it is among the errors already. -/
def withReason (errors : List String) (reason : String) : List String :=
  if errors.contains reason then errors else errors ++ [reason]

/-- The quantities of an access with an expression inside computable loops. -/
def quantities (access : AccessRecord) (expression : BinaryTree) (nested : Value) :
    Estimation Estimate := do
  let executionCount ← Estimation.ofAnalysis
    (estimator.emitter.combine .mul (estimator.threads.promote .wide) (nested.promote .wide))
  let (sensitivities, errors) ←
    estimator.sensitivities access (estimator.sensitivityAxes expression)
  let tree := addressTree access expression
  let (workingSet, flags, remarks) ←
    match tree.obstacle? "address tree" with
    | some (flag, reason) => pure (none, [flag], [reason])
    | none => estimator.workingSet access tree
  return { key := estimator.key access
           loop := access.loop
           executionCount := some executionCount
           workingSet := workingSet
           sensitivities := sensitivities
           flags := flags
           errors := access.buildErrors ++ errors ++ remarks }

def estimate (access : AccessRecord) : Estimation Estimate := do
  let key := estimator.key access
  match analyzable access with
  | .error (flag, reason) =>
      return { key := key, loop := access.loop, flags := [flag]
               errors := withReason access.buildErrors reason }
  | .ok expression =>
      match ← Estimation.attempt (estimator.nest.nestedIterationCount (.integer access.loop)) with
      | .ok nested => estimator.quantities access expression nested
      | .error (.analysis (.incomputable loop obstacle)) =>
          let text := (AnalysisError.incomputable loop obstacle).message
          estimator.warn access "incomputable_loop" text .incomputableAccess
          return { key := key, loop := access.loop, flags := [.incomputable]
                   errors := access.buildErrors ++ [text] }
      | .error fault => throw fault

/-- Estimates accesses one by one and reports each to the sink once it is complete. -/
def estimateAll : List AccessRecord → List Estimate → Estimation (List Estimate)
  | [], estimates => return estimates
  | access :: rest, estimates => do
      let estimate ← estimator.estimate access
      if estimate.key.isKey then
        estimate.deliveries.forM Estimation.deliver
        estimateAll rest (EstimateMap.insertIn estimate estimates)
      else throw (Misuse.wrongType : Fault)

end Estimator

def deliverIterations (invocation : Datum) : List (Int × Option Value) → Estimation Unit
  | [] => return ()
  | (loop, some count) :: rest => do
      Estimation.deliver (.loopIterations invocation loop count)
      deliverIterations invocation rest
  | (_, none) :: rest => deliverIterations invocation rest

/-- The estimates of all accesses of the launched kernel, none if it is not catalogued. -/
def estimateInvocation (catalogue : Catalogue) (settings : Settings) (resolver : Resolver) :
    Estimation EstimateMap := do
  match ← Estimation.ofExcept
      ((catalogue.find? resolver.invocation.kernel).mapError Fault.misuse) with
  | none => return {}
  | some kernel =>
      let nest : LoopNest := ⟨kernel, resolver, settings⟩
      let iterations ← Estimation.ofAnalysis nest.iterationCounts
      deliverIterations resolver.invocation.id iterations
      let threads ← Estimation.ofAnalysis
        (resolver.invocation.countThreads resolver.emitter)
      let accesses := Register.sort (fun first second => first.1 ≤ second.1) kernel.accesses
      let estimates ← Estimator.estimateAll ⟨nest, threads⟩ (accesses.map Prod.snd) []
      return { estimates := estimates, loopIterations := iterations }

end KernelFootprint
