import KernelFootprint.Launch
import KernelFootprint.Value.Evaluation

/-!
# Resolution of terminals

A resolver values the terminals of a tree against one invocation. Values given
for a token take precedence over everything else. Constants stand for
themselves, block dimensions and arguments come from the invocation, and no
other node has a value. A forwarded argument is valued where it came from.
-/

namespace KernelFootprint

structure Resolver where
  invocation : Invocation
  emitter : Emitter
  /-- Values given for tokens. -/
  unknowns : List (Datum × Value)

namespace Resolver

/-- Follows forwarded values, at most `steps` of them. -/
def originOf (formal : String) : Nat → Binding → Except Fault Binding
  | steps + 1, .forwarded _ origin => originOf formal steps origin
  | 0, .forwarded _ _ => .error (Indeterminate.endlessOrigins formal)
  | _, binding => .ok binding

def maximalOrigins : Nat := 64

def valueOf : Binding → Except Fault Value
  | .constant value => .ok value
  | .runtime handle => .ok handle
  | .forwarded handle _ => .ok handle
  | .loopVariable name _ _ _ => .ok (.var name)
  | .stray value => .error (Misuse.notABinding value.className)

/-- The value of an argument that is named by a datum. -/
def resolveArgument (resolver : Resolver) (formal : Datum) : Except Fault Value := do
  match ← (Datum.findNumbered formal resolver.invocation.bindings).mapError Fault.misuse with
  | none =>
      throw (Indeterminate.unboundArgument formal.shown resolver.invocation.kernel.shown : Fault)
  | some binding => valueOf (← originOf formal.shown maximalOrigins binding)

/-- The value given for a token, which must be able to serve as a key. -/
def unknown? (resolver : Resolver) (text : Datum) : Except Fault (Option Value) :=
  if text.isKey then .ok (Register.find text resolver.unknowns) else .error Misuse.wrongType

def noValue (resolver : Resolver) (text : Datum) : Fault :=
  Indeterminate.noValue text.shown resolver.invocation.id.shown resolver.invocation.kernel.shown

/-- The value of a node from its own data, leaving out values given for its token. -/
def intrinsic (resolver : Resolver) (text : Datum) : Symbol → Except Fault Value
  | .terminal (.constant value) => .ok (.int value)
  | .terminal (.blockSize axis) => .ok (resolver.invocation.blockDim.along axis)
  | .terminal (.argument formal) => resolver.resolveArgument (.integer formal)
  | _ => .error (resolver.noValue text)

def resolve (resolver : Resolver) (text : Datum) (symbol : Symbol) : Except Fault Value := do
  match ← resolver.unknown? text with
  | some value => return value
  | none => resolver.intrinsic text symbol

/-- The initial value of a host loop variable; one without a value stays a variable. -/
def initialValue? (resolver : Resolver) (name : String) : Option Value :=
  (Register.find name resolver.invocation.initialValues).filter (fun value => !value.isNull)

/-- A deferred value with every host loop variable at its initial value, evaluated
if no variable remains. -/
def deferredAtIterationZero (resolver : Resolver) (value : Value) : Except Misuse Value := do
  let initial ← value.substitute resolver.initialValue?
  if ← initial.hasVariables then return initial
  return .int (← initial.evaluate (fun _ => none))

def atIterationZero (resolver : Resolver) (dimension : Value) : Except Fault Value :=
  if dimension.isInteger then .ok dimension
  else (resolver.deferredAtIterationZero dimension).mapError Fault.misuse

def gridDimAtIterationZero (resolver : Resolver) (axis : Axis) : Except Fault Value :=
  resolver.atIterationZero (resolver.invocation.gridDim.along axis)

end Resolver

end KernelFootprint
