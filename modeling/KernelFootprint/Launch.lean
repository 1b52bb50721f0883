import KernelFootprint.Datum.Reading
import KernelFootprint.Emission
import KernelFootprint.Register
import KernelFootprint.Tree.Table

/-!
# Kernel launches

A launch gives a kernel its dimensions and binds its formal arguments to
constants, to values of the host program, or to the induction variable of a
host loop around the launch. An invocation is a launch with a number of its
own, which may be any datum; launches without one take the next number of an
allocator.
-/

namespace KernelFootprint

/-- A forwarded value remembers the binding it came from. A stray value stands
where a binding should be. -/
inductive Binding
  | constant (value : Value)
  | runtime (handle : Value)
  | forwarded (handle : Value) (origin : Binding)
  | loopVariable (name : String) (initial : Value) (final : Option Value) (step : Value)
  | stray (value : Value)

/-- Integers are constants, a bare name is a variable of the host program. -/
def Binding.ofValue : Value → Binding
  | .int value => .constant (.int value)
  | value => .runtime value.ofName

structure Dimensions where
  x : Value
  y : Value

namespace Dimensions

def along (dimensions : Dimensions) : Axis → Value
  | .x => dimensions.x
  | .y => dimensions.y

/-- The dimension with the given number, counted from the end if negative. -/
def at? (dimensions : Dimensions) (index : Int) : Except Fault Value :=
  match position? 2 index with
  | some 0 => .ok dimensions.x
  | some _ => .ok dimensions.y
  | none => .error Misuse.indexOutOfRange

def toList (dimensions : Dimensions) : List Value := [dimensions.x, dimensions.y]

end Dimensions

/-- Dimensions as they are given: a single extent or a list of them. -/
inductive Extent
  | single (value : Value)
  | several (values : List Value)

namespace Extent

def values : Extent → Except Fault (List Value)
  | .several values => .ok values
  | .single (.datum (.text name)) => .ok [.var name]
  | .single (.datum _) => .error Misuse.wrongType
  | .single value => .ok [value]

/-- A missing second dimension is one. -/
def dimensions (extent : Extent) : Except Fault Dimensions := do
  match (← extent.values).map Value.ofName with
  | [x] => return ⟨x, 1⟩
  | [x, y] => return ⟨x, y⟩
  | values => throw (Misuse.wrongDimensionCount values : Fault)

end Extent

structure Invocation where
  kernel : Datum
  id : Datum
  blockDim : Dimensions
  gridDim : Dimensions
  bindings : List (Int × Binding)
  allocations : List (Datum × Datum)

structure Launch where
  kernel : Datum
  id : Option Datum
  block : Extent
  grid : Extent
  arguments : List (Datum × Binding)
  allocations : List (Datum × Datum)

namespace Launch

def hasKeys {Entry : Type} (entries : List (Datum × Entry)) : Bool :=
  entries.all (fun entry => entry.1.isKey)

/-- Whether all formal arguments of a launch can serve as keys. -/
def isKeyed (launch : Launch) : Bool := hasKeys launch.arguments && hasKeys launch.allocations

/-- Formal arguments are given as loose data; the last binding of a number counts. -/
def bindings (launch : Launch) : Except Fault (List (Int × Binding)) := do
  let entries ← (Register.ofList launch.arguments).mapM (fun entry => do
    return (← entry.1.toInteger.mapError Fault.misuse, entry.2))
  return Register.ofList entries

def invocation (launch : Launch) (id : Datum) : Except Fault Invocation := do
  let blockDim ← launch.block.dimensions
  let gridDim ← launch.grid.dimensions
  let bindings ← launch.bindings
  return ⟨launch.kernel, id, blockDim, gridDim, bindings, Register.ofList launch.allocations⟩

/-- The number of a launch, and the next number of the allocator after it. -/
def identify (launch : Launch) (allocator : Option Int) : Except Fault Datum × Option Int :=
  match launch.id, allocator with
  | some id, _ => (.ok id, allocator)
  | none, some next => (.ok (.integer next), some (next + 1))
  | none, none => (.error Misuse.missingInvocationId, none)

/-- A number is used up even if the dimensions or the arguments are not well-formed. -/
def invoke (launch : Launch) (allocator : Option Int) : Except Fault Invocation × Option Int :=
  if launch.isKeyed then
    match launch.identify allocator with
    | (.ok id, allocator) => (launch.invocation id, allocator)
    | (.error fault, allocator) => (.error fault, allocator)
  else (.error Misuse.wrongType, allocator)

end Launch

/-- The digits of a number in base 32, lowest first, read as a number in base 32. -/
def reversedDigits : Nat → Nat → Nat
  | 0, _ => 0
  | count + 1, number => (number % 32) <<< (5 * count) + reversedDigits count (number / 32)

/-- The magnitude of a number modulo a Mersenne prime, with its sign, where minus one
becomes minus two. -/
def residue (formal : Int) : Int :=
  let magnitude : Int := formal.natAbs % ((1 <<< 61) - 1 : Nat)
  let signed := if formal < 0 then -magnitude else magnitude
  if signed = -1 then -2 else signed

/-- The 32 bits by which an argument number is scattered: the halves of the 64 bits of its
residue combined, where all ones become one less. -/
def scattered (formal : Int) : Nat :=
  let word := (residue formal % (1 <<< 64)).toNat
  let combined := (word % (1 <<< 32)) ^^^ (word >>> 32)
  if combined = (1 <<< 32) - 1 then combined - 1 else combined

/-- The place of an argument number in scattered order, in which numbers are compared
by their digits in base 32 from the lowest on. Numbers below 32 keep their order. -/
def scatteredRank (formal : Int) : Nat := reversedDigits 7 (scattered formal)

namespace Invocation

/-- The identity of the allocation passed in an argument, the argument itself if none is given. -/
def allocationFor (invocation : Invocation) (formal : Datum) : Datum :=
  (Register.find formal invocation.allocations).getD formal

def requireAllocationFor (invocation : Invocation) (formal : Datum) : Except Fault Datum :=
  if formal.isKey then .ok (invocation.allocationFor formal) else .error Misuse.wrongType

def loopBindings (invocation : Invocation) : List (Int × Binding) :=
  invocation.bindings.filter (fun entry =>
    match entry.2 with
    | .loopVariable _ _ _ _ => true
    | _ => false)

/-- The arguments bound to host loops, in ascending order. -/
def hostLoops (invocation : Invocation) : List (Int × Binding) :=
  Register.sort (fun first second => first.1 ≤ second.1) invocation.loopBindings

/-- The initial values of the host loops, by the names of their variables. Where
loops share a variable, the one with the last argument in scattered order counts. -/
def initialValues (invocation : Invocation) : List (String × Value) :=
  let loops := Register.sort
    (fun first second => scatteredRank first.1 ≤ scatteredRank second.1) invocation.loopBindings
  Register.ofList (loops.filterMap (fun entry =>
    match entry.2 with
    | .loopVariable name initial _ _ => some (name, initial)
    | _ => none))

/-- The product of all grid and block dimensions. -/
def countThreads (invocation : Invocation) (emitter : Emitter) : Analysis Value :=
  (invocation.gridDim.toList ++ invocation.blockDim.toList).foldlM
    (fun total dimension => emitter.combine .mul total (dimension.promote .wide)) 1

end Invocation

end KernelFootprint
