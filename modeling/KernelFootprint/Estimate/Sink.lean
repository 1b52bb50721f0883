import KernelFootprint.Estimate.Basic

/-!
# Sinks

A sink receives the estimates of an analysis piece by piece. A recording sink
keeps everything in registers, a later piece for a key taking the place of an
earlier one and flags adding up. Without a sink nothing is delivered, and a
sink that does not implement its deliveries fails on the first.
-/

namespace KernelFootprint

inductive Delivery
  | flag (key : AccessKey) (flag : Flag)
  | executionCount (key : AccessKey) (value : Value)
  | workingSet (key : AccessKey) (value : Value)
  | sensitivity (key : AccessKey) (axis : SensitivityAxis) (value : Value)
  | loopIterations (invocation : Datum) (loop : Int) (value : Value)

structure Recording where
  executionCounts : List (AccessKey × Value) := []
  workingSets : List (AccessKey × Value) := []
  sensitivities : List ((AccessKey × SensitivityAxis) × Value) := []
  loopIterations : List ((Datum × Int) × Value) := []
  flags : List (AccessKey × List Flag) := []

namespace Recording

def addFlag (flags : List (AccessKey × List Flag)) (key : AccessKey) (flag : Flag) :
    List (AccessKey × List Flag) :=
  let known := (Register.find key flags).getD []
  Register.insert key (if known.contains flag then known else known ++ [flag]) flags

def receive (recording : Recording) : Delivery → Recording
  | .flag key flag => { recording with flags := addFlag recording.flags key flag }
  | .executionCount key value =>
      { recording with executionCounts := Register.insert key value recording.executionCounts }
  | .workingSet key value =>
      { recording with workingSets := Register.insert key value recording.workingSets }
  | .sensitivity key axis value =>
      { recording with
        sensitivities := Register.insert (key, axis) value recording.sensitivities }
  | .loopIterations invocation loop value =>
      { recording with
        loopIterations := Register.insert (invocation, loop) value recording.loopIterations }

end Recording

inductive Sink
  | absent
  | unimplemented
  | recording (recording : Recording)

/-- Whether a delivery can be kept under its key. -/
def Delivery.isKeyed : Delivery → Bool
  | .flag key _ => key.isKey
  | .executionCount key _ => key.isKey
  | .workingSet key _ => key.isKey
  | .sensitivity key _ _ => key.isKey
  | .loopIterations invocation _ _ => invocation.isKey

def Sink.receive : Sink → Delivery → Except Fault Sink
  | .absent, _ => .ok .absent
  | .unimplemented, _ => .error Misuse.unimplemented
  | .recording kept, delivery =>
      if delivery.isKeyed then .ok (.recording (kept.receive delivery))
      else .error Misuse.wrongType

namespace Estimate

/-- What a sink is told about an estimate. -/
def deliveries (estimate : Estimate) : List Delivery :=
  (Flag.all.filter estimate.flags.contains).map (.flag estimate.key) ++
    estimate.executionCount.toList.map (.executionCount estimate.key) ++
    estimate.workingSet.toList.map (.workingSet estimate.key) ++
    estimate.sensitivities.map (fun entry => .sensitivity estimate.key entry.1 entry.2)

end Estimate

end KernelFootprint
