import KernelFootprint.Token.Classification

/-!
# Loop bound rows

A combined row holds the tokens of the initial value, the final value and the
step of a loop. A marker opens a section; tokens before the first marker belong
to the initial value, and a section may be opened again. The marker of a known
iteration count takes the literal after it, the last one counting. A token that
could be no key is no token of a row.
-/

namespace KernelFootprint

inductive BoundSection
  | initial
  | final
  | step
  deriving DecidableEq

structure LoopBounds where
  initial : List Datum := []
  final : List Datum := []
  step : List Datum := []
  knownCount : Option Int := none

namespace LoopBounds

/-- Puts a token in front of the tokens of a section. -/
def prepend (bounds : LoopBounds) (token : Datum) : BoundSection → LoopBounds
  | .initial => { bounds with initial := token :: bounds.initial }
  | .final => { bounds with final := token :: bounds.final }
  | .step => { bounds with step := token :: bounds.step }

/-- A count counts unless a later one is there already. -/
def withCount (bounds : LoopBounds) (count : Int) : LoopBounds :=
  { bounds with knownCount := bounds.knownCount.or (some count) }

end LoopBounds

def boundMarker? (token : Datum) : Option BoundSection :=
  if token == .text "IN" then some .initial
  else if token == .text "FIN" then some .final
  else if token == .text "STEP" then some .step
  else none

def isCountMarker (token : Datum) : Bool := token == .text "IT"

/-- The literal of a known iteration count. -/
def readCount (token : Datum) : Except Fault Int :=
  match token, readLiteralElement token with
  | .null, _ => .error (Malformation.missingIterationCount none)
  | _, .ok (some count) => .ok count
  | token, .ok none => .error (Malformation.missingIterationCount (some token.shown))
  | _, .error misuse => .error misuse

def splitFrom (current : BoundSection) : List Datum → Except Fault LoopBounds
  | [] => .ok {}
  | token :: rest =>
      if token.isKey then
        match boundMarker? token with
        | some marker => splitFrom marker rest
        | none =>
            if isCountMarker token then
              match rest with
              | [] => .error (Malformation.missingIterationCount none)
              | count :: rest => do
                  let count ← readCount count
                  return (← splitFrom current rest).withCount count
            else do
              return (← splitFrom current rest).prepend token current
      else .error Misuse.wrongType

def splitBounds (tokens : List Datum) : Except Fault LoopBounds := splitFrom .initial tokens

end KernelFootprint
