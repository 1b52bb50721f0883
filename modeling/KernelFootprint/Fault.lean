import KernelFootprint.Token
import KernelFootprint.Value.Printing

/-!
# Faults

An analysis error is a finding about the analysed kernel or its launch: the
input is well-typed, but some tree, value or count does not exist. A misuse is
any other failing call. Every fault is a cause; its wording is given by
`message` alone. An error that quotes an integer without a numeral cannot be
made; there is a misuse in its place.
-/

namespace KernelFootprint

/-- Why a token stream or a set of nodes forms no tree. -/
inductive Malformation
  | unknownToken (text : String)
  | missingOperands (text : String) (available : Nat) (tokens : List String)
  | leftoverValues (count : Nat) (tokens : List String)
  | missingOperator (tokens : List String)
  | severalRoots (tokens : List String)
  | unbalancedClose (tokens : List String)
  | outsideParentheses (text : String) (tokens : List String)
  | unclosedOpen (tokens : List String)
  | missingIterationCount (found : Option String)
  | alreadyAttached (text : String)
  | rootOutOfRange (root : String)
  | rootAttached
  | wrongArity (text : String) (count expected : Nat)
  deriving DecidableEq

/-- Why an expression has no value. -/
inductive Indeterminate
  | noValue (text invocation kernel : String)
  | unboundArgument (formal kernel : String)
  | endlessOrigins (formal : String)
  | noLoopInformation (text loop : String)
  | incompleteExpression
  | mergeWithoutValue (text : String)
  | shiftOutOfRange (amount : String) (bits : Nat)
  | divisionByZero (dividend : String)
  deriving DecidableEq

/-- Why a tree does not have the shape that an evaluation asks for. -/
inductive Misshape
  | irreducibleOperand (operand operation : String)
  | irreducible (text : String)
  | noOperands (text : String)
  | noIntegerValue (text : String)
  | noRange (text : String) (operands : Nat)
  | noEntryValue (merge : String)
  | brokenRecurrence (text merge : String)
  | termNotBelow (merge : String)
  deriving DecidableEq

/-- Why an expression has no stride along a terminal. -/
inductive NotAffine
  | inShiftAmount (text : String)
  | inDivisor (text : String)
  deriving DecidableEq

/-- The bound values of a loop. -/
inductive Bound
  | initial
  | final
  deriving DecidableEq

/-- What is evaluated about a loop. -/
inductive LoopQuantity
  | bound (which : Bound)
  | iterationCount
  deriving DecidableEq

/-- Why a quantity of a loop cannot be computed. -/
inductive LoopObstacle
  | notCatalogued (kernel : String)
  | boundUnavailable (which : Bound) (buildErrors : List String)
  | boundNotAnalyzable (which : Bound)
  | stepNotAnalyzable
  | dependsOnItself (quantity : LoopQuantity)
  | cannotEvaluate (quantity : LoopQuantity) (cause : Indeterminate)
  | cyclicNest
  | mergeOutsideLoop (merge : String)
  deriving DecidableEq

inductive AnalysisError
  | malformed (cause : Malformation)
  | indeterminate (cause : Indeterminate)
  | misshapen (cause : Misshape)
  | notAffine (cause : NotAffine)
  /-- A loop is named as it was asked for. -/
  | incomputable (loop : String) (obstacle : LoopObstacle)
  deriving DecidableEq

/-- The evaluations that take binary trees only. -/
inductive BinaryEvaluation
  | concrete
  | interval
  deriving DecidableEq

/-- Failing calls that say nothing about the analysed kernel. -/
inductive Misuse
  | missingKey
  | indexOutOfRange
  /-- A text that is no numeral, or an integer that has none. -/
  | unreadableNumeral
  | wrongChildCount
  | zeroDivision
  | negativeShift
  /-- A shift or a repetition by more than anything can be long. -/
  | countTooLarge
  /-- A result of more digits than can be stored. -/
  | resultTooLarge
  | noExtremum
  /-- Something that is no number where an operand of arithmetic must stand. -/
  | notArithmetic
  /-- Something that is neither a number nor an expression, inside an expression. -/
  | notAnExpression
  /-- An infinity where an integer must stand. -/
  | infiniteNumber
  | undefinedNumber
  /-- An integer too great for the precision that is asked for. -/
  | beyondDecimals
  | wrongType
  | unimplemented
  | invalidOptions
  | missingInvocationId
  | wrongDimensionCount (dimensions : List Value)
  | notABinding (className : String)
  | notAnOperation (kind : Kind)
  | notABinaryTree (evaluation : BinaryEvaluation) (className : String)
  /-- Asked of something that does not support it, or of nothing at all. -/
  | unsupported
  /-- Stopped at a bound on the number of steps that is never reached. -/
  | unfinished

inductive Fault
  | analysis (error : AnalysisError)
  | misuse (cause : Misuse)

instance : Coe AnalysisError Fault := ⟨.analysis⟩
instance : Coe Misuse Fault := ⟨.misuse⟩
instance : Coe Malformation Fault := ⟨fun cause => .analysis (.malformed cause)⟩
instance : Coe Indeterminate Fault := ⟨fun cause => .analysis (.indeterminate cause)⟩
instance : Coe Misshape Fault := ⟨fun cause => .analysis (.misshapen cause)⟩
instance : Coe NotAffine Fault := ⟨fun cause => .analysis (.notAffine cause)⟩

def joinTokens (tokens : List String) : String := " ".intercalate tokens

namespace Malformation

def message : Malformation → String
  | .unknownToken text => "unknown token '" ++ text ++ "'"
  | .missingOperands text available tokens =>
      "'" ++ text ++ "' needs two operands, " ++ toString available ++ " available in " ++
        joinTokens tokens
  | .leftoverValues count tokens =>
      toString count ++ " values left after reducing " ++ joinTokens tokens
  | .missingOperator tokens => "expected operator after '(' in " ++ joinTokens tokens
  | .severalRoots tokens => "more than one root in " ++ joinTokens tokens
  | .unbalancedClose tokens => "unbalanced ')' in " ++ joinTokens tokens
  | .outsideParentheses text tokens =>
      "token '" ++ text ++ "' outside parentheses in " ++ joinTokens tokens
  | .unclosedOpen tokens => "unclosed '(' in " ++ joinTokens tokens
  | .missingIterationCount found =>
      "'IT' must be followed by an integer, got " ++
        (match found with
          | some text => Text.quoted text
          | none => "None")
  | .alreadyAttached text => "node '" ++ text ++ "' already has a parent"
  | .rootOutOfRange root => "root index " ++ root ++ " out of range"
  | .rootAttached => "root node has a parent"
  | .wrongArity text count expected =>
      "'" ++ text ++ "' has " ++ toString count ++ " operands, expected " ++
        toString expected

end Malformation

namespace Indeterminate

def message : Indeterminate → String
  | .noValue text invocation kernel =>
      "no value for '" ++ text ++ "' in invocation " ++ invocation ++ " of '" ++
        kernel ++ "'"
  | .unboundArgument formal kernel =>
      "argument " ++ formal ++ " of '" ++ kernel ++ "' is not bound"
  | .endlessOrigins formal =>
      "argument " ++ formal ++ ": binding origin chain too long"
  | .noLoopInformation text loop =>
      "'" ++ text ++ "' refers to loop " ++ loop ++
        ", but no loop information is available"
  | .incompleteExpression => "incomplete expression"
  | .mergeWithoutValue text => "phi merge '" ++ text ++ "' has no concrete value"
  | .shiftOutOfRange amount bits =>
      "shift amount " ++ amount ++ " out of range for " ++ toString bits ++
        "-bit operand"
  | .divisionByZero dividend => "division of " ++ dividend ++ " by zero"

/-- Whether a defined operation was asked for outside its domain. -/
def isDomainError : Indeterminate → Bool
  | .shiftOutOfRange _ _ => true
  | .divisionByZero _ => true
  | _ => false

end Indeterminate

namespace Misshape

def message : Misshape → String
  | .irreducibleOperand operand operation =>
      "'" ++ operand ++ "' is not reducible as operand of '" ++ operation ++ "'"
  | .irreducible text => "'" ++ text ++ "' is not reducible to a value"
  | .noOperands text => "'" ++ text ++ "' has no operands"
  | .noIntegerValue text => "'" ++ text ++ "' has no integer value"
  | .noRange text operands =>
      "cannot estimate the range of '" ++ text ++ "' with " ++ toString operands ++ " operands"
  | .noEntryValue merge => "phi merge '" ++ merge ++ "' has no entry value"
  | .brokenRecurrence text merge =>
      "'" ++ text ++ "' between phi term and merge '" ++ merge ++ "'"
  | .termNotBelow merge => "phi term is not below merge '" ++ merge ++ "'"

end Misshape

namespace NotAffine

def message : NotAffine → String
  | .inShiftAmount text => "'" ++ text ++ "' appears in a shift amount"
  | .inDivisor text => "'" ++ text ++ "' appears in a divisor"

end NotAffine

namespace Bound

def label : Bound → String
  | .initial => "initial"
  | .final => "final"

end Bound

namespace LoopQuantity

def label : LoopQuantity → String
  | .bound which => which.label ++ " value"
  | .iterationCount => "iteration count"

end LoopQuantity

namespace LoopObstacle

def message : LoopObstacle → String
  | .notCatalogued kernel => "not catalogued for kernel '" ++ kernel ++ "'"
  | .boundUnavailable which buildErrors =>
      which.label ++ " value unavailable" ++
        (if buildErrors.isEmpty then "" else " (" ++ "; ".intercalate buildErrors ++ ")")
  | .boundNotAnalyzable which => which.label ++ " value is not analyzable"
  | .stepNotAnalyzable => "step is not analyzable"
  | .dependsOnItself quantity => quantity.label ++ " depends on its own loop"
  | .cannotEvaluate quantity cause => "cannot evaluate " ++ quantity.label ++ ": " ++ cause.message
  | .cyclicNest => "cyclic loop nest"
  | .mergeOutsideLoop merge => "phi merge '" ++ merge ++ "' is not in a catalogued loop"

end LoopObstacle

namespace AnalysisError

def message : AnalysisError → String
  | .malformed cause => cause.message
  | .indeterminate cause => cause.message
  | .misshapen cause => cause.message
  | .notAffine cause => cause.message
  | .incomputable loop obstacle => "loop " ++ loop ++ ": " ++ obstacle.message

end AnalysisError

def BinaryEvaluation.className : BinaryEvaluation → String
  | .concrete => "ConcreteEvaluator"
  | .interval => "IntervalEvaluator"

namespace Misuse

/-- The wording of the misuses that have one. -/
def message? : Misuse → Option String
  | .invalidOptions => some "invalid argument to make_options"
  | .missingInvocationId => some "need one of invocation_id and id_allocator"
  | .wrongDimensionCount dimensions =>
      some ("expected one or two dimensions, got " ++ Value.tuple (dimensions.map Value.written))
  | .notABinding className => some ("unexpected binding type '" ++ className ++ "'")
  | .notAnOperation kind => some ("'OpKind." ++ kind.name ++ "' is not an operation")
  | .notABinaryTree evaluation className =>
      some (evaluation.className ++ " evaluates binary trees, got '" ++ className ++ "'")
  | _ => none

end Misuse

/-- The numeral of an integer. -/
def Text.writeInteger (value : Int) : Except Misuse String :=
  if hasNumeral value then .ok (toString value) else .error .unreadableNumeral

theorem Text.writeInteger_of_hasNumeral {value : Int} (short : hasNumeral value = true) :
    writeInteger value = .ok (toString value) := if_pos short

theorem Text.writeInteger_of_not_hasNumeral {value : Int} (long : hasNumeral value = false) :
    writeInteger value = .error .unreadableNumeral := by
  rw [writeInteger, long]
  rfl

/-- The text of a datum on its own. -/
def Datum.describe (datum : Datum) : Except Misuse String :=
  if datum.isWritable then .ok datum.shown else .error .unreadableNumeral

/-- An error that quotes texts, or the misuse of a text that cannot be written. -/
def Fault.quoting : Except Misuse AnalysisError → Fault
  | .ok error => .analysis error
  | .error cause => .misuse cause

def Fault.message? : Fault → Option String
  | .analysis error => some error.message
  | .misuse cause => cause.message?

end KernelFootprint
