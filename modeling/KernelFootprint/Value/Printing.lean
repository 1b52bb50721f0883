import KernelFootprint.Datum.Printing
import KernelFootprint.Value

/-!
# Values as text

An expression is shown with the fewest brackets that keep its structure: one
of lower precedence than its context is bracketed, and so is a number with a
sign inside a product. Quotients and remainders are bracketed inside products,
and products, quotients and remainders inside quotients and remainders. The
written form of a value names its constructors, down to a limited depth.
-/

namespace KernelFootprint.Value

def bracketed (needed : Bool) (text : String) : String :=
  if needed then "(" ++ text ++ ")" else text

def isQuotient : Value → Bool
  | .pair .floorDiv _ _ => true
  | .pair .remainder _ _ => true
  | _ => false

def isMultiplicative : Value → Bool
  | .many .product _ => true
  | value => value.isQuotient

/-- Whether the text of a datum holds a sign as numbers do. -/
def hasSign : Datum → Bool
  | .integer value => value < 0
  | .decimal value => value.written.toList.any (fun character => character == '-' || character == '+')
  | _ => false

mutual

/-- The text of a value inside a context of the given precedence. -/
def shownIn (context : Nat) : Value → String
  | .int value => bracketed (value < 0 && 11 < context) (toString value)
  | .datum content => bracketed (hasSign content && 11 < context) content.shown
  | .var name => name
  | .call function parameters =>
      function ++ "(" ++ ", ".intercalate (shownAll 0 parameters) ++ ")"
  | .many .sum operands => bracketed (11 < context) (" + ".intercalate (shownAll 11 operands))
  | .many .product operands => bracketed (12 < context) ("*".intercalate (shownFactors operands))
  | .many .bitAnd operands => bracketed (9 < context) (" & ".intercalate (shownAll 9 operands))
  | .many .bitOr operands => bracketed (7 < context) (" | ".intercalate (shownAll 7 operands))
  | .many .max operands => "max(" ++ ", ".intercalate (shownAll 0 operands) ++ ")"
  | .many .min operands => "min(" ++ ", ".intercalate (shownAll 0 operands) ++ ")"
  | .pair .floorDiv first second =>
      bracketed (12 < context) (bracketed first.isMultiplicative (shownIn 12 first) ++ " // " ++
        bracketed second.isMultiplicative (shownIn 12 second))
  | .pair .remainder first second =>
      bracketed (12 < context) (bracketed first.isMultiplicative (shownIn 12 first) ++ " % " ++
        bracketed second.isMultiplicative (shownIn 12 second))
  | .pair .shiftLeft first second =>
      bracketed (10 < context) (shownIn 11 first ++ " << " ++ shownIn 11 second)
  | .pair .shiftRight first second =>
      bracketed (10 < context) (shownIn 11 first ++ " >> " ++ shownIn 11 second)

def shownAll (context : Nat) : List Value → List String
  | [] => []
  | first :: rest => shownIn context first :: shownAll context rest

def shownFactors : List Value → List String
  | [] => []
  | first :: rest => bracketed first.isQuotient (shownIn 12 first) :: shownFactors rest

end

def shown (value : Value) : String := shownIn 0 value

mutual

/-- Whether all integers of a value can be written. -/
def isWritable : Value → Bool
  | .int value => Text.hasNumeral value
  | .datum content => content.isWritable
  | .var _ => true
  | .call _ parameters => areWritable parameters
  | .many _ operands => areWritable operands
  | .pair _ first second => isWritable first && isWritable second

def areWritable : List Value → Bool
  | [] => true
  | first :: rest => isWritable first && areWritable rest

end

/-- A list of written elements as a tuple; a single one is followed by a comma. -/
def tuple : List String → String
  | [single] => "(" ++ single ++ ",)"
  | elements => "(" ++ ", ".intercalate elements ++ ")"

/-- The depth from which on expressions are left out of a written form. -/
def hiddenDepth : Nat := 10

def writtenVariable (depth : Nat) (name : String) : String :=
  if depth < hiddenDepth then "Variable(" ++ Text.quoted name ++ ")" else "..."

mutual

/-- The written form of a value at a depth, with dots for expressions that are too deep.
Operands are two deeper than their expression, three if they are listed in a tuple. -/
def writtenAt (depth : Nat) : Value → String
  | .int value => toString value
  | .datum content => content.written
  | .var name => writtenVariable depth name
  | .many op operands =>
      if depth < hiddenDepth then
        op.name ++ "(" ++ tuple (writtenAllAt (depth + 3) operands) ++ ")"
      else "..."
  | .pair op first second =>
      if depth < hiddenDepth then
        op.name ++ "(" ++ writtenAt (depth + 2) first ++ ", " ++ writtenAt (depth + 2) second ++ ")"
      else "..."
  | .call function parameters =>
      if depth < hiddenDepth then
        "Call(" ++ writtenVariable (depth + 2) function ++ ", " ++
          tuple (writtenAllAt (depth + 3) parameters) ++ ")"
      else "..."

def writtenAllAt (depth : Nat) : List Value → List String
  | [] => []
  | first :: rest => writtenAt depth first :: writtenAllAt depth rest

end

def written : Value → String := writtenAt 0

end KernelFootprint.Value
