import KernelFootprint.Token.Classification
import KernelFootprint.Tree.Nary

/-!
# Parenthesized token streams

A parenthesized stream opens every node with its operator and closes it after
its operands. The open nodes form a spine from the innermost one to the root.
A phi without operands refers to the carried value of its recurrence and
becomes a phi term when it is closed.
-/

namespace KernelFootprint.Bracketed

structure OpenNode where
  text : Datum
  symbol : Symbol
  /-- The closed operands, the latest first. -/
  operands : List NaryTree := []

def closedSymbol : Symbol → List NaryTree → Symbol
  | .operation .phi id, [] => .terminal (.phiTerm id)
  | symbol, _ => symbol

def OpenNode.close (node : OpenNode) : NaryTree :=
  .node node.text (closedSymbol node.symbol node.operands) node.operands.reverse

structure State where
  opened : Nat := 0
  /-- The open nodes, the innermost first. -/
  spine : List OpenNode := []
  root : Option NaryTree := none

def isOpening (token : Datum) : Bool := token == .text "("

def isClosing (token : Datum) : Bool := token == .text ")"

@[simp] theorem isOpening_text (text : String) : isOpening (.text text) = (text == "(") :=
  Datum.beq_text text "("

@[simp] theorem isClosing_text (text : String) : isClosing (.text text) = (text == ")") :=
  Datum.beq_text text ")"

def isParenthesis (token : Datum) : Bool := isOpening token || isClosing token

/-- Whether an operator is missing where an element follows an opening parenthesis. -/
def isMissing (head : Datum) : Bool := head == .null || isParenthesis head

/-- Closes the innermost node. -/
def State.close (state : State) : Option State :=
  match state.spine with
  | [] => none
  | node :: [] => some { state with spine := [], root := some node.close }
  | node :: outer :: rest =>
      some { state with
        spine := { outer with operands := node.close :: outer.operands } :: rest }

def run (settings : Settings) (tokens : List Datum) : List Datum → State → Except Fault NaryTree
  | [], state =>
      match state.spine, state.root with
      | [], some tree => .ok tree
      | [], none => .error Misuse.wrongType
      | _ :: _, _ => .error (inStream tokens .unclosedOpen)
  | token :: rest, state =>
      if isOpening token then
        match rest with
        | [] => .error (inStream tokens .missingOperator)
        | head :: rest =>
            if isMissing head then .error (inStream tokens .missingOperator)
            else do
              if ← (settings.maxPrefixTerms.isReachedBy state.opened).mapError Fault.misuse then
                return .pointerChase
              let symbol ← classifyElement settings head
              if state.spine.isEmpty && state.root.isSome then
                throw (inStream tokens .severalRoots)
              run settings tokens rest
                { state with
                  opened := state.opened + 1
                  spine := { text := head, symbol := symbol } :: state.spine }
      else if isClosing token then
        match state.close with
        | some state => run settings tokens rest state
        | none => .error (inStream tokens .unbalancedClose)
      else .error (inStream tokens (.outsideParentheses token.shown))

def build (settings : Settings) (tokens : List Datum) : Except Fault (Option NaryTree) :=
  if tokens.isEmpty then .ok none
  else
    match tokens.find? (fun token => !isParenthesis token) with
    | some head =>
        if isIncompleteMark settings head then .ok (some .incomplete)
        else (run settings tokens tokens {}).map some
    | none => (run settings tokens tokens {}).map some

end KernelFootprint.Bracketed
