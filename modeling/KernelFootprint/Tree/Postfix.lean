import KernelFootprint.Token.Classification
import KernelFootprint.Tree.Binary

/-!
# Postfix token streams

A postfix stream is reduced on a stack of finished trees. An operation takes
the two latest trees, the earlier one as its left operand. Phi tokens take
turns: the first is the term of a recurrence, the next one the merge of the
two trees below it. A stream is well-formed if exactly one tree remains.
-/

namespace KernelFootprint.Postfix

structure State where
  /-- The finished trees, the latest first. -/
  stack : List BinaryTree := []
  awaitsTerm : Bool := true

def State.push (state : State) (tree : BinaryTree) : State :=
  { state with stack := tree :: state.stack }

def reduce (tokens : List Datum) (text : String) (operation : Operation) (state : State) :
    Except Fault State :=
  match state.stack with
  | right :: left :: rest => .ok { state with stack := .branch text operation left right :: rest }
  | stack => .error (inStream tokens (.missingOperands text stack.length))

def step (tokens : List Datum) (token : Datum) (state : State) : Symbol → Except Fault State
  | .terminal node => .ok (state.push (.leaf token (.terminal node)))
  | .structural node => .ok (state.push (.leaf token (.structural node)))
  | .operation .phi id =>
      if state.awaitsTerm then
        .ok { state.push (.leaf token (.terminal (.phiTerm id))) with awaitsTerm := false }
      else reduce tokens token.shown .phi { state with awaitsTerm := true }
  | .operation operation _ => reduce tokens token.shown operation state

def run (settings : Settings) (tokens : List Datum) : List Datum → State → Except Fault State
  | [], state => .ok state
  | token :: rest, state => do
      let symbol ← classifyElement settings token
      run settings tokens rest (← step tokens token state symbol)

/-- The tree of a stream that is neither empty, too long nor marked as incomplete. -/
def reduceAll (settings : Settings) (tokens : List Datum) : Except Fault BinaryTree := do
  match (← run settings tokens tokens {}).stack with
  | [tree] => return tree
  | stack => throw (inStream tokens (.leftoverValues stack.length))

def build (settings : Settings) : List Datum → Except Fault (Option BinaryTree)
  | [] => .ok none
  | first :: rest => do
      let tokens := first :: rest
      if ← (settings.maxPostfixTokens.isExceededBy tokens.length).mapError Fault.misuse then
        return some .pointerChase
      if isIncompleteMark settings first then return some .incomplete
      return some (← reduceAll settings tokens)

end KernelFootprint.Postfix
