import KernelFootprint.Tree.Nary

/-!
# Trees as expressions

A terminal is rendered as a constant or a variable, arithmetic as the matching
deferred operation, and every other node as a call of the function of its name
on its operands, or as a variable if it has none.
-/

namespace KernelFootprint

def Terminal.rendered : Terminal → Value
  | .constant value => .int value
  | .argument formal => .var ("arg" ++ toString formal)
  | .phiTerm none => .var "phi"
  | .phiTerm (some id) => .var ("phi" ++ toString id)
  | .thread .x => .var "tidx"
  | .thread .y => .var "tidy"
  | .block .x => .var "bidx"
  | .block .y => .var "bidy"
  | .blockSize .x => .var "bdimx"
  | .blockSize .y => .var "bdimy"
  | .incomplete => .var "incomplete"

def applied (function : String) : List Value → Value
  | [] => .var function
  | operands => .call function operands

def Operation.rendered : Operation → List Value → Value
  | .add, first :: second :: rest => .many .sum (first :: second :: rest)
  | .mul, first :: second :: rest => .many .product (first :: second :: rest)
  | .and, first :: second :: rest => .many .bitAnd (first :: second :: rest)
  | .or, first :: second :: rest => .many .bitOr (first :: second :: rest)
  | .sub, [first, second] => .many .sum [first, .many .product [.int (-1), second]]
  | .shl, [first, second] => .pair .shiftLeft first second
  | .lshr, [first, second] => .pair .shiftRight first second
  | .div, [first, second] => .pair .floorDiv first second
  | .udiv, [first, second] => .pair .floorDiv first second
  | .sdiv, [first, second] => .pair .floorDiv first second
  | .srem, [first, second] => .pair .remainder first second
  | operation, operands => applied operation.functionName operands

def Symbol.rendered : Symbol → List Value → Value
  | .terminal node, _ => node.rendered
  | .operation op _, operands => op.rendered operands
  | .structural node, operands => applied node.functionName operands

def BinaryTree.rendered : BinaryTree → Value
  | .leaf _ symbol => symbol.symbol.rendered []
  | .branch _ operation left right => operation.rendered [left.rendered, right.rendered]

namespace NaryTree

mutual

def rendered : NaryTree → Value
  | .node _ symbol children => symbol.rendered (renderedAll children)

def renderedAll : List NaryTree → List Value
  | [] => []
  | first :: rest => rendered first :: renderedAll rest

end

end NaryTree

namespace AddressTree

def rendered : AddressTree → Value
  | .binary tree => tree.rendered
  | .nary tree => tree.rendered

def shown (tree : AddressTree) : String := tree.rendered.shown

def written (tree : AddressTree) : String := tree.className ++ "(" ++ tree.shown ++ ")"

/-- The text of a tree that may be missing. -/
def describe (text : AddressTree → String) (tree : Option AddressTree) : String :=
  (tree.map text).getD Datum.null.shown

end AddressTree

end KernelFootprint
