/-!
# The operator vocabulary

Every node of an address expression is a terminal, an operation or a
structural node. Terminals get their value by substitution, operations are
arithmetic, and structural nodes compute addresses, access memory or cast. A
kind is what remains of a symbol without the data its token carries.
-/

namespace KernelFootprint

inductive Axis
  | x
  | y
  deriving DecidableEq

inductive Terminal
  | constant (value : Int)
  | argument (formal : Nat)
  | phiTerm (id : Option Nat)
  | thread (axis : Axis)
  | block (axis : Axis)
  | blockSize (axis : Axis)
  | incomplete
  deriving DecidableEq

inductive Operation
  | add
  | sub
  | and
  | or
  | mul
  | div
  | udiv
  | sdiv
  | srem
  | shl
  | lshr
  | phi
  | icmp
  | fcmp
  | fmul
  | fdiv
  deriving DecidableEq

inductive Structural
  | pointerChase
  | gep
  | load
  | store
  | zext
  | sext
  | trunc
  | freeze
  | fptosi
  | uitofp
  | sitofp
  | double
  | select
  | call
  | atomicrmw
  | undef
  | unknown
  deriving DecidableEq

/-- What a token stands for. An operation carries the number of its phi, if any. -/
inductive Symbol
  | terminal (terminal : Terminal)
  | operation (operation : Operation) (id : Option Nat)
  | structural (structural : Structural)
  deriving DecidableEq

/-- What a node without operands in a binary tree stands for. -/
inductive Leaf
  | terminal (terminal : Terminal)
  | structural (structural : Structural)
  deriving DecidableEq

inductive Kind
  | constant
  | argument
  | phiTerm
  | thread (axis : Axis)
  | block (axis : Axis)
  | blockSize (axis : Axis)
  | incomplete
  | operation (operation : Operation)
  | structural (structural : Structural)
  deriving DecidableEq

inductive Family
  | terminal
  | operation
  | structural
  deriving DecidableEq

def Terminal.kind : Terminal → Kind
  | .constant _ => .constant
  | .argument _ => .argument
  | .phiTerm _ => .phiTerm
  | .thread axis => .thread axis
  | .block axis => .block axis
  | .blockSize axis => .blockSize axis
  | .incomplete => .incomplete

namespace Symbol

def kind : Symbol → Kind
  | .terminal leaf => leaf.kind
  | .operation op _ => .operation op
  | .structural node => .structural node

/-- The literal of a constant. -/
def value? : Symbol → Option Int
  | .terminal (.constant value) => some value
  | _ => none

/-- The number of an argument or of a phi. -/
def arg? : Symbol → Option Nat
  | .terminal (.argument formal) => some formal
  | .terminal (.phiTerm id) => id
  | .operation _ id => id
  | _ => none

/-- Addition, and disjunction, which packs an offset into an aligned address. -/
def isAdditive : Symbol → Bool
  | .operation .add _ => true
  | .operation .or _ => true
  | _ => false

end Symbol

def Leaf.symbol : Leaf → Symbol
  | .terminal node => .terminal node
  | .structural node => .structural node

namespace Operation

def all : List Operation :=
  [.add, .sub, .and, .or, .mul, .div, .udiv, .sdiv, .srem, .shl, .lshr, .phi, .icmp, .fcmp,
    .fmul, .fdiv]

def name : Operation → String
  | .add => "ADD"
  | .sub => "SUB"
  | .and => "AND"
  | .or => "OR"
  | .mul => "MUL"
  | .div => "DIV"
  | .udiv => "UDIV"
  | .sdiv => "SDIV"
  | .srem => "SREM"
  | .shl => "SHL"
  | .lshr => "LSHR"
  | .phi => "PHI"
  | .icmp => "ICMP"
  | .fcmp => "FCMP"
  | .fmul => "FMUL"
  | .fdiv => "FDIV"

/-- The function that shows an operation without arithmetic of its own. -/
def functionName : Operation → String
  | .add => "add"
  | .sub => "sub"
  | .and => "and"
  | .or => "or"
  | .mul => "mul"
  | .div => "div"
  | .udiv => "udiv"
  | .sdiv => "sdiv"
  | .srem => "srem"
  | .shl => "shl"
  | .lshr => "lshr"
  | .phi => "phi"
  | .icmp => "icmp"
  | .fcmp => "fcmp"
  | .fmul => "fmul"
  | .fdiv => "fdiv"

end Operation

namespace Structural

def all : List Structural :=
  [.pointerChase, .gep, .load, .store, .zext, .sext, .trunc, .freeze, .fptosi, .uitofp, .sitofp,
    .double, .select, .call, .atomicrmw, .undef, .unknown]

def name : Structural → String
  | .pointerChase => "POINTER_CHASE"
  | .gep => "GEP"
  | .load => "LOAD"
  | .store => "STORE"
  | .zext => "ZEXT"
  | .sext => "SEXT"
  | .trunc => "TRUNC"
  | .freeze => "FREEZE"
  | .fptosi => "FPTOSI"
  | .uitofp => "UITOFP"
  | .sitofp => "SITOFP"
  | .double => "DOUBLE"
  | .select => "SELECT"
  | .call => "CALL"
  | .atomicrmw => "ATOMICRMW"
  | .undef => "UNDEF"
  | .unknown => "UNKNOWN"

def token : Structural → String
  | .pointerChase => "PC"
  | .double => "double"
  | other => other.name

def functionName : Structural → String
  | .pointerChase => "pointer_chase"
  | .gep => "gep"
  | .load => "load"
  | .store => "store"
  | .zext => "zext"
  | .sext => "sext"
  | .trunc => "trunc"
  | .freeze => "freeze"
  | .fptosi => "fptosi"
  | .uitofp => "uitofp"
  | .sitofp => "sitofp"
  | .double => "double"
  | .select => "select"
  | .call => "call"
  | .atomicrmw => "atomicrmw"
  | .undef => "undef"
  | .unknown => "unknown"

/-- Casts and loads, which hand their one operand through unchanged. -/
def isPassThrough : Structural → Bool
  | .load | .zext | .sext | .trunc | .freeze | .fptosi | .uitofp | .sitofp | .double => true
  | _ => false

end Structural

namespace Kind

def name : Kind → String
  | .constant => "CONST"
  | .argument => "ARG"
  | .phiTerm => "PHI_TERM"
  | .thread .x => "TIDX"
  | .thread .y => "TIDY"
  | .block .x => "BIDX"
  | .block .y => "BIDY"
  | .blockSize .x => "BDIMX"
  | .blockSize .y => "BDIMY"
  | .incomplete => "INCOMPLETE"
  | .operation op => op.name
  | .structural node => node.name

/-- The text of a node that is made without a token. -/
def token : Kind → String
  | .incomplete => "INCOMP"
  | .structural node => node.token
  | other => other.name

def family : Kind → Family
  | .operation _ => .operation
  | .structural _ => .structural
  | _ => .terminal

def isOperation (kind : Kind) : Bool := kind.family == .operation

def all : List Kind :=
  [.constant, .argument, .phiTerm, .thread .x, .thread .y, .block .x, .block .y, .blockSize .x,
    .blockSize .y, .incomplete] ++ Operation.all.map .operation ++ Structural.all.map .structural

def ofName? (name : String) : Option Kind := all.find? (fun kind => kind.name == name)

end Kind

end KernelFootprint
