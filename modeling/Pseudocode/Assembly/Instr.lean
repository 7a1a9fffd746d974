import Pseudocode.Assembly.Value

/-! # Instructions

* `Signature` tells how a function is called.
* `Instr` is what a block consists of, and `Terminator` what a block ends with.
* `Instr.text` writes an instruction as one line of assembly.
-/

namespace Pseudocode.Assembly

/-- The operations on two operands of one type. -/
inductive BinaryOp where
  | add | sub | mul | sdiv | fadd | fsub | fmul | fdiv | xor
deriving DecidableEq, Inhabited

def BinaryOp.text : BinaryOp → String
  | .add => "add"
  | .sub => "sub"
  | .mul => "mul"
  | .sdiv => "sdiv"
  | .fadd => "fadd"
  | .fsub => "fsub"
  | .fmul => "fmul"
  | .fdiv => "fdiv"
  | .xor => "xor"

/-- The comparisons of integers. All but the first two read them with a sign. -/
inductive IntCondition where
  | eq | ne | slt | sgt | sle | sge
deriving DecidableEq, Inhabited

def IntCondition.text : IntCondition → String
  | .eq => "eq"
  | .ne => "ne"
  | .slt => "slt"
  | .sgt => "sgt"
  | .sle => "sle"
  | .sge => "sge"

/-- The comparisons of doubles. All are false when one operand is a NaN. -/
inductive DoubleCondition where
  | oeq | one | olt | ogt | ole | oge
deriving DecidableEq, Inhabited

def DoubleCondition.text : DoubleCondition → String
  | .oeq => "oeq"
  | .one => "one"
  | .olt => "olt"
  | .ogt => "ogt"
  | .ole => "ole"
  | .oge => "oge"

/-- The changes of type. -/
inductive Conversion where
  | bitcast | zext
deriving DecidableEq, Inhabited

def Conversion.text : Conversion → String
  | .bitcast => "bitcast"
  | .zext => "zext"

/-- How a function is called. -/
structure Signature where
  name : String
  result : Ty
  params : List Ty
  /-- Further arguments may follow those for the parameters. -/
  variadic : Bool
deriving DecidableEq, Inhabited

def Signature.paramText (s : Signature) : String :=
  ", ".intercalate (s.params.map Ty.text ++ if s.variadic then ["..."] else [])

/-- One step of a block. `dst` is the value that the step defines. -/
inductive Instr where
  | load (dst src : Value)
  | store (value dst : Value)
  | binary (dst : Value) (op : BinaryOp) (lhs rhs : Value)
  | icmp (dst : Value) (pred : IntCondition) (lhs rhs : Value)
  | fcmp (dst : Value) (pred : DoubleCondition) (lhs rhs : Value)
  | cast (dst : Value) (op : Conversion) (value : Value)
  | call (dst : Option Value) (callee : Signature) (args : List Value)
deriving DecidableEq, Inhabited

/-- What a call is made to. A function with a variable number of arguments is
    written with its parameters. -/
def Signature.calleeText (s : Signature) : String :=
  if s.variadic then s!"{s.result.text} ({s.paramText}) @{s.name}"
  else s!"{s.result.text} @{s.name}"

def Instr.text : Instr → String
  | .load dst src => s!"{dst.text} = load {dst.type.text}, {src.typed}"
  | .store value dst => s!"store {value.typed}, {dst.typed}"
  | .binary dst op lhs rhs => s!"{dst.text} = {op.text} {lhs.typed}, {rhs.text}"
  | .icmp dst pred lhs rhs => s!"{dst.text} = icmp {pred.text} {lhs.typed}, {rhs.text}"
  | .fcmp dst pred lhs rhs => s!"{dst.text} = fcmp {pred.text} {lhs.typed}, {rhs.text}"
  | .cast dst op value => s!"{dst.text} = {op.text} {value.typed} to {dst.type.text}"
  | .call dst callee args =>
    let target := match dst with | some d => s!"{d.text} = " | none => ""
    let operands := ", ".intercalate (args.map Value.typed)
    s!"{target}call {callee.calleeText}({operands})"

/-- The number of a block in its function. -/
structure BlockId where
  index : Nat
deriving DecidableEq, Inhabited

/-- How a block ends. -/
inductive Terminator where
  | br (target : BlockId)
  | condBr (cond : Value) (thenBlock elseBlock : BlockId)
  | ret (value : Value)
deriving DecidableEq, Inhabited

def Terminator.successors : Terminator → List BlockId
  | .br target => [target]
  | .condBr _ thenBlock elseBlock => [thenBlock, elseBlock]
  | .ret _ => []

end Pseudocode.Assembly
