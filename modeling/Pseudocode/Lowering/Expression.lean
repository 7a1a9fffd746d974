import Pseudocode.Lowering.State

/-! # Lowering expressions

The operands of an operator are lowered from left to right, then brought to one
type: two integers of different widths by widening the narrower one, two doubles
as they are. All else is an error.

* `Lowering.unify` brings two operands to one type.
* `Lowering.expression` gives the value of an expression.
* `Lowering.call` lowers a call: the arguments first, then the function is looked up.
-/

namespace Pseudocode.Lowering

open Assembly

/-! ## Operators -/

/-- Two operands of one type. -/
inductive Operands where
  | integers (lhs rhs : Value)
  | doubles (lhs rhs : Value)

def unify (op : Operator) (pos : Position) (lhs rhs : Value) : Lower Operands :=
  match lhs.type.width?, rhs.type.width? with
  | some l, some r =>
    if l = r then return .integers lhs rhs
    else if l < r then do return .integers (← zext lhs rhs.type) rhs
    else do return .integers lhs (← zext rhs lhs.type)
  | some _, none => failType pos (.mixedOperands op lhs.type rhs.type)
  | none, _ =>
    if lhs.type.isDouble then
      if rhs.type.isDouble then return .doubles lhs rhs
      else failType pos (.mixedOperands op lhs.type rhs.type)
    else failType pos (.undefinedFor (.binary op) lhs.type)

/-- The operation on integers. Division rounds towards zero. -/
def intOp : Arithmetic → BinaryOp
  | .add => .add
  | .sub => .sub
  | .mul => .mul
  | .div => .sdiv

def doubleOp : Arithmetic → BinaryOp
  | .add => .fadd
  | .sub => .fsub
  | .mul => .fmul
  | .div => .fdiv

/-- The comparison of integers, which are read with a sign whatever their width. -/
def intCondition : Comparison → IntCondition
  | .eq => .eq
  | .ne => .ne
  | .lt => .slt
  | .gt => .sgt
  | .le => .sle
  | .ge => .sge

/-- The comparison of doubles, which fails whenever one of them is a NaN. -/
def doubleCondition : Comparison → DoubleCondition
  | .eq => .oeq
  | .ne => .one
  | .lt => .olt
  | .gt => .ogt
  | .le => .ole
  | .ge => .oge

/-- Adds an operation on two operands of one type, which is that of the result. -/
def binary (op : BinaryOp) (lhs rhs : Value) : Lower Value := do
  let dst ← freshTemp lhs.type
  emit (.binary dst op lhs rhs)
  return dst

def arithmetic (op : Arithmetic) (pos : Position) (lhs rhs : Value) : Lower Value := do
  match ← unify (.arithmetic op) pos lhs rhs with
  | .integers lhs rhs => binary (intOp op) lhs rhs
  | .doubles lhs rhs => binary (doubleOp op) lhs rhs

def compare (op : Comparison) (pos : Position) (lhs rhs : Value) : Lower Value := do
  let operands ← unify (.compare op) pos lhs rhs
  let dst ← freshTemp .i1
  match operands with
  | .integers lhs rhs => emit (.icmp dst (intCondition op) lhs rhs)
  | .doubles lhs rhs => emit (.fcmp dst (doubleCondition op) lhs rhs)
  return dst

def operate (op : Operator) (pos : Position) (lhs rhs : Value) : Lower Value :=
  match op with
  | .compare c => compare c pos lhs rhs
  | .arithmetic a => arithmetic a pos lhs rhs

def negate (pos : Position) (v : Value) : Lower Value :=
  match v.type with
  | .int 32 => binaryFrom .sub (.i32 0)
  | .double => binaryFrom .fsub (.double .zero)
  | type => failType pos (.undefinedFor .negation type)
where
  /-- The operation on a constant and the operand. -/
  binaryFrom (op : BinaryOp) (zero : Value) : Lower Value := binary op zero v

def not (pos : Position) (v : Value) : Lower Value := do
  if v.type = .i1 then binary .xor v (.bool true)
  else failType pos (.undefinedFor .not v.type)

/-! ## Operands -/

def constant : Constant → Lower Value
  | .bool b => return .bool b
  | .integer n => return .i32 n
  | .real x => return .double x
  | .string s => addString s

def storageOf (k : Key) : Lower Value := do
  match ← resolve? k.root with
  | some b => return b.storage
  | none => failName k.pos (.undefinedVariable k.root)

/-- The value of a variable. An array is not loaded: it is worked on by its address. -/
def load (k : Key) : Lower Value := do
  let storage ← storageOf k
  match storage.type.pointee? with
  | none => throw (.consistency (.notAPointer k.root))
  | some held =>
    if held.isArray then return storage
    else do
      let dst ← freshTemp held
      emit (.load dst storage)
      return dst

/-! ## Calls -/

/-- Brings the argument of the number to the type of its parameter. -/
def argument (pos : Position) (name : String) (index : Nat) (param : Ty) (arg : Value) :
    Lower Value :=
  if arg.type = param then return arg
  else if arg.type.isPointer && param.isPointer then bitcast arg param
  else
    match arg.type.width?, param.width? with
    | some given, some wanted =>
      if given < wanted then zext arg param
      else failType pos (.argument index name param arg.type)
    | _, _ => failType pos (.argument index name param arg.type)

/-- Brings an argument for which there is no parameter to a type that can be passed:
    an address to that of bytes, a narrow integer to 32 bits. -/
def promote (arg : Value) : Lower Value :=
  if arg.type.isPointer && arg.type ≠ .bytePtr then bitcast arg .bytePtr
  else
    match arg.type.width? with
    | some bits => if bits < 32 then zext arg .i32 else return arg
    | none => return arg

/-- Brings the arguments from the number on to the types of their parameters. -/
def matchArguments (pos : Position) (name : String) :
    (index : Nat) → List Ty → List Value → Lower (List Value)
  | _, _, [] => return []
  | index, [], arg :: args => do
    let v ← promote arg
    return v :: (← matchArguments pos name (index + 1) [] args)
  | index, param :: params, arg :: args => do
    let v ← argument pos name index param arg
    return v :: (← matchArguments pos name (index + 1) params args)

def takes (f : Signature) (count : Nat) : Bool :=
  if f.variadic then f.params.length ≤ count else f.params.length = count

def emitCall (f : Signature) (args : List Value) : Lower Value := do
  let dst ← freshTemp f.result
  emit (.call (some dst) f args)
  return dst

/-- Lowers the call of a function with arguments that are lowered already. -/
def call (pos : Position) (name : String) (args : List Value) : Lower Value := do
  match ← function? name with
  | none => failName pos (.undefinedFunction name)
  | some f =>
    if takes f args.length then do
      let args ← matchArguments pos name 0 f.params args
      emitCall f args
    else failName pos (.argumentCount name f.variadic f.params.length args.length)

/-! ## Expressions -/

mutual

def expression : Expression → Lower Value
  | .constant c => constant c
  | .key k => load k
  | .call pos name args => do
    let args ← expressions args
    call pos name args
  | .parenthesized e => expression e
  | .not pos e => do
    let v ← expression e
    not pos v
  | .negate pos e => do
    let v ← expression e
    negate pos v
  | .binary op pos lhs rhs => do
    let l ← expression lhs
    let r ← expression rhs
    operate op pos l r

/-- Lowers expressions from left to right and gives their values. -/
def expressions : List Expression → Lower (List Value)
  | [] => return []
  | e :: es => do
    let v ← expression e
    let vs ← expressions es
    return v :: vs

end

end Pseudocode.Lowering
