import Pseudocode.Proofs.Execution.Datum

/-! # Running a module

A function of a module is run block by block from its first one, instruction after
instruction. Globals start with what their initializers say.

* `Word` is what a temporary holds: a number, or the address of a global.
* `execute` runs an instruction, `step` an instruction or a terminator.
* `machine` is the run of a function for any number of steps.
* A division by zero, and one whose quotient does not fit, is `undefined`. What the types
  of the assembly exclude is `stuck`: an operand that no instruction defined, operands of
  different widths, a store of another sort of datum than the global holds.
-/

namespace Pseudocode.Execution

open Assembly

/-! ## Frames -/

/-- What a temporary holds. -/
inductive Word where
  | int (bits : Nat) (value : BitVec bits)
  | real (x : Double)
  | address (global : String)

/-- The temporaries and the globals of a run, and what was seen of it. -/
structure Frame where
  temps : String → Option Word
  memory : String → Option Datum
  log : Log

def orStuck {α : Type} : Option α → Except Ending α
  | some a => .ok a
  | none => .error .stuck

namespace Frame

def word? (fr : Frame) : Value → Option Word
  | .int bits n => some (.int bits (.ofInt bits n))
  | .double x => some (.real x)
  | .global name _ => some (.address name)
  | .temp name _ => fr.temps name

/-- What is seen of a word that a function is called with: of an address, the bytes that
    it leads to. -/
def seen? (fr : Frame) : Word → Option Datum
  | .int bits n => some (.int bits n)
  | .real x => some (.real x)
  | .address name =>
    match fr.memory name with
    | some (.text bytes) => some (.text bytes)
    | _ => none

/-- The temporary holds the word from now on. -/
def define (fr : Frame) (dst : Value) (w : Word) : Except Ending Frame :=
  match dst with
  | .temp name _ =>
    .ok { fr with temps := fun name' => if name' = name then some w else fr.temps name' }
  | _ => .error .stuck

end Frame

/-! ## Instructions -/

/-- A number as a word. Texts are not loaded. -/
def Datum.word? : Datum → Option Word
  | .int bits n => some (.int bits n)
  | .real x => some (.real x)
  | .text _ => none

/-- A word as what a global holds. Addresses are not stored. -/
def Word.datum? : Word → Option Datum
  | .int bits n => some (.int bits n)
  | .real x => some (.real x)
  | .address _ => none

/-- Two data of one sort: doubles, or integers of one width. -/
def Datum.alike : Datum → Datum → Bool
  | .int bits _, .int bits' _ => bits = bits'
  | .real _, .real _ => true
  | _, _ => false

def binaryInts {w : Nat} (op : BinaryOp) (x y : BitVec w) : Except Ending (BitVec w) :=
  match op with
  | .add => .ok (x + y)
  | .sub => .ok (x - y)
  | .mul => .ok (x * y)
  | .sdiv =>
    if y = 0#w ∨ x = .intMin w ∧ y = .allOnes w then .error .undefined else .ok (x.sdiv y)
  | .xor => .ok (x ^^^ y)
  | _ => .error .stuck

def binaryReals (env : Environment) (op : BinaryOp) (x y : Double) : Except Ending Double :=
  match op with
  | .fadd => .ok (env.calculate .add x y)
  | .fsub => .ok (env.calculate .sub x y)
  | .fmul => .ok (env.calculate .mul x y)
  | .fdiv => .ok (env.calculate .div x y)
  | _ => .error .stuck

def binaryWords (env : Environment) (op : BinaryOp) : Word → Word → Except Ending Word
  | .int w x, .int w' y =>
    if w = w' then (binaryInts op x (y.setWidth w)).map (.int w) else .error .stuck
  | .real x, .real y => (binaryReals env op x y).map .real
  | _, _ => .error .stuck

def IntCondition.holds {w : Nat} (c : IntCondition) (x y : BitVec w) : Bool :=
  match c with
  | .eq => x == y
  | .ne => x != y
  | .slt => x.slt y
  | .sgt => y.slt x
  | .sle => x.sle y
  | .sge => y.sle x

/-- The condition holds of two doubles that compare so. -/
def DoubleCondition.holds (c : DoubleCondition) (order : Option Ordering) : Bool :=
  match c with
  | .oeq => order = some .eq
  | .one => order = some .lt ∨ order = some .gt
  | .olt => order = some .lt
  | .ogt => order = some .gt
  | .ole => order = some .lt ∨ order = some .eq
  | .oge => order = some .gt ∨ order = some .eq

def icmpWords (c : IntCondition) : Word → Word → Except Ending Word
  | .int w x, .int w' y =>
    if w = w' then .ok (.int 1 (.ofBool (IntCondition.holds c x (y.setWidth w))))
    else .error .stuck
  | _, _ => .error .stuck

def fcmpWords (env : Environment) (c : DoubleCondition) : Word → Word → Except Ending Word
  | .real x, .real y => .ok (.int 1 (.ofBool (DoubleCondition.holds c (env.order x y))))
  | _, _ => .error .stuck

/-- A change of type. Addresses stay what they are, integers are widened by zeros. -/
def convert (op : Conversion) (type : Ty) : Word → Except Ending Word
  | .address name =>
    match op with
    | .bitcast => .ok (.address name)
    | .zext => .error .stuck
  | .int w x =>
    match op, type with
    | .zext, .int w' => if w < w' then .ok (.int w' (x.setWidth w')) else .error .stuck
    | _, _ => .error .stuck
  | .real _ => .error .stuck

def Frame.loaded (fr : Frame) (src : Value) : Except Ending Word :=
  match fr.word? src with
  | some (.address name) => orStuck ((fr.memory name).bind Datum.word?)
  | _ => .error .stuck

/-- The frame after a global was changed, which is seen. -/
def Frame.stored (fr : Frame) (v dst : Value) : Except Ending Frame :=
  match (fr.word? v).bind Word.datum?, fr.word? dst with
  | some d, some (.address name) =>
    match fr.memory name with
    | some old =>
      if old.alike d then
        .ok { fr with
          memory := fun name' => if name' = name then some d else fr.memory name'
          log := fr.log.assigned name d }
      else .error .stuck
    | none => .error .stuck
  | _, _ => .error .stuck

/-- What is seen of the arguments of a call. -/
def Frame.seenAll? (fr : Frame) (args : List Value) : Option (List Datum) :=
  args.mapM fun v => (fr.word? v).bind fr.seen?

def execute (env : Environment) (fr : Frame) : Instr → Except Ending Frame
  | .load dst src => do
    let w ← fr.loaded src
    fr.define dst w
  | .store v dst => fr.stored v dst
  | .binary dst op lhs rhs => do
    let l ← orStuck (fr.word? lhs)
    let r ← orStuck (fr.word? rhs)
    let w ← binaryWords env op l r
    fr.define dst w
  | .icmp dst c lhs rhs => do
    let l ← orStuck (fr.word? lhs)
    let r ← orStuck (fr.word? rhs)
    let w ← icmpWords c l r
    fr.define dst w
  | .fcmp dst c lhs rhs => do
    let l ← orStuck (fr.word? lhs)
    let r ← orStuck (fr.word? rhs)
    let w ← fcmpWords env c l r
    fr.define dst w
  | .cast dst op v => do
    let w ← orStuck (fr.word? v)
    let w ← convert op dst.type w
    fr.define dst w
  | .call dst callee args => do
    let ds ← orStuck (fr.seenAll? args)
    let answer : Word := .int 32 (env.answer fr.log.calls)
    let fr := { fr with log := fr.log.called callee.name ds }
    match dst with
    | some dst => fr.define dst answer
    | none => return fr

/-! ## Blocks -/

/-- Where a run is: in front of an instruction of a block, or of its terminator. -/
structure Config where
  block : BlockId
  position : Nat
  frame : Frame

def leave (fr : Frame) : Terminator → Except Ending Config
  | .br target => .ok ⟨target, 0, fr⟩
  | .condBr cond thenBlock elseBlock =>
    match fr.word? cond with
    | some (.int 1 b) => .ok ⟨if b = 1 then thenBlock else elseBlock, 0, fr⟩
    | _ => .error .stuck
  | .ret v =>
    match fr.word? v with
    | some (.int 32 n) => .error (.finished n)
    | _ => .error .stuck

/-- Runs the next instruction, or the terminator. -/
def step (env : Environment) (blocks : List Block) (c : Config) : Except Ending Config := do
  let block ← orStuck blocks[c.block.index]?
  match block.instrs[c.position]? with
  | some i =>
    let fr ← execute env c.frame i
    return ⟨c.block, c.position + 1, fr⟩
  | none =>
    let t ← orStuck block.terminator
    leave c.frame t

/-- Runs so many steps, or until the run ends. -/
def run (env : Environment) (blocks : List Block) : Nat → Config → Ending × List Observation
  | 0, c => (.unfinished, c.frame.log.trace)
  | n + 1, c =>
    match step env blocks c with
    | .ok c' => run env blocks n c'
    | .error e => (e, c.frame.log.trace)

/-! ## Modules -/

def initial : Initializer → Datum
  | .int bits n => .int bits (.ofInt bits n)
  | .double x => .real x
  | .bytes bs => .text bs

def initialMemory (globals : List Global) (name : String) : Option Datum :=
  (globals.find? (·.name = name)).map fun g => initial g.init

/-- The run of a function of a module from its first block, in so many steps. -/
def machine (env : Environment) (m : Module) (f : Function) : Behavior := fun n =>
  run env f.blocks n ⟨⟨0⟩, 0, ⟨fun _ => none, initialMemory m.globals, .empty⟩⟩

end Pseudocode.Execution
