import Mathlib.Data.List.Perm.Basic
import Pseudocode.Assembly.Module

/-! # Rules for instructions

What the instructions of a function have to be like, whoever made them.

* `Instr.WellTyped`, `Terminator.WellTyped`: the types of operands and results fit. Nothing
  but the instruction itself is looked at.
* `WellTyped m f`: besides, whatever the function `f` names is there in the module `m`, and
  no constant is written to.
* `SingleAssignment f`: each result has a name of its own, is used behind the instruction
  that gives it, and only in the same block.
* `Fits globals code i`: the instruction may stand behind the instructions `code`. Code that is
  built from such instructions (`Sound`) keeps all of these rules.
-/

namespace Pseudocode.Assembly

/-! ## Operands and results -/

def Instr.operands : Instr → List Value
  | .load _ src => [src]
  | .store value dst => [value, dst]
  | .binary _ _ lhs rhs => [lhs, rhs]
  | .icmp _ _ lhs rhs => [lhs, rhs]
  | .fcmp _ _ lhs rhs => [lhs, rhs]
  | .cast _ _ value => [value]
  | .call _ _ args => args

/-- The value that the instruction defines. -/
def Instr.result? : Instr → Option Value
  | .load dst _ => some dst
  | .store _ _ => none
  | .binary dst _ _ _ => some dst
  | .icmp dst _ _ _ => some dst
  | .fcmp dst _ _ _ => some dst
  | .cast dst _ _ => some dst
  | .call dst _ _ => dst

def Terminator.operands : Terminator → List Value
  | .br _ => []
  | .condBr cond _ _ => [cond]
  | .ret value => [value]

def Value.tempName? : Value → Option String
  | .temp name _ => some name
  | _ => none

def Instr.resultName? (i : Instr) : Option String := i.result?.bind Value.tempName?

/-! ## Types -/

/-- The operation has operands and a result of the type. -/
def BinaryOp.WorksOn (op : BinaryOp) (t : Ty) : Prop :=
  match op with
  | .add | .sub | .mul | .sdiv | .xor => ∃ bits, t = .int bits
  | .fadd | .fsub | .fmul | .fdiv => t = .double

/-- A value of the type may be passed where there is no parameter. -/
def Ty.Promoted (t : Ty) : Prop := (∃ bits, t = .int bits ∧ 32 ≤ bits) ∨ t = .double ∨ t = .bytePtr

/-- A call of the function may have arguments of these types. -/
def Signature.Admits (f : Signature) (args : List Ty) : Prop :=
  ∃ more, args = f.params ++ more ∧ (more ≠ [] → f.variadic = true) ∧ ∀ t ∈ more, t.Promoted

/-- The types of the operands and of the result are those that the instruction asks for. -/
inductive Instr.WellTyped : Instr → Prop where
  | load {dst src : Value} (address : src.type = .ptr dst.type) (scalar : dst.type.isArray = false) :
      WellTyped (.load dst src)
  | store {value dst : Value} (address : dst.type = .ptr value.type) : WellTyped (.store value dst)
  | binary {dst lhs rhs : Value} {op : BinaryOp} (works : op.WorksOn dst.type)
      (left : lhs.type = dst.type) (right : rhs.type = dst.type) :
      WellTyped (.binary dst op lhs rhs)
  | icmp {dst lhs rhs : Value} {pred : IntCondition} {bits : Nat} (left : lhs.type = .int bits)
      (right : rhs.type = .int bits) (result : dst.type = .i1) : WellTyped (.icmp dst pred lhs rhs)
  | fcmp {dst lhs rhs : Value} {pred : DoubleCondition} (left : lhs.type = .double)
      (right : rhs.type = .double) (result : dst.type = .i1) : WellTyped (.fcmp dst pred lhs rhs)
  | zext {dst value : Value} {narrow wide : Nat} (operand : value.type = .int narrow)
      (result : dst.type = .int wide) (wider : narrow < wide) : WellTyped (.cast dst .zext value)
  | bitcast {dst value : Value} (operand : value.type.isPointer = true)
      (result : dst.type.isPointer = true) : WellTyped (.cast dst .bitcast value)
  | call {dst : Value} {f : Signature} {args : List Value} (result : dst.type = f.result)
      (admitted : f.Admits (args.map Value.type)) : WellTyped (.call (some dst) f args)

/-- A condition is a truth value, and a function with the result type returns one of it. -/
def Terminator.WellTyped (result : Ty) : Terminator → Prop
  | .br _ => True
  | .condBr cond _ _ => cond.type = .i1
  | .ret value => value.type = result

/-! ## Functions -/

/-- Every operand that a function has, in instructions and at the ends of blocks. -/
def Function.operands (f : Function) : List Value :=
  f.blocks.flatMap fun block =>
    block.instrs.flatMap Instr.operands ++ block.terminator.elim [] Terminator.operands

/-- The instructions of the function fit their types and the module that it is in. -/
structure WellTyped (m : Module) (f : Function) : Prop where
  instrs : ∀ block ∈ f.blocks, ∀ i ∈ block.instrs, i.WellTyped
  ends : ∀ block ∈ f.blocks, ∀ t ∈ block.terminator, t.WellTyped f.signature.result
  /-- An address of a global is that of one there is, also in its type. -/
  globals : ∀ name t, .global name t ∈ f.operands → ∃ g ∈ m.globals, g.address = .global name t
  /-- What is called is declared just as it is called. -/
  callees : ∀ block ∈ f.blocks, ∀ dst callee args, .call dst callee args ∈ block.instrs →
    m.functionNamed? callee.name = some (.declared callee)
  /-- What is written to is a global, and none that is constant has its name. -/
  stores : ∀ block ∈ f.blocks, ∀ value dst, .store value dst ∈ block.instrs →
    ∃ name t, dst = .global name t ∧ ∀ g ∈ m.globals, g.name = name → g.constant = false

/-- The names of the results in the blocks, once for each instruction that has one. -/
def resultNames (blocks : List Block) : List String :=
  blocks.flatMap fun block => block.instrs.filterMap Instr.resultName?

def Function.labels (f : Function) : List String :=
  (List.range f.blocks.length).map fun i => BlockId.label ⟨i⟩

/-- Every name in the function is given once, and a result is used only behind the
    instruction that gives it, in the same block and with the type it has there. -/
structure SingleAssignment (f : Function) : Prop where
  results : ∀ block ∈ f.blocks, ∀ i ∈ block.instrs, ∀ v ∈ i.result?, ∃ name t, v = .temp name t
  distinct : (resultNames f.blocks ++ f.labels).Nodup
  operands : ∀ block ∈ f.blocks, ∀ before i after, block.instrs = before ++ i :: after →
    ∀ name t, .temp name t ∈ i.operands → ∃ j ∈ before, j.result? = some (.temp name t)
  ends : ∀ block ∈ f.blocks, ∀ e ∈ block.terminator, ∀ name t, .temp name t ∈ e.operands →
    ∃ i ∈ block.instrs, i.result? = some (.temp name t)

/-! ## Code -/

/-- The value may be used behind the code: if it is the address of a global, that is one of
    these, if it is a result, the code gives it, and if it is a constant of one bit, it is zero
    or one. -/
def Usable (globals : List Global) (code : List Instr) : Value → Prop
  | .int bits n => bits = 1 → n = 0 ∨ n = 1
  | .double _ => True
  | .global name t => ∃ g ∈ globals, g.address = .global name t
  | .temp name t => ∃ i ∈ code, i.result? = some (.temp name t)

theorem Usable.mono {globals globals' : List Global} {code code' : List Instr} {v : Value}
    (usable : Usable globals code v) (more : globals ⊆ globals') (longer : code <+: code') :
    Usable globals' code' v := by
  cases v with
  | global name t =>
    obtain ⟨g, member, same⟩ := usable
    exact ⟨g, more member, same⟩
  | temp name t =>
    obtain ⟨i, member, same⟩ := usable
    exact ⟨i, longer.subset member, same⟩
  | int => exact usable
  | double => trivial

theorem usable_i32 (globals : List Global) (code : List Instr) (n : Int32) :
    Usable globals code (.i32 n) := nofun

theorem usable_bool (globals : List Global) (code : List Instr) (b : Bool) :
    Usable globals code (.bool b) := by
  intro
  cases b
  · exact .inl rfl
  · exact .inr rfl

theorem usable_address {globals : List Global} {g : Global} (member : g ∈ globals)
    (code : List Instr) : Usable globals code g.address :=
  ⟨g, member, rfl⟩

section Code

variable (callees : List Signature) (globals : List Global)

/-- The instruction may stand behind the code. -/
structure Fits (code : List Instr) (i : Instr) : Prop where
  typed : i.WellTyped
  operands : ∀ v ∈ i.operands, Usable globals code v
  result : ∀ v ∈ i.result?, ∃ name t, v = .temp name t
  callee : ∀ dst f args, i = .call dst f args → f ∈ callees
  target : ∀ value dst, i = .store value dst → ∃ g ∈ globals, g.constant = false ∧ dst = g.address

/-- Each instruction fits behind those in front of it. -/
def Sound (code : List Instr) : Prop :=
  ∀ before i after, code = before ++ i :: after → Fits callees globals before i

variable {callees globals}

theorem Fits.mono {globals' : List Global} {code : List Instr} {i : Instr}
    (fits : Fits callees globals code i) (more : globals ⊆ globals') :
    Fits callees globals' code i where
  typed := fits.typed
  operands v member := (fits.operands v member).mono more List.prefix_rfl
  result := fits.result
  callee := fits.callee
  target value dst same := by
    obtain ⟨g, member, changing, address⟩ := fits.target value dst same
    exact ⟨g, more member, changing, address⟩

theorem sound_nil : Sound callees globals [] := by
  intro before i after same
  simp at same

theorem Sound.mono {globals' : List Global} {code : List Instr}
    (sound : Sound callees globals code) (more : globals ⊆ globals') :
    Sound callees globals' code :=
  fun before i after same => (sound before i after same).mono more

theorem Sound.push {code : List Instr} {i : Instr} (sound : Sound callees globals code)
    (fits : Fits callees globals code i) : Sound callees globals (code ++ [i]) := by
  intro before j after same
  rcases List.eq_nil_or_concat after with rfl | ⟨after, last, rfl⟩
  · obtain ⟨rfl, ⟨⟩⟩ := List.append_inj' same rfl
    exact fits
  · rw [List.concat_eq_append, ← List.cons_append, ← List.append_assoc] at same
    exact sound before j after (List.append_inj' same rfl).1

theorem Sound.fits {code : List Instr} {i : Instr} (sound : Sound callees globals code)
    (member : i ∈ code) : ∃ before, Fits callees globals before i := by
  obtain ⟨before, after, same⟩ := List.append_of_mem member
  exact ⟨before, sound before i after same⟩

end Code

/-! ## Names -/

theorem resultNames_append (blocks blocks' : List Block) :
    resultNames (blocks ++ blocks') = resultNames blocks ++ resultNames blocks' :=
  List.flatMap_append

theorem resultNames_cons (block : Block) (blocks : List Block) :
    resultNames (block :: blocks) = block.instrs.filterMap Instr.resultName? ++ resultNames blocks :=
  rfl

/-- A change to one block that keeps its instructions gives no name. -/
theorem resultNames_modify {f : Block → Block} (same : ∀ block, (f block).instrs = block.instrs)
    (blocks : List Block) (i : Nat) : resultNames (blocks.modify i f) = resultNames blocks := by
  induction blocks generalizing i with
  | nil => simp
  | cons block blocks ih =>
    cases i with
    | zero => simp [resultNames_cons, same]
    | succ i => simp [resultNames_cons, ih]

/-- Instructions that are added to one block give their names and no others. -/
theorem resultNames_extend {f : Block → Block} {code : List Instr}
    (longer : ∀ block, (f block).instrs = block.instrs ++ code) {blocks : List Block} {i : Nat}
    (exist : i < blocks.length) :
    (resultNames (blocks.modify i f)).Perm
      (resultNames blocks ++ code.filterMap Instr.resultName?) := by
  induction blocks generalizing i with
  | nil => simp at exist
  | cons block blocks ih =>
    cases i with
    | zero =>
      simp only [List.modify_zero_cons, resultNames_cons, longer, List.filterMap_append,
        List.append_assoc]
      exact List.perm_append_comm.append_left _
    | succ i =>
      simp only [List.modify_succ_cons, resultNames_cons, List.append_assoc]
      exact (ih (Nat.lt_of_succ_lt_succ exist)).append_left _

end Pseudocode.Assembly
