import Pseudocode.Proofs.Lowering.Building

/-! # Renamed modules

* `Module.rename`: the module with other names of globals, where they are defined and where they
  are used. Functions, blocks and temporaries keep their names.
* `Draft.rename`: the same of a module in the making, whose variables get other names as well.
* `Draft.rename_define`, `Draft.rename_merge` and so on: each operation on drafts can be done
  before a renaming or after it. Only the operations that make up a name are missing here.
-/

namespace Pseudocode

open Assembly

/-! ## Modules -/

namespace Assembly

section

variable (σ : String → String)

def Value.rename : Value → Value
  | .global name type => .global (σ name) type
  | v => v

def Instr.rename : Instr → Instr
  | .load dst src => .load (dst.rename σ) (src.rename σ)
  | .store value dst => .store (value.rename σ) (dst.rename σ)
  | .binary dst op lhs rhs => .binary (dst.rename σ) op (lhs.rename σ) (rhs.rename σ)
  | .icmp dst pred lhs rhs => .icmp (dst.rename σ) pred (lhs.rename σ) (rhs.rename σ)
  | .fcmp dst pred lhs rhs => .fcmp (dst.rename σ) pred (lhs.rename σ) (rhs.rename σ)
  | .cast dst op value => .cast (dst.rename σ) op (value.rename σ)
  | .call dst callee args => .call (dst.map (Value.rename σ)) callee (args.map (Value.rename σ))

def Terminator.rename : Terminator → Terminator
  | .condBr cond thenBlock elseBlock => .condBr (cond.rename σ) thenBlock elseBlock
  | .ret value => .ret (value.rename σ)
  | t => t

def Block.rename (b : Block) : Block :=
  ⟨b.instrs.map (Instr.rename σ), b.terminator.map (Terminator.rename σ)⟩

def Function.rename (f : Function) : Function := { f with blocks := f.blocks.map (Block.rename σ) }

def Global.rename (g : Global) : Global := { g with name := σ g.name }

def Module.rename (m : Module) : Module :=
  .ofLists (m.globals.map (Global.rename σ)) (m.functions.map (Function.rename σ))

end

@[simp] theorem Value.type_rename (σ : String → String) (v : Value) :
    (v.rename σ).type = v.type := by
  cases v <;> rfl

end Assembly

/-! ## Drafts -/

/-- The binding of a renamed variable. -/
def Binding.rename (σ : String → String) (b : Binding) : Binding :=
  { b with storage := b.storage.rename σ }

def Event.rename (r σ : String → String) : Event → Event
  | .stringAdded address => .stringAdded (address.rename σ)
  | .declaredVariable name storage => .declaredVariable (r name) (storage.rename σ)
  | .ignoredDeclaration name type => .ignoredDeclaration (r name) type
  | e => e

namespace Lowering

open Typing

theorem map_modify {α β : Type} (h : α → β) {f : α → α} {g : β → β}
    (same : ∀ a, h (f a) = g (h a)) (l : List α) (i : Nat) :
    (l.modify i f).map h = (l.map h).modify i g := by
  apply List.ext_getElem?
  intro j
  simp only [List.getElem?_map, List.getElem?_modify]
  cases l[j]? with
  | none => rfl
  | some a =>
    simp only [Option.map_some]
    split <;> simp [same]

namespace Draft

/-- The draft with other names of variables and of globals. -/
def rename (r σ : String → String) (d : Draft) : Draft where
  globals := d.globals.map (Global.rename σ)
  bindings := d.bindings.map fun entry => (r entry.1, entry.2.rename σ)
  depth := d.depth
  blocks := d.blocks.map (Block.rename σ)
  block := d.block
  temps := d.temps
  strings := d.strings
  events := d.events.map (Event.rename r σ)

variable (r σ : String → String) (d d' : Draft) (v : Value) (κ κ' : Kind)

/-! Names of globals are neither made up nor looked up by what follows. -/

theorem rename_ahead (count : Nat) : (d.rename r σ).ahead count = d.ahead count := by
  simp [ahead, rename]

theorem rename_extend (code : List Instr) (b : Block) :
    (extend code b).rename σ = extend (code.map (Instr.rename σ)) (b.rename σ) := by
  simp [extend, Block.rename]

theorem rename_push (i : Instr) : (d.push i).rename r σ = (d.rename r σ).push (i.rename σ) := by
  simp only [push, rename, map_modify _ (rename_extend σ [i])]
  rfl

/-- The instruction is renamed apart from its result, which is a temporary. -/
theorem rename_define (t : Ty) {instr instr' : Value → Instr}
    (same : (instr (d.next t)).rename σ = instr' (d.next t)) :
    (d.define t instr).rename r σ = (d.rename r σ).define t instr' := by
  have pushed := rename_push r σ d (instr (d.next t))
  rw [same] at pushed
  exact congrArg (fun draft : Draft => { draft with temps := d.temps + 1 }) pushed

theorem rename_terminate (b : BlockId) (t : Terminator) :
    (d.terminate b t).rename r σ = (d.rename r σ).terminate b (t.rename σ) := by
  have blocks := map_modify (Block.rename σ) (f := fun block => { block with terminator := some t })
    (g := fun block => { block with terminator := some (t.rename σ) }) (fun _ => rfl) d.blocks
  simp only [terminate, rename, blocks]

theorem rename_enter (b : BlockId) : (d.enter b).rename r σ = (d.rename r σ).enter b := rfl

theorem rename_addBlock : d.addBlock.rename r σ = (d.rename r σ).addBlock := by
  simp [addBlock, rename, Event.rename, Block.rename, Block.empty]

theorem rename_openScope : d.openScope.rename r σ = (d.rename r σ).openScope := by
  simp [openScope, rename, Event.rename]

theorem rename_closeScope : d.closeScope.rename r σ = (d.rename r σ).closeScope := by
  simp [closeScope, rename, Event.rename]

theorem rename_tell (e : Event) :
    (d.tell e).rename r σ = (d.rename r σ).tell (e.rename r σ) := by
  simp [tell, rename]

theorem rename_jump (t : Terminator) (b : BlockId) :
    (d.jump t b).rename r σ = (d.rename r σ).jump (t.rename σ) b := by
  rw [jump, rename_enter, rename_terminate]
  rfl

/-! ## Operands and arguments -/

theorem rename_widened :
    (d.widened κ κ' v).rename σ = (d.rename r σ).widened κ κ' (v.rename σ) := by
  unfold widened
  split <;> rfl

theorem rename_widen :
    (d.widen κ κ' v).rename r σ = (d.rename r σ).widen κ κ' (v.rename σ) := by
  unfold widen
  split
  · exact rename_define r σ d _ rfl
  · rfl

theorem rename_passed : (d.passed κ v).rename σ = (d.rename r σ).passed κ (v.rename σ) := by
  cases κ <;> rfl

theorem rename_pass : (d.pass κ v).rename r σ = (d.rename r σ).pass κ (v.rename σ) := by
  unfold pass
  split
  · exact rename_define r σ d _ rfl
  · exact rename_define r σ d _ rfl
  · rfl

/-- Values with their kinds. -/
def renameAll (vs : List (Kind × Value)) : List (Kind × Value) :=
  vs.map fun v => (v.1, v.2.rename σ)

theorem rename_passAll (vs : List (Kind × Value)) :
    (d.passAll vs).rename r σ = (d.rename r σ).passAll (renameAll σ vs) := by
  induction vs generalizing d with
  | nil => rfl
  | cons v vs ih =>
    exact (ih (d.pass v.1 v.2)).trans (congrArg (passAll · _) (rename_pass r σ d _ _))

theorem rename_passedAll (vs : List (Kind × Value)) :
    (d.passedAll vs).map (Value.rename σ) = (d.rename r σ).passedAll (renameAll σ vs) := by
  induction vs generalizing d with
  | nil => rfl
  | cons v vs ih =>
    show _ :: _ = _ :: _
    rw [rename_passed r, ih, rename_pass]
    rfl

theorem rename_called (f : Signature) (args : List Value) :
    (d.called f args).rename r σ = (d.rename r σ).called f (args.map (Value.rename σ)) :=
  rename_define r σ d _ rfl

theorem rename_printed (format : Value) :
    (d.printed format v).rename r σ = (d.rename r σ).printed (format.rename σ) (v.rename σ) := by
  have first : (d.define .bytePtr (.cast · .bitcast format)).rename r σ =
      (d.rename r σ).define .bytePtr (.cast · .bitcast (format.rename σ)) :=
    rename_define r σ d _ rfl
  rw [printed, rename_called, first]
  rfl

/-! ## Branches and loops -/

theorem rename_branch : d.branch.rename r σ = (d.rename r σ).branch := by
  rw [branch, rename_openScope, rename_enter, rename_addBlock, rename_addBlock, rename_addBlock,
    ← rename_ahead r σ]
  rfl

theorem rename_otherwise :
    (d.otherwise d').rename r σ = (d.rename r σ).otherwise (d'.rename r σ) := by
  rw [otherwise, rename_openScope, rename_jump, rename_closeScope]
  simp only [Terminator.rename, ← rename_ahead r σ d]
  rfl

theorem rename_merge :
    (d.merge d' v).rename r σ = (d.rename r σ).merge (d'.rename r σ) (v.rename σ) := by
  rw [merge, rename_enter, rename_terminate, rejoin, rename_terminate, rename_closeScope]
  simp only [Terminator.rename, ← rename_ahead r σ d]
  rfl

theorem rename_loop : d.loop.rename r σ = (d.rename r σ).loop := by
  rw [loop, rename_openScope, rename_jump, rename_addBlock, rename_addBlock, rename_addBlock,
    ← rename_ahead r σ]
  rfl

theorem rename_loopBody :
    (d.loopBody d' v).rename r σ = (d.rename r σ).loopBody (d'.rename r σ) (v.rename σ) := by
  rw [loopBody, rename_jump]
  simp only [Terminator.rename, ← rename_ahead r σ d]
  rfl

theorem rename_endLoop :
    (d.endLoop d').rename r σ = (d.rename r σ).endLoop (d'.rename r σ) := by
  rw [endLoop, rename_enter, rename_closeScope, rename_terminate]
  simp only [Terminator.rename, ← rename_ahead r σ d]
  rfl

theorem rename_again : d.again.rename r σ = (d.rename r σ).again := by
  rw [again, rename_openScope, rename_jump, rename_addBlock, rename_addBlock, ← rename_ahead r σ]
  rfl

theorem rename_endAgain :
    (d.endAgain d' v).rename r σ = (d.rename r σ).endAgain (d'.rename r σ) (v.rename σ) := by
  rw [endAgain, rename_enter, rename_closeScope, rename_terminate]
  simp only [Terminator.rename, ← rename_ahead r σ d]
  rfl

theorem rename_finished : d.finished.rename r σ = (d.rename r σ).finished :=
  rename_terminate r σ d _ _

theorem rename_target : (d.rename r σ).target = d.target.rename σ := by
  simp [target, Assembly.Module.ofLists, Assembly.Module.rename, rename, main, Function.rename,
    Function.declared, builtins]

end Draft

/-! ## Instructions -/

variable (σ : String → String) (κ : Kind)

theorem rename_operatorInstr (op : Operator) (lhs rhs dst : Value) :
    (operatorInstr op κ lhs rhs dst).rename σ =
      operatorInstr op κ (lhs.rename σ) (rhs.rename σ) (dst.rename σ) := by
  cases op <;> cases κ <;> rfl

theorem rename_negateInstr (v dst : Value) :
    (negateInstr κ v dst).rename σ = negateInstr κ (v.rename σ) (dst.rename σ) := by
  cases κ <;> rfl

end Lowering

end Pseudocode
