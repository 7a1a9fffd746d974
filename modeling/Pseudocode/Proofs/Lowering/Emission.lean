import Mathlib.Data.List.Forall2
import Pseudocode.Proofs.Lowering.Names
import Pseudocode.Proofs.Typing.Check

/-! # What an expression becomes

`Emits d e κ v d'` says that the expression `e`, which is of kind `κ`, is lowered from the
draft `d` to the value `v` and leaves the draft `d'`. There is one rule for each form
of expression; operands are brought to one kind and arguments to types that can be
passed by the same two operations everywhere, `Draft.widen` and `Draft.pass`.

* `Straight d code d'`: from `d` to `d'` only the instructions `code` were added, at the
  end of the current block, and constants (`Emits.straight`).
* `expression_follows`: the lowering of an expression succeeds by these rules exactly
  when no breach of the static rules is found in it, and otherwise fails with the
  first breach.
-/

namespace Pseudocode.Lowering

open Assembly Typing

/-! ## Operands and arguments -/

namespace Draft

/-- A value of the kind `κ` next to one of the kind `κ'`. -/
def widened (d : Draft) (κ κ' : Kind) (v : Value) : Value :=
  match κ, κ' with
  | .bool, .int => d.next .i32
  | _, _ => v

/-- A truth value that is worked on as a whole number is widened. -/
def widen (d : Draft) (κ κ' : Kind) (v : Value) : Draft :=
  match κ, κ' with
  | .bool, .int => d.define .i32 (.cast · .zext v)
  | _, _ => d

/-- A value of the kind as an argument. -/
def passed (d : Draft) (κ : Kind) (v : Value) : Value :=
  match κ with
  | .text _ => d.next .bytePtr
  | .bool => d.next .i32
  | _ => v

/-- A text is passed as the address of bytes, a truth value as a whole number. -/
def pass (d : Draft) (κ : Kind) (v : Value) : Draft :=
  match κ with
  | .text _ => d.define .bytePtr (.cast · .bitcast v)
  | .bool => d.define .i32 (.cast · .zext v)
  | _ => d

def passedAll (d : Draft) : List (Kind × Value) → List Value
  | [] => []
  | (κ, v) :: vs => d.passed κ v :: (d.pass κ v).passedAll vs

/-- The values are brought to types that can be passed, from left to right. -/
def passAll (d : Draft) : List (Kind × Value) → Draft
  | [] => d
  | (κ, v) :: vs => (d.pass κ v).passAll vs

end Draft

def operatorInstr (op : Operator) (κ : Kind) (lhs rhs dst : Value) : Instr :=
  match op, κ with
  | .compare c, .real => .fcmp dst (doubleCondition c) lhs rhs
  | .compare c, _ => .icmp dst (intCondition c) lhs rhs
  | .arithmetic a, .real => .binary dst (doubleOp a) lhs rhs
  | .arithmetic a, _ => .binary dst (intOp a) lhs rhs

def negateInstr (κ : Kind) (v dst : Value) : Instr :=
  match κ with
  | .real => .binary dst .fsub (.double .zero) v
  | _ => .binary dst .sub (.i32 0) v

def builtin? (name : String) : Option Signature :=
  (builtins.map fun f => (f.name, f)).lookup name

/-! ## Expressions -/

mutual

/-- The expression of the kind becomes the value. -/
inductive Emits : Draft → Expression → Kind → Value → Draft → Prop where
  | bool {d : Draft} (b : Bool) : Emits d (.constant (.bool b)) .bool (.bool b) d
  | integer {d : Draft} (n : Int32) : Emits d (.constant (.integer n)) .int (.i32 n) d
  | real {d : Draft} (x : Double) : Emits d (.constant (.real x)) .real (.double x) d
  | string {d : Draft} (s : String) :
      Emits d (.constant (.string s)) (.text (s.utf8ByteSize + 1)) (d.literal s).address
        (d.addString s)
  | text {d : Draft} {k : Key} {b : Binding} {size : Nat}
      (found : d.bindings.lookup k.firstName = some b)
      (held : b.storage.type = .ptr (.array size .i8)) :
      Emits d (.key k) (.text size) b.storage d
  | load {d : Draft} {k : Key} {b : Binding} {κ : Kind}
      (found : d.bindings.lookup k.firstName = some b) (held : b.storage.type = .ptr κ.ty)
      (scalar : κ.isText = false) :
      Emits d (.key k) κ (d.next κ.ty) (d.define κ.ty (.load · b.storage))
  | parenthesized {d d' : Draft} {e : Expression} {κ : Kind} {v : Value}
      (inner : Emits d e κ v d') : Emits d (.parenthesized e) κ v d'
  | not {d d' : Draft} {pos : Position} {e : Expression} {v : Value}
      (operand : Emits d e .bool v d') :
      Emits d (.not pos e) .bool (d'.next .i1) (d'.define .i1 (.binary · .xor v (.bool true)))
  | negate {d d' : Draft} {pos : Position} {e : Expression} {κ : Kind} {v : Value}
      (operand : Emits d e κ v d') (signed : κ = .int ∨ κ = .real) :
      Emits d (.negate pos e) κ (d'.next κ.ty) (d'.define κ.ty (negateInstr κ v))
  | binary {d d₁ d₂ d₃ d₄ : Draft} {op : Operator} {pos : Position} {l r : Expression}
      {κl κr κ : Kind} {vl vr : Value} (left : Emits d l κl vl d₁) (right : Emits d₁ r κr vr d₂)
      (joined : κl.join? κr = some κ) (widenLeft : d₃ = d₂.widen κl κ vl)
      (widenRight : d₄ = d₃.widen κr κ vr) :
      Emits d (.binary op pos l r) (resultKind op κ) (d₄.next (resultKind op κ).ty)
        (d₄.define (resultKind op κ).ty
          (operatorInstr op κ (d₂.widened κl κ vl) (d₃.widened κr κ vr)))
  | call {d d₁ d₂ : Draft} {pos : Position} {name : String} {es : List Expression}
      {vs : List (Kind × Value)} {f : Signature} (args : EmitsAll d es vs d₁)
      (admitted : callKind pos name (vs.map Prod.fst) = .ok .int)
      (known : builtin? name = some f) (passed : d₂ = d₁.passAll vs) :
      Emits d (.call pos name es) .int (d₂.next .i32)
        (d₂.define .i32 fun dst => .call (some dst) f (d₁.passedAll vs))

/-- The expressions become the values, each with its kind. -/
inductive EmitsAll : Draft → List Expression → List (Kind × Value) → Draft → Prop where
  | nil {d : Draft} : EmitsAll d [] [] d
  | cons {d d₁ d₂ : Draft} {e : Expression} {es : List Expression} {κ : Kind} {v : Value}
      {vs : List (Kind × Value)} (head : Emits d e κ v d₁) (tail : EmitsAll d₁ es vs d₂) :
      EmitsAll d (e :: es) ((κ, v) :: vs) d₂

end

/-! ## Straight-line code -/

/-- From one draft to the other only the instructions were added, at the end of the
    current block, and globals that are constant. -/
structure Straight (d : Draft) (code : List Instr) (d' : Draft) : Prop where
  bindings : d'.bindings = d.bindings
  depth : d'.depth = d.depth
  block : d'.block = d.block
  blocks : d'.blocks = d.blocks.modify d.block.index (Draft.extend code)
  globals : ∃ gs, d'.globals = d.globals ++ gs ∧ ∀ g ∈ gs, g.constant = true
  names : (d.globals.map Global.name).Nodup → (d'.globals.map Global.name).Nodup
  temps : d.temps ≤ d'.temps

namespace Straight

theorem refl (d : Draft) : Straight d [] d where
  bindings := rfl
  depth := rfl
  block := rfl
  blocks := by simp [List.modify_id]
  globals := ⟨[], by simp⟩
  names := id
  temps := Nat.le_refl _

theorem trans {d d₁ d₂ : Draft} {code code₁ : List Instr} (first : Straight d code d₁)
    (second : Straight d₁ code₁ d₂) : Straight d (code ++ code₁) d₂ where
  bindings := second.bindings.trans first.bindings
  depth := second.depth.trans first.depth
  block := second.block.trans first.block
  blocks := by
    rw [second.blocks, first.block, first.blocks, List.modify_modify_eq]
    simp [Draft.extend_comp]
  globals := by
    obtain ⟨gs, added, constant⟩ := first.globals
    obtain ⟨gs₁, added₁, constant₁⟩ := second.globals
    refine ⟨gs ++ gs₁, by rw [added₁, added, List.append_assoc], ?_⟩
    intro g member
    exact (List.mem_append.mp member).elim (constant g) (constant₁ g)
  names := second.names ∘ first.names
  temps := Nat.le_trans first.temps second.temps

theorem define (d : Draft) (t : Ty) (instr : Value → Instr) :
    Straight d [instr (d.next t)] (d.define t instr) where
  bindings := rfl
  depth := rfl
  block := rfl
  blocks := rfl
  globals := ⟨[], by simp [Draft.define, Draft.push]⟩
  names := id
  temps := Nat.le_succ _

theorem addString (d : Draft) (text : String) : Straight d [] (d.addString text) where
  bindings := rfl
  depth := rfl
  block := rfl
  blocks := by simp [Draft.addString, List.modify_id]
  globals := ⟨[d.literal text], rfl, by simp [Draft.literal, Draft.newGlobal, Module.newGlobal]⟩
  names := nodup_addGlobal d _ _ _
  temps := Nat.le_refl _

theorem globals_prefix {d d' : Draft} {code : List Instr} (added : Straight d code d') :
    d.globals <+: d'.globals := by
  obtain ⟨more, same, -⟩ := added.globals
  exact ⟨more, same.symm⟩

theorem isOpen {d d' : Draft} {code : List Instr} (added : Straight d code d')
    (h : Draft.IsOpen d.blocks d.block) : Draft.IsOpen d'.blocks d'.block := by
  obtain ⟨block, found, taking⟩ := h
  refine ⟨Draft.extend code block, ?_, taking⟩
  rw [added.blocks, added.block, List.getElem?_modify_eq, found]
  rfl

/-- The two drafts tell what was added. -/
theorem code_unique {d d' : Draft} {code code' : List Instr} (first : Straight d code d')
    (second : Straight d code' d') (h : Draft.IsOpen d.blocks d.block) : code = code' := by
  obtain ⟨block, found, -⟩ := h
  have same := congrArg (·[d.block.index]?) (first.blocks.symm.trans second.blocks)
  simpa [found, Draft.extend] using same

theorem widen (d : Draft) (κ κ' : Kind) (v : Value) : ∃ code, Straight d code (d.widen κ κ' v) := by
  unfold Draft.widen
  split
  · exact ⟨_, define d _ _⟩
  · exact ⟨_, refl d⟩

/-- Two operands are brought to one kind. -/
theorem widenBoth (d : Draft) (κl κr κ : Kind) (l r : Value) :
    ∃ code, Straight d code ((d.widen κl κ l).widen κr κ r) := by
  obtain ⟨code, wide⟩ := widen d κl κ l
  obtain ⟨code₁, wide₁⟩ := widen (d.widen κl κ l) κr κ r
  exact ⟨_, wide.trans wide₁⟩

theorem pass (d : Draft) (κ : Kind) (v : Value) : ∃ code, Straight d code (d.pass κ v) := by
  cases κ with
  | text _ => exact ⟨_, define d _ (.cast · .bitcast v)⟩
  | bool => exact ⟨_, define d _ (.cast · .zext v)⟩
  | int | real => exact ⟨_, refl d⟩

theorem passAll (d : Draft) (vs : List (Kind × Value)) :
    ∃ code, Straight d code (d.passAll vs) := by
  induction vs generalizing d with
  | nil => exact ⟨_, refl d⟩
  | cons v vs ih =>
    obtain ⟨code, first⟩ := pass d v.1 v.2
    obtain ⟨code₁, second⟩ := ih (d.pass v.1 v.2)
    exact ⟨_, first.trans second⟩

end Straight

mutual

/-- An expression becomes straight-line code. -/
theorem Emits.straight {d d' : Draft} {e : Expression} {κ : Kind} {v : Value} :
    Emits d e κ v d' → ∃ code, Straight d code d'
  | .bool _ | .integer _ | .real _ | .text _ _ => ⟨_, .refl d⟩
  | .string s => ⟨_, .addString d s⟩
  | .load _ _ _ => ⟨_, .define d _ _⟩
  | .parenthesized inner => inner.straight
  | .not operand | .negate operand _ => by
    obtain ⟨code, inner⟩ := operand.straight
    exact ⟨_, inner.trans (.define _ _ _)⟩
  | .binary left right _ widenLeft widenRight => by
    obtain ⟨codeLeft, left⟩ := left.straight
    obtain ⟨codeRight, right⟩ := right.straight
    obtain ⟨codeWide, wide⟩ := Straight.widenBoth _ _ _ _ _ _
    rw [← widenLeft, ← widenRight] at wide
    exact ⟨_, ((left.trans right).trans wide).trans (.define _ _ _)⟩
  | .call args _ _ passed => by
    obtain ⟨codeArgs, args⟩ := args.straight
    obtain ⟨codePass, pass⟩ := Straight.passAll _ _
    rw [← passed] at pass
    exact ⟨_, (args.trans pass).trans (.define _ _ _)⟩

theorem EmitsAll.straight {d d' : Draft} {es : List Expression} {vs : List (Kind × Value)} :
    EmitsAll d es vs d' → ∃ code, Straight d code d'
  | .nil => ⟨_, .refl d⟩
  | .cons head tail => by
    obtain ⟨codeHead, head⟩ := head.straight
    obtain ⟨codeTail, tail⟩ := tail.straight
    exact ⟨_, head.trans tail⟩

end

/-! ## Types of values -/

theorem type_ofText (text : String) :
    (Initializer.ofText text).type = .array (text.utf8ByteSize + 1) .i8 := by
  simp [Initializer.ofText, Initializer.type]

/-- The value of an expression is of the type that its kind has. -/
theorem Emits.type_eq {d d' : Draft} {e : Expression} {κ : Kind} {v : Value} :
    Emits d e κ v d' → v.type = κ.ty
  | .bool _ | .integer _ | .real _ => rfl
  | .string s => congrArg Ty.ptr (type_ofText s)
  | .text _ held => held
  | .load _ _ _ | .not _ | .negate _ _ | .binary _ _ _ _ _ | .call _ _ _ _ => rfl
  | .parenthesized inner => inner.type_eq

theorem EmitsAll.type_eq {d d' : Draft} {es : List Expression} {vs : List (Kind × Value)} :
    EmitsAll d es vs d' → ∀ v ∈ vs, v.2.type = v.1.ty
  | .nil => by simp
  | .cons head tail => by
    intro v member
    cases member with
    | head => exact head.type_eq
    | tail _ member => exact tail.type_eq v member

end Pseudocode.Lowering
