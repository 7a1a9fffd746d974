import Pseudocode.Proofs.Inertness.NormalForm

/-! # What the lowering of expressions keeps

Expressions, and statements that need no blocks, are lowered in few kinds of small steps. A relation
that holds of each of these steps, and of one behind the other, holds of the lowering of an
expression and that of its normal form.

* `Congruence R`: `R` holds of the small steps, whatever places they tell of, and of sequences.
* `expression_congr`: it holds of the lowering of expressions.
* `output_congr`, `assign_congr` and so on: so it does of that of statements without blocks.
-/

namespace Pseudocode.Lowering

open Assembly

/-- The relation holds of the small steps, and of one step behind the other. It does not look at
    the places that errors tell of, nor at where a variable was declared. -/
structure Congruence (R : {α : Type} → Lower α → Lower α → Prop) : Prop where
  returns {α : Type} (a : α) : R (pure a : Lower α) (pure a)
  fails {α : Type} {e e' : Diagnostic} (same : e.unplaced = e'.unplaced) :
    R (throw e : Lower α) (throw e')
  seq {α β : Type} {x y : Lower α} {f g : α → Lower β} (first : R x y)
    (rest : ∀ a, R (f a) (g a)) : R (x >>= f) (y >>= g)
  temp (type : Ty) : R (freshTemp type) (freshTemp type)
  instr (i : Instr) : R (emit i) (emit i)
  string (text : String) : R (addString text) (addString text)
  callee (name : String) : R (function? name) (function? name)
  lookup {α : Type} {name : String} {f g : Option Binding → Lower α}
    (rest : ∀ b b', b.map Binding.storage = b'.map Binding.storage → R (f b) (g b')) :
    R (resolve? name >>= f) (resolve? name >>= g)

section

variable {R : {α : Type} → Lower α → Lower α → Prop} (congruence : Congruence R)
  (pos pos' : Position)

include congruence

theorem failName_congr {α : Type} (fault : ResolutionFault) :
    R (failName pos fault : Lower α) (failName pos' fault) := congruence.fails rfl

theorem failType_congr {α : Type} (fault : TypeFault) :
    R (failType pos fault : Lower α) (failType pos' fault) := congruence.fails rfl

/-- A new temporary is the result of one instruction. -/
theorem define_congr (type : Ty) (instr : Value → Instr) :
    R (do let dst ← freshTemp type; emit (instr dst); return dst)
      (do let dst ← freshTemp type; emit (instr dst); return dst) :=
  congruence.seq (congruence.temp type) fun dst =>
    congruence.seq (congruence.instr (instr dst)) fun _ => congruence.returns dst

theorem zext_congr (v : Value) (type : Ty) : R (zext v type) (zext v type) :=
  define_congr congruence type _

theorem bitcast_congr (v : Value) (type : Ty) : R (bitcast v type) (bitcast v type) :=
  define_congr congruence type _

theorem binary_congr (op : BinaryOp) (lhs rhs : Value) :
    R (binary op lhs rhs) (binary op lhs rhs) :=
  define_congr congruence lhs.type _

theorem emitCall_congr (f : Signature) (args : List Value) :
    R (emitCall f args) (emitCall f args) :=
  define_congr congruence f.result _

/-! ## Operators and operands -/

theorem unify_congr (op : Operator) (lhs rhs : Value) :
    R (unify op pos lhs rhs) (unify op pos' lhs rhs) := by
  unfold unify
  split
  · split
    · exact congruence.returns _
    · split
      · exact congruence.seq (zext_congr congruence _ _) fun _ => congruence.returns _
      · exact congruence.seq (zext_congr congruence _ _) fun _ => congruence.returns _
  · exact failType_congr congruence pos pos' _
  · split
    · split
      · exact congruence.returns _
      · exact failType_congr congruence pos pos' _
    · exact failType_congr congruence pos pos' _

theorem operate_congr (op : Operator) (lhs rhs : Value) :
    R (operate op pos lhs rhs) (operate op pos' lhs rhs) := by
  cases op with
  | compare c =>
    refine congruence.seq (unify_congr congruence pos pos' _ lhs rhs) fun operands => ?_
    cases operands with
    | integers l r => exact define_congr congruence .i1 _
    | doubles l r => exact define_congr congruence .i1 _
  | arithmetic a =>
    refine congruence.seq (unify_congr congruence pos pos' _ lhs rhs) fun operands => ?_
    cases operands with
    | integers l r => exact binary_congr congruence _ l r
    | doubles l r => exact binary_congr congruence _ l r

theorem negate_congr (v : Value) : R (negate pos v) (negate pos' v) := by
  unfold negate
  split
  · exact binary_congr congruence _ _ v
  · exact binary_congr congruence _ _ v
  · exact failType_congr congruence pos pos' _

theorem not_congr (v : Value) : R (not pos v) (not pos' v) := by
  unfold not
  split
  · exact binary_congr congruence _ v _
  · exact failType_congr congruence pos pos' _

theorem constant_congr (c : Constant) : R (constant c) (constant c) := by
  cases c with
  | string s => exact congruence.string s
  | bool b => exact congruence.returns _
  | integer n => exact congruence.returns _
  | real x => exact congruence.returns _

theorem storageOf_congr {k k' : Key} (same : k.root = k'.root) :
    R (storageOf k) (storageOf k') := by
  unfold storageOf
  rw [same]
  refine congruence.lookup fun b b' storages => ?_
  cases b <;> cases b' <;> simp only [Option.map_some, Option.map_none, Option.some.injEq,
    reduceCtorEq] at storages
  case none.none => exact failName_congr congruence k.pos k'.pos _
  case some.some b b' =>
    dsimp only
    rw [storages]
    exact congruence.returns _

theorem load_congr {k k' : Key} (same : k.root = k'.root) : R (load k) (load k') := by
  refine congruence.seq (storageOf_congr congruence same) fun storage => ?_
  rw [same]
  split
  · exact congruence.fails rfl
  · split
    · exact congruence.returns _
    · exact define_congr congruence _ _

/-! ## Calls -/

theorem argument_congr (name : String) (index : Nat) (param : Ty) (arg : Value) :
    R (argument pos name index param arg) (argument pos' name index param arg) := by
  unfold argument
  split
  · exact congruence.returns _
  · split
    · exact bitcast_congr congruence _ _
    · split
      · split
        · exact zext_congr congruence _ _
        · exact failType_congr congruence pos pos' _
      · exact failType_congr congruence pos pos' _

theorem promote_congr (arg : Value) : R (promote arg) (promote arg) := by
  unfold promote
  split
  · exact bitcast_congr congruence _ _
  · split
    · split
      · exact zext_congr congruence _ _
      · exact congruence.returns _
    · exact congruence.returns _

theorem matchArguments_congr (name : String) (index : Nat) (params : List Ty) (args : List Value) :
    R (matchArguments pos name index params args) (matchArguments pos' name index params args) := by
  induction args generalizing index params with
  | nil => cases params <;> exact congruence.returns _
  | cons arg args ih =>
    cases params with
    | nil =>
      exact congruence.seq (promote_congr congruence arg) fun _ =>
        congruence.seq (ih (index + 1) []) fun _ => congruence.returns _
    | cons param params =>
      exact congruence.seq (argument_congr congruence pos pos' name index param arg) fun _ =>
        congruence.seq (ih (index + 1) params) fun _ => congruence.returns _

theorem call_congr (name : String) (args : List Value) :
    R (call pos name args) (call pos' name args) := by
  refine congruence.seq (congruence.callee name) fun f => ?_
  cases f with
  | none => exact failName_congr congruence pos pos' _
  | some f =>
    show R (if _ then _ else _) (if _ then _ else _)
    split
    · exact congruence.seq (matchArguments_congr congruence pos pos' name 0 f.params args)
        (emitCall_congr congruence f)
    · exact failName_congr congruence pos pos' _

mutual

/-- The relation holds of the lowering of an expression and that of its normal form. -/
theorem expression_congr : (e : Expression) → R (expression e) (expression e.normalize)
  | .constant c => constant_congr congruence c
  | .key k => load_congr congruence k.root_normalize.symm
  | .call pos name args =>
    congruence.seq (expressions_congr args) (call_congr congruence pos .nowhere name)
  | .parenthesized e => expression_congr e
  | .not pos e => congruence.seq (expression_congr e) (not_congr congruence pos .nowhere)
  | .negate pos e => congruence.seq (expression_congr e) (negate_congr congruence pos .nowhere)
  | .binary op pos lhs rhs =>
    congruence.seq (expression_congr lhs) fun l =>
      congruence.seq (expression_congr rhs) fun r => operate_congr congruence pos .nowhere op l r

theorem expressions_congr : (es : List Expression) →
    R (expressions es) (expressions (Expression.normalizeAll es))
  | [] => congruence.returns []
  | e :: es =>
    congruence.seq (expression_congr e) fun _ =>
      congruence.seq (expressions_congr es) fun _ => congruence.returns _

end

/-! ## Statements without blocks -/

theorem assign_congr (k : Key) (e : Expression) :
    R (assign k e) (assign k.normalize e.normalize) := by
  refine congruence.seq (storageOf_congr congruence k.root_normalize.symm) fun storage =>
    congruence.seq (expression_congr congruence e) fun v => ?_
  dsimp only
  split
  · exact congruence.instr _
  · rw [k.root_normalize]
    exact failType_congr congruence k.pos k.normalize.pos _

theorem callProvided_congr (name : String) (args : List Value) :
    R (callProvided pos name args) (callProvided pos' name args) := by
  refine congruence.seq (congruence.callee name) fun f => ?_
  cases f with
  | some f => exact emitCall_congr congruence f args
  | none => exact failName_congr congruence pos pos' _

theorem input_congr (k : Key) : R (input k) (input k.normalize) := by
  refine congruence.seq (storageOf_congr congruence k.root_normalize.symm) fun storage => ?_
  dsimp only
  split
  · exact congruence.seq (callProvided_congr congruence k.pos k.normalize.pos _ _) fun _ =>
      congruence.instr _
  · rw [k.root_normalize]
    exact failType_congr congruence k.pos k.normalize.pos _

theorem textPointer_congr (user : String) (v : Value) :
    R (textPointer pos user v) (textPointer pos' user v) := by
  unfold textPointer
  split
  · exact congruence.returns v
  · split
    · exact bitcast_congr congruence v _
    · exact failType_congr congruence pos pos' _

theorem output_congr (e : Expression) : R (output pos e) (output pos' e.normalize) :=
  congruence.seq (expression_congr congruence e) fun v =>
    congruence.seq (textPointer_congr congruence pos pos' _ v) fun _ =>
    congruence.seq (callProvided_congr congruence pos pos' _ _) fun _ => congruence.returns ()

theorem printFormatted_congr (name : String) (v : Value) :
    R (printFormatted pos name v) (printFormatted pos' name v) := by
  refine congruence.lookup fun b b' storages => ?_
  cases b <;> cases b' <;> simp only [Option.map_some, Option.map_none, Option.some.injEq,
    reduceCtorEq] at storages
  case none.none => exact failName_congr congruence pos pos' _
  case some.some b b' =>
    dsimp only
    rw [storages]
    exact congruence.seq (bitcast_congr congruence _ _) fun _ =>
      congruence.seq (callProvided_congr congruence pos pos' _ _) fun _ => congruence.returns ()

theorem printInt_congr (e : Expression) : R (printInt pos e) (printInt pos' e.normalize) := by
  refine congruence.seq (expression_congr congruence e) fun v => ?_
  split
  · split
    · exact printFormatted_congr congruence pos pos' _ v
    · split
      · exact congruence.seq (zext_congr congruence v _)
          (printFormatted_congr congruence pos pos' _)
      · exact failType_congr congruence pos pos' _
  · exact failType_congr congruence pos pos' _

theorem printReal_congr (e : Expression) : R (printReal pos e) (printReal pos' e.normalize) := by
  refine congruence.seq (expression_congr congruence e) fun v => ?_
  split
  · exact printFormatted_congr congruence pos pos' _ v
  · exact failType_congr congruence pos pos' _

/-- A call of which the result is not used. -/
theorem callStatement_congr (name : String) (args : List Expression) :
    R (expressions args >>= fun vs => call pos name vs >>= fun _ => pure ())
      (expressions (Expression.normalizeAll args) >>= fun vs =>
        call pos' name vs >>= fun _ => pure ()) :=
  congruence.seq (expressions_congr congruence args) fun vs =>
    congruence.seq (call_congr congruence pos pos' name vs) fun _ => congruence.returns ()

theorem condition_congr (construct : Construct) (e : Expression) :
    R (condition pos construct e) (condition pos' construct e.normalize) := by
  refine congruence.seq (expression_congr congruence e) fun v => ?_
  split
  · exact congruence.returns v
  · exact failType_congr congruence pos pos' _

end

end Pseudocode.Lowering
