import Pseudocode.Proofs.Execution.Preservation
import Pseudocode.Proofs.Lowering.Discipline
import Pseudocode.Proofs.Parsing.Texts
import Pseudocode.Proofs.Scanning.Tokens

/-! # Comparisons of numbers

A whole number counts as what it is, a truth value as zero or one. A truth value is widened to that
number when it is printed or compared with a whole number. But two truth values are compared at
their one bit, which is read with a sign: it is zero or minus one then, and so the order of two
truth values is the other way round.

* `number?_widened`: a datum counts as the same number when it is widened.
* `operate_compare`: comparing two data is comparing their numbers, up to the order of operands.
* `computes_decision`: what the code of a comparison leaves, from what the comparison says of data.
* `comparison_of_numbers`: what the code of a comparison of numbers computes.
* `truth_not_above_falsehood`: a program that prints that one is not greater than zero.
-/

namespace Pseudocode

/-- The comparison of two numbers. -/
def Comparison.holds (c : Comparison) (m n : Int) : Bool :=
  match c with
  | .eq => m = n
  | .ne => m ≠ n
  | .lt => m < n
  | .gt => m > n
  | .le => m ≤ n
  | .ge => m ≥ n

namespace Execution

open Assembly Lowering Typing

/-- The number that a datum counts as. -/
def Datum.number? : Datum → Option Int
  | .int 1 b => some b.toNat
  | .int 32 n => some n.toInt
  | _ => none

/-- The datum counts as the number, also when it is printed and when it is compared with a whole
    number. -/
structure Datum.CountsAs (x : Datum) (m : Int) : Prop where
  number : x.number? = some m
  printed : (passed x).number? = some m
  widened : (widened .int x).number? = some m

/-- What a comparison of operands of the kinds decides about their numbers. -/
def decided (c : Comparison) (κ κ' : Kind) (m n : Int) : Bool :=
  if κ = .bool ∧ κ' = .bool then c.holds n m else c.holds m n

/-! ## Numbers -/

section Numbers

variable {c : Comparison} {m n : Int}

theorem compareInts_eq {w : Nat} (x y : BitVec w) :
    compareInts c x y = c.holds x.toInt y.toInt := by
  cases c <;> rfl

theorem holds_neg : c.holds (-m) (-n) = c.holds n m := by
  cases c <;> simp only [Comparison.holds, decide_eq_decide] <;> omega

/-- A single bit is read as zero or minus one. -/
theorem toInt_bit : ∀ b : BitVec 1, b.toInt = -(b.toNat : Int) := by decide

theorem toInt_widened_bit : ∀ b : BitVec 1, (b.setWidth 32).toInt = b.toNat := by decide

end Numbers

/-! ## Data -/

section Data

variable {κ κ' : Kind} {x y : Datum}

/-- A number counts as what is printed for it and as what it is widened to. -/
theorem exists_countsAs (typed : x.type = κ.stored) (number : κ = .int ∨ κ = .bool) :
    ∃ m, x.CountsAs m := by
  obtain rfl | rfl := number
  · obtain ⟨n, rfl⟩ := Datum.type_eq_int.mp typed
    exact ⟨_, rfl, rfl, rfl⟩
  · obtain ⟨b, rfl⟩ := Datum.type_eq_int.mp typed
    have same := congrArg some (toInt_widened_bit b)
    exact ⟨_, rfl, same, same⟩

/-- Comparing data is comparing their numbers. -/
theorem operate_compare (env : Environment) (c : Comparison) {m n : Int}
    (left : x.type = κ.stored) (right : y.type = κ'.stored) (number : κ = .int ∨ κ = .bool)
    (number' : κ' = .int ∨ κ' = .bool) (first : x.CountsAs m) (second : y.CountsAs n) :
    operate env (.compare c) x y = .ok (.truth (decided c κ κ' m n)) := by
  by_cases truths : κ = .bool ∧ κ' = .bool
  · obtain ⟨rfl, rfl⟩ := truths
    obtain ⟨b, rfl⟩ := Datum.type_eq_int.mp left
    obtain ⟨b', rfl⟩ := Datum.type_eq_int.mp right
    obtain rfl : (b.toNat : Int) = m := Option.some.inj first.number
    obtain rfl : (b'.toNat : Int) = n := Option.some.inj second.number
    rw [operate_int, operateInts, compareInts_eq, toInt_bit, toInt_bit, holds_neg, decided,
      if_pos ⟨rfl, rfl⟩]
  · have joined : κ.join? κ' = some .int := by
      obtain rfl | rfl := number <;> obtain rfl | rfl := number' <;> simp_all [Kind.join?]
    obtain ⟨joins, joins'⟩ := Kind.joins_of_join? joined
    obtain ⟨a, whole⟩ := Datum.type_eq_int.mp (type_widened left joins)
    obtain ⟨a', whole'⟩ := Datum.type_eq_int.mp (type_widened right joins')
    have first' := first.widened
    have second' := second.widened
    rw [whole] at first'
    rw [whole'] at second'
    obtain rfl : a.toInt = m := Option.some.inj first'
    obtain rfl : a'.toInt = n := Option.some.inj second'
    rw [← operate_widened (.compare c) joined left right, whole, whole', operate_int, operateInts,
      compareInts_eq, decided, if_neg truths]

end Data

/-! ## Expressions -/

section Expressions

variable {L : Layout} {env : Environment} {σ : Variables}

/-- The value of an expression is of its kind. -/
theorem type_of_eval {d d' : Draft} {e : Expression} {κ : Kind} {v : Value}
    {memory : String → Option Datum} {log log' : Log} {x : Datum} (part : Part L d')
    (emits : Emits d e κ v d') (mirrors : Mirrors L σ memory)
    (value : eval env σ e log = .ok x log') : x.type = κ.stored := by
  obtain ⟨code, -, -, computed⟩ := computes env part emits
  have here := computed σ ⟨fun _ => none, memory, log.rename L.nameOf⟩ mirrors log rfl
  rw [value] at here
  obtain ⟨_, -, -, -, typed, -⟩ := here
  exact typed

/-- The values of two operands, the left one first. -/
def evalBoth (env : Environment) (σ : Variables) (a b : Expression) :
    Evaluation (Datum × Datum) := do
  let x ← eval env σ a
  let y ← eval env σ b
  return (x, y)

/-- The code of a comparison computes the operands and then decides. What the one bit that it leaves
    says of the operands follows from what the comparison says of data of their kinds. -/
theorem computes_decision {d d₁ d₂ : Draft} {pos : Position} {a b : Expression} {κ κ' : Kind}
    {va vb v : Value} {c : Comparison} {code : List Instr} {fr : Frame}
    {post : Datum × Datum → Frame → Prop} (part : Part L d₂) (left : Emits d a κ va d₁)
    (right : Emits d₁ b κ' vb d₂) (mirrors : Mirrors L σ fr.memory)
    (decides : ∀ x y, x.type = κ.stored → y.type = κ'.stored →
      ∃ bit, operate env (.compare c) x y = .ok (.truth bit) ∧
        ∀ fr' : Frame, fr'.word? v = some (.int 1 (.ofBool bit)) → post (x, y) fr')
    (computed : Computes L env d.temps fr code (eval env σ (.binary (.compare c) pos a b))
      fun r fr' => r.type = .i1 ∧ Holds fr' v r) :
    Computes L env d.temps fr code (evalBoth env σ a b) post := by
  intro log same
  have here := computed log same
  simp only [eval, evalBoth, bind, EStateM.bind] at here ⊢
  cases first : eval env σ a log with
  | error e log' => simpa only [first] using here
  | ok x log₁ =>
    cases second : eval env σ b log₁ with
    | error e log' => simpa only [first, second] using here
    | ok y log₂ =>
      obtain ⟨_, added⟩ := right.straight
      have typed := type_of_eval (part.of_straight added) left mirrors first
      have typed' := type_of_eval part right mirrors second
      obtain ⟨bit, decided, holds⟩ := decides x y typed typed'
      simp only [first, second, decided] at here ⊢
      obtain ⟨fr', executed, later, logged, -, held⟩ := here
      exact ⟨fr', executed, later, logged, holds fr' (held.word?_eq rfl)⟩

/-- Of two numbers it decides about what they count as. -/
theorem computes_comparison {d d₁ d₂ : Draft} {pos : Position} {a b : Expression} {κ κ' : Kind}
    {va vb v : Value} {c : Comparison} {code : List Instr} {fr : Frame} (part : Part L d₂)
    (left : Emits d a κ va d₁) (right : Emits d₁ b κ' vb d₂) (number : κ = .int ∨ κ = .bool)
    (number' : κ' = .int ∨ κ' = .bool) (mirrors : Mirrors L σ fr.memory)
    (computed : Computes L env d.temps fr code (eval env σ (.binary (.compare c) pos a b))
      fun r fr' => r.type = .i1 ∧ Holds fr' v r) :
    Computes L env d.temps fr code (evalBoth env σ a b) fun (x, y) fr' => ∃ m n,
      x.CountsAs m ∧ y.CountsAs n ∧
        fr'.word? v = some (.int 1 (.ofBool (decided c κ κ' m n))) := by
  refine computes_decision part left right mirrors (fun x y typed typed' => ?_) computed
  obtain ⟨m, counts⟩ := exists_countsAs typed number
  obtain ⟨n, counts'⟩ := exists_countsAs typed' number'
  exact ⟨_, operate_compare env c typed typed' number number' counts counts',
    fun _ held => ⟨m, n, counts, counts', held⟩⟩

/-- Two operands that are numbers can be compared, and the code of the comparison holds in one bit
    what is decided about the numbers that the operands count as: what the comparison says of them,
    but of two truth values the other way round. If an operand has no value, the code stops there.
    -/
theorem comparison_of_numbers {d : Draft} {Γ : Env} (isOpen : Draft.IsOpen d.blocks d.block)
    (agrees : Agrees d.bindings Γ) {a b : Expression} {κ κ' : Kind} (kind : HasKind Γ a κ)
    (kind' : HasKind Γ b κ') (number : κ = .int ∨ κ = .bool) (number' : κ' = .int ∨ κ' = .bool)
    (c : Comparison) (pos : Position) :
    ∃ v d' code, expression (.binary (.compare c) pos a b) d.state = .ok v d'.state ∧
      v.type = .i1 ∧ Straight d code d' ∧
      ∀ (L : Layout) (env : Environment) (σ : Variables) (fr : Frame), Part L d' →
        Mirrors L σ fr.memory →
        Computes L env d.temps fr code (evalBoth env σ a b) fun (x, y) fr' => ∃ m n,
          x.CountsAs m ∧ y.CountsAs n ∧
            fr'.word? v = some (.int 1 (.ofBool (decided c κ κ' m n))) := by
  obtain ⟨κ'', joined⟩ : ∃ κ'', κ.join? κ' = some κ'' := by
    obtain rfl | rfl := number <;> obtain rfl | rfl := number' <;> exact ⟨_, rfl⟩
  have first := expression_follows a isOpen agrees
  rw [kind.kindOf_eq] at first
  obtain ⟨va, d₁, lowered₁, left⟩ := first
  obtain ⟨code₁, added₁⟩ := left.straight
  have second := expression_follows b (added₁.isOpen isOpen) (added₁.bindings ▸ agrees)
  rw [kind'.kindOf_eq] at second
  obtain ⟨vb, d₂, lowered₂, right⟩ := second
  obtain ⟨code₂, added₂⟩ := right.straight
  have compared : compare c pos va vb d₂.state = _ :=
    compare_join (added₂.isOpen (added₁.isOpen isOpen)) left.type_eq right.type_eq joined
  have emits : Emits d (.binary (.compare c) pos a b) (resultKind (.compare c) κ'') _ _ :=
    .binary left right joined rfl rfl
  obtain ⟨code, added⟩ := emits.straight
  refine ⟨_, _, code, (bind_ok lowered₁).trans ((bind_ok lowered₂).trans compared), rfl, added,
    fun L env σ fr part mirrors => ?_⟩
  obtain ⟨_, wide⟩ := Straight.widen d₂ κ κ'' va
  obtain ⟨_, wide'⟩ := Straight.widen (d₂.widen κ κ'' va) κ' κ'' vb
  have partBoth := part.of_straight (wide.trans (wide'.trans (.define _ _ _)))
  obtain ⟨code', added', -, computed⟩ := computes env part emits
  obtain rfl := added.code_unique added' isOpen
  exact computes_comparison partBoth left right number number' mirrors (computed σ fr mirrors)

end Expressions

/-- Two is greater than what a truth value counts as. -/
theorem two_above_truth :
    HasKind Env.initial (.constant (.integer 2)) .int ∧
    HasKind Env.initial (.constant (.bool true)) .bool ∧
    ∃ v d' code, Straight Draft.initial code d' ∧
      expression (.binary (.compare .gt) .nowhere (.constant (.integer 2)) (.constant (.bool true)))
        Draft.initial.state = .ok v d'.state ∧
      ∀ env, ∃ fr', fr'.word? v = some (.int 1 1#1) ∧
        executeAll env ⟨fun _ => none, initialMemory Draft.initial.globals, .empty⟩ code =
          .ok fr' := by
  have kind : HasKind Env.initial (.constant (.integer 2)) .int := .constant (.integer 2)
  have kind' : HasKind Env.initial (.constant (.bool true)) .bool := .constant (.bool true)
  obtain ⟨v, d', code, lowered, -, added, computed⟩ := comparison_of_numbers ready_initial.isOpen
    ready_initial.agrees kind kind' (.inl rfl) (.inr rfl) .gt .nowhere
  refine ⟨kind, kind', v, d', code, added, lowered, fun env => ?_⟩
  have part : Part ⟨Draft.initial.globals, Draft.initial.bindings, [], .initial⟩ d' := by
    have globals : Draft.initial.globals = d'.globals :=
      congrArg (fun r : EStateM.Result Diagnostic Lowering.State Value =>
        match r with
        | .ok _ s => s.target.globals
        | .error _ s => s.target.globals) lowered
    have bindings : Draft.initial.bindings = d'.bindings := added.bindings.symm
    exact ⟨globals ▸ List.prefix_rfl, bindings ▸ List.prefix_rfl⟩
  obtain ⟨fr', executed, -, -, m, n, counts, counts', held⟩ :=
    computed _ env _ ⟨fun _ => none, _, .empty⟩ part (Mirrors.initial (p := []) rfl) .empty rfl
  obtain rfl : 2 = m := Option.some.inj counts.number
  obtain rfl : 1 = n := Option.some.inj counts'.number
  exact ⟨fr', held, executed⟩

/-- The program that prints whether one truth value is greater than the other. -/
def truthAboveFalsehood : Program :=
  [.printInt ⟨0, 1, 1⟩ (.binary (.compare .gt) ⟨13, 1, 14⟩ (.constant (.bool true))
    (.constant (.bool false)))]

theorem parse_truthAboveFalsehood :
    parse "PrintfD TRUE > FALSE\n" = .ok truthAboveFalsehood := by
  refine parse_eq_ok.mpr ⟨[⟨.keyword .printInt, ⟨0, 1, 1⟩⟩, ⟨.keyword .true, ⟨8, 1, 9⟩⟩,
    ⟨.symbol .greater, ⟨13, 1, 14⟩⟩, ⟨.keyword .false, ⟨15, 1, 16⟩⟩, ⟨.newline, ⟨20, 1, 21⟩⟩],
    Scanning.tokenize_eq_ok.mpr (by decide +kernel), ?_, by decide⟩
  exact .cons (.line (.printInt (.binary rfl
    (.single (.single (.single (.constant (c := .bool true)))))
    (.single (.single (.constant (c := .bool false)))))) .newline) .nil

/-- One is greater than zero, but it is printed that the truth value one is not. -/
theorem truth_not_above_falsehood :
    (Datum.truth true).CountsAs 1 ∧ (Datum.truth false).CountsAs 0 ∧
    Comparison.gt.holds 1 0 = true ∧
    ∃ m main, (compile "PrintfD TRUE > FALSE\n").result = .ok m ∧
      m.functionNamed? "main" = some main ∧
      ∀ env, (machine env m main).Ends (.finished 0)
        [.called "printf" [.ofString "Int: %d\n", .int 32 0]] := by
  obtain ⟨m, lowered⟩ := exists_module (p := truthAboveFalsehood) ⟨_, rfl⟩
  obtain ⟨main, found, ρ, preserved⟩ := sameBehavior_of_lower lowered
  refine ⟨⟨rfl, rfl, rfl⟩, ⟨rfl, rfl, rfl⟩, rfl, m, main,
    compile_eq_ok.mpr ⟨_, parse_truthAboveFalsehood, lowered⟩, found, fun env => ?_⟩
  exact ((preserved env).ends _ _).mp ⟨Ending.noConfusion, 0, rfl⟩

end Execution

end Pseudocode
