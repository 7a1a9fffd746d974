import Pseudocode.Proofs.Execution.Comparisons

/-! # Equal, unequal or neither

Two numbers are equal or unequal. Of two doubles one may be no number, and then they are unordered:
they are not equal, but neither does the instruction for `<>` hold of them, which asks for a smaller
one.

* `Datum.equal`, `Datum.unordered`: how two data compare.
* `operate_eq`, `operate_ne`: what `=` and `<>` say of operands of kinds that can be compared.
* `unequal_unless_unordered`: what the code of `<>` computes where that of `=` is known.
* `quotient_neither_equal_nor_unequal`: two programs that print that the same operands are neither.
-/

namespace Pseudocode

/-- The place of a double among those that are numbers. The two zeros share theirs. -/
def Double.rank (x : Double) : Int :=
  if x.isNegative then exp2 63 - x.bits.toNat else x.bits.toNat

namespace Execution

open Assembly Lowering Typing

/-! ## Data -/

/-- The data are the same number. Of two integers the narrower one is widened by zeros, and two
    doubles are the same if neither is below the other: zero is equal to minus zero. -/
def Datum.equal (env : Environment) : Datum → Datum → Bool
  | .int w x, .int w' y => x.setWidth (max w w') = y.setWidth (max w w')
  | .real x, .real y => env.order x y = some .eq
  | _, _ => false

/-- The data are doubles that do not compare. -/
def Datum.unordered (env : Environment) : Datum → Datum → Bool
  | .real x, .real y => env.order x y = none
  | _, _ => false

section Data

variable {env : Environment} {κ κ' κ'' : Kind} {x y : Datum}

/-- Operands that are worked on together are two integers or two doubles. -/
theorem integers_or_reals (joined : κ.join? κ' = some κ'') (left : x.type = κ.stored)
    (right : y.type = κ'.stored) :
    (∃ w w' m n, x = .int w m ∧ y = .int w' n) ∨ ∃ r r', x = .real r ∧ y = .real r' := by
  cases κ <;> cases κ' <;> cases joined
  case real.real =>
    obtain ⟨r, rfl⟩ := Datum.type_eq_double.mp left
    obtain ⟨r', rfl⟩ := Datum.type_eq_double.mp right
    exact .inr ⟨r, r', rfl, rfl⟩
  all_goals
    obtain ⟨m, rfl⟩ := Datum.type_eq_int.mp left
    obtain ⟨n, rfl⟩ := Datum.type_eq_int.mp right
    exact .inl ⟨_, _, m, n, rfl, rfl⟩

/-- Words that are read as the same number are the same word. -/
theorem operate_eq (joined : κ.join? κ' = some κ'') (left : x.type = κ.stored)
    (right : y.type = κ'.stored) :
    operate env (.compare .eq) x y = .ok (.truth (x.equal env y)) := by
  obtain ⟨w, w', m, n, rfl, rfl⟩ | ⟨r, r', rfl, rfl⟩ := integers_or_reals joined left right
  · simp only [operate, operateInts, compareInts, Datum.equal, BitVec.toInt_inj]
  · cases compared : env.order r r' <;>
      simp [operate, operateReals, compareReals, Datum.equal, compared]

theorem operate_ne (joined : κ.join? κ' = some κ'') (left : x.type = κ.stored)
    (right : y.type = κ'.stored) :
    operate env (.compare .ne) x y = .ok (.truth (!x.equal env y && !x.unordered env y)) := by
  obtain ⟨w, w', m, n, rfl, rfl⟩ | ⟨r, r', rfl, rfl⟩ := integers_or_reals joined left right
  · simp only [operate, operateInts, compareInts, Datum.equal, Datum.unordered, ne_eq,
      BitVec.toInt_inj, decide_not, Bool.not_false, Bool.and_true]
  · cases compared : env.order r r' <;>
      simp [operate, operateReals, compareReals, Datum.equal, Datum.unordered, compared]

end Data

/-! ## Expressions -/

/-- The comparison is lowered to the value, and its code, run in any state of the program, leaves in
    one bit the verdict about the values of the operands, or stops where an operand has no value. -/
def ComparesBy (d : Draft) (c : Comparison) (pos : Position) (a b : Expression) (v : Value)
    (d' : Draft) (verdict : Environment → Datum → Datum → Bool) : Prop :=
  expression (.binary (.compare c) pos a b) d.state = .ok v d'.state ∧
  ∃ code, Straight d code d' ∧
    ∀ (L : Layout) (env : Environment) (σ : Variables) (fr : Frame), Part L d' →
      Mirrors L σ fr.memory →
      Computes L env d.temps fr code (evalBoth env σ a b) fun (x, y) fr' =>
        fr'.word? v = some (.int 1 (.ofBool (verdict env x y)))

section Expressions

variable {d : Draft} {Γ : Env} {a b : Expression}

/-- Operands that one comparison accepts can be worked on together. -/
theorem exists_join {c : Comparison} {pos : Position} {v : Value} {s : Lowering.State}
    (isOpen : Draft.IsOpen d.blocks d.block) (agrees : Agrees d.bindings Γ)
    (accepted : expression (.binary (.compare c) pos a b) d.state = .ok v s) :
    ∃ κ κ' κ'', HasKind Γ a κ ∧ HasKind Γ b κ' ∧ κ.join? κ' = some κ'' := by
  have follows := expression_follows (.binary (.compare c) pos a b) isOpen agrees
  cases checked : kindOf Γ (.binary (.compare c) pos a b) with
  | error breach =>
    obtain ⟨_, refused, -⟩ := follows.refused checked
    cases accepted.symm.trans refused
  | ok κ =>
    cases kindOf_eq_ok.mp checked with
    | binary left right joined => exact ⟨_, _, _, left, right, joined⟩

/-- All comparisons of two operands are lowered alike, up to the last instruction. -/
theorem comparisons_differ_in_one {κ κ' κ'' : Kind} (isOpen : Draft.IsOpen d.blocks d.block)
    (agrees : Agrees d.bindings Γ) (kind : HasKind Γ a κ) (kind' : HasKind Γ b κ')
    (joined : κ.join? κ' = some κ'') :
    ∃ (v : Value) (d' : Draft) (last : Comparison → Value → Instr),
      ∀ (c : Comparison) (verdict : Environment → Datum → Datum → Bool),
        (∀ env x y, x.type = κ.stored → y.type = κ'.stored →
          operate env (.compare c) x y = .ok (.truth (verdict env x y))) →
        ∀ pos, ComparesBy d c pos a b v (d'.define .i1 (last c)) verdict := by
  obtain ⟨va, d₁, lowered₁, left⟩ := (expression_follows a isOpen agrees).accepted kind.kindOf_eq
  obtain ⟨code₁, added₁⟩ := left.straight
  have isOpen₁ := added₁.isOpen isOpen
  obtain ⟨vb, d₂, lowered₂, right⟩ :=
    (expression_follows b isOpen₁ (added₁.bindings ▸ agrees)).accepted kind'.kindOf_eq
  obtain ⟨code₂, added₂⟩ := right.straight
  let d₃ := d₂.widen κ κ'' va
  let d₄ := d₃.widen κ' κ'' vb
  obtain ⟨_, wide⟩ := Straight.widenBoth d₂ κ κ' κ'' va vb
  refine ⟨d₄.next .i1, d₄,
    fun c => operatorInstr (.compare c) κ'' (d₂.widened κ κ'' va) (d₃.widened κ' κ'' vb),
    fun c verdict decides pos => ?_⟩
  have compared : compare c pos va vb d₂.state = _ :=
    compare_join (added₂.isOpen isOpen₁) left.type_eq right.type_eq joined
  have emits : Emits d (.binary (.compare c) pos a b) (resultKind (.compare c) κ'') _ _ :=
    .binary left right joined rfl rfl
  obtain ⟨code, added⟩ := emits.straight
  refine ⟨(bind_ok lowered₁).trans ((bind_ok lowered₂).trans compared), code, added,
    fun L env σ fr part mirrors => ?_⟩
  have partBoth := part.of_straight (wide.trans (.define _ _ _))
  obtain ⟨code', added', -, computed⟩ := computes env part emits
  obtain rfl := added.code_unique added' isOpen
  exact computes_decision partBoth left right mirrors
    (fun x y typed typed' => ⟨_, decides env x y typed typed', fun _ held => held⟩)
    (computed σ fr mirrors)

/-- Where `=` is accepted so is `<>`, and the two are lowered alike up to the last instruction. Run
    in one state of a program, the code of `=` decides whether the two values are equal. The code of
    `<>` decides the opposite, unless they are unordered: then both say no. -/
theorem unequal_unless_unordered {pos : Position} {v : Value} {s : Lowering.State}
    (isOpen : Draft.IsOpen d.blocks d.block) (agrees : Agrees d.bindings Γ)
    (accepted : expression (.binary (.compare .eq) pos a b) d.state = .ok v s) (pos' : Position) :
    ∃ (d' : Draft) (last last' : Value → Instr), s = (d'.define .i1 last).state ∧
      ComparesBy d .eq pos a b v (d'.define .i1 last) (fun env x y => x.equal env y) ∧
      ComparesBy d .ne pos' a b v (d'.define .i1 last') (fun env x y =>
        !x.equal env y && !x.unordered env y) := by
  obtain ⟨κ, κ', κ'', kind, kind', joined⟩ := exists_join isOpen agrees accepted
  obtain ⟨v', d', last, decides⟩ := comparisons_differ_in_one isOpen agrees kind kind' joined
  have equal := decides .eq _ (fun _ _ _ => operate_eq joined) pos
  have unequal := decides .ne _ (fun _ _ _ => operate_ne joined) pos'
  obtain ⟨rfl, rfl⟩ : v = v' ∧ s = (d'.define .i1 (last .eq)).state := by
    have same := accepted.symm.trans equal.1
    injection same with value state
    exact ⟨value, state⟩
  exact ⟨d', last .eq, last .ne, rfl, equal, unequal⟩

end Expressions

/-- The whole number one and the truth value one: the one bit is one for `=`, and zero for `<>`. -/
theorem one_equals_truth : ∃ v s,
    expression (.binary (.compare .eq) .nowhere (.constant (.integer 1)) (.constant (.bool true)))
      Draft.initial.state = .ok v s ∧
    ∃ d₁ d₂ code code', s = d₁.state ∧ Straight Draft.initial code d₁ ∧
      Straight Draft.initial code' d₂ ∧
      ∀ env, ∃ fr fr', fr.word? v = some (.int 1 1#1) ∧ fr'.word? v = some (.int 1 0#1) ∧
        executeAll env ⟨fun _ => none, initialMemory Draft.initial.globals, .empty⟩ code = .ok fr ∧
        executeAll env ⟨fun _ => none, initialMemory Draft.initial.globals, .empty⟩ code' =
          .ok fr' := by
  have accepted : expression (.binary (.compare .eq) .nowhere (.constant (.integer 1))
      (.constant (.bool true))) Draft.initial.state = .ok _ _ := rfl
  refine ⟨_, _, accepted, ?_⟩
  obtain ⟨d', last, last', same, ⟨-, code, added, equal⟩, -, code', added', unequal⟩ :=
    unequal_unless_unordered ready_initial.isOpen ready_initial.agrees accepted .nowhere
  refine ⟨_, _, code, code', same, added, added', fun env => ?_⟩
  have globals : Draft.initial.globals = d'.globals := congrArg (·.target.globals) same
  have bindings : Draft.initial.bindings = d'.bindings := added.bindings.symm
  let L : Layout := ⟨Draft.initial.globals, Draft.initial.bindings, [], .initial⟩
  have part : ∀ i, Part L (d'.define .i1 i) := fun _ =>
    ⟨globals ▸ List.prefix_rfl, bindings ▸ List.prefix_rfl⟩
  have mirrors := Mirrors.initial (L := L) (p := []) rfl
  obtain ⟨fr, executed, -, -, held⟩ :=
    equal L env _ ⟨fun _ => none, _, .empty⟩ (part last) mirrors .empty rfl
  obtain ⟨fr', executed', -, -, held'⟩ :=
    unequal L env _ ⟨fun _ => none, _, .empty⟩ (part last') mirrors .empty rfl
  exact ⟨fr, fr', held, held', executed, executed'⟩

/-! ## No numbers -/

/-- What the format says of the doubles that are no numbers: they do not compare, and the quotient
    of zero and zero is one of them. -/
structure Environment.RespectsNaN (env : Environment) : Prop where
  unordered_iff : ∀ x y, env.order x y = none ↔ x.isNaN ∨ y.isNaN
  zero_by_zero : (env.calculate .div .zero .zero).isNaN

theorem exists_respectsNaN : ∃ env : Environment, env.RespectsNaN := by
  refine ⟨⟨fun _ => 0, fun _ _ _ => ⟨0x7FF8000000000000⟩, fun x y =>
    if x.isNaN ∨ y.isNaN then none else some (Ord.compare x.rank y.rank)⟩, ?_, ?_⟩
  · intro x y
    simp only [ite_eq_left_iff, reduceCtorEq, imp_false, not_not]
  · decide +kernel

/-- The text is compiled, and all that is seen of its run is that it prints the whole number. -/
def Prints (env : Environment) (text : String) (n : BitVec 32) : Prop :=
  ∃ m main, (compile text).result = .ok m ∧ m.functionNamed? "main" = some main ∧
    (machine env m main).Ends (.finished 0)
      [.called "printf" [.ofString "Int: %d\n", .int 32 n]]

/-- The program that prints what the comparison says of zero divided by zero and zero. -/
def quotientCompared (c : Comparison) : Program :=
  [.printInt ⟨0, 1, 1⟩ (.binary (.compare c) ⟨18, 1, 19⟩
    (.binary (.arithmetic .div) ⟨12, 1, 13⟩ (.constant (.real .zero)) (.constant (.real .zero)))
    (.constant (.real .zero)))]

/-- Its tokens. Where the last two stand depends on how the comparison is written. -/
def quotientTokens (c : Comparison) (p q : Position) : List Located :=
  [⟨.keyword .printInt, ⟨0, 1, 1⟩⟩, ⟨.real .zero, ⟨8, 1, 9⟩⟩, ⟨.symbol .slash, ⟨12, 1, 13⟩⟩,
    ⟨.real .zero, ⟨14, 1, 15⟩⟩, ⟨.symbol (Operator.compare c).symbol, ⟨18, 1, 19⟩⟩,
    ⟨.real .zero, p⟩, ⟨.newline, q⟩]

section Quotient

variable {env : Environment} {c : Comparison} {p q : Position} {text : String}

theorem derives_quotientCompared : Grammar.Derives (quotientTokens c p q) (quotientCompared c) :=
  .cons (.line (.printInt (.binary rfl
    (.single (.single (.binary rfl (.single (.constant (c := .real .zero)))
      (.constant (c := .real .zero)))))
    (.single (.single (.constant (c := .real .zero)))))) .newline) .nil

/-- The quotient is no number, and so no comparison holds of it. The program calculates with
    doubles in one place only, and the run can be read off up to it. -/
theorem source_quotientCompared (respects : env.RespectsNaN) (ρ : String → String) :
    (source env (quotientCompared c)).rename ρ 0 =
      (.finished 0, [.called "printf" [.ofString "Int: %d\n", .int 32 0]]) := by
  have unordered : env.order (env.calculate .div .zero .zero) .zero = none :=
    (respects.unordered_iff _ _).mpr (.inl respects.zero_by_zero)
  have printed : (source env (quotientCompared c)).rename ρ 0 = (.finished 0,
      [.called "printf" [.ofString "Int: %d\n",
        passed (.truth (compareReals c (env.order (env.calculate .div .zero .zero) .zero)))]]) :=
    rfl
  rw [printed, unordered]
  rfl

theorem prints_quotientCompared (respects : env.RespectsNaN)
    (tokenized : tokenize text = .ok (quotientTokens c p q)) : Prints env text 0 := by
  obtain ⟨m, lowered⟩ := exists_module (p := quotientCompared c) ⟨_, rfl⟩
  obtain ⟨main, found, ρ, preserved⟩ := sameBehavior_of_lower lowered
  have shallow : Program.nesting (quotientCompared c) ≤ nestingLimit := by cases c <;> decide
  have parsed := parse_eq_ok.mpr ⟨_, tokenized, derives_quotientCompared, shallow⟩
  exact ⟨m, main, compile_eq_ok.mpr ⟨_, parsed, lowered⟩, found,
    ((preserved env).ends _ _).mp ⟨Ending.noConfusion, 0, source_quotientCompared respects ρ⟩⟩

end Quotient

/-- It is printed that zero divided by zero is not equal to zero, and that it is not unequal to zero
    either. -/
theorem quotient_neither_equal_nor_unequal :
    (∃ env : Environment, env.RespectsNaN) ∧ ∀ env : Environment, env.RespectsNaN →
      Prints env "PrintfD 0.0 / 0.0 = 0.0\n" 0 ∧ Prints env "PrintfD 0.0 / 0.0 <> 0.0\n" 0 := by
  refine ⟨exists_respectsNaN, fun env respects => ⟨?_, ?_⟩⟩
  · exact prints_quotientCompared (c := .eq) (p := ⟨20, 1, 21⟩) (q := ⟨23, 1, 24⟩) respects
      (Scanning.tokenize_eq_ok.mpr (by decide +kernel))
  · exact prints_quotientCompared (c := .ne) (p := ⟨21, 1, 22⟩) (q := ⟨24, 1, 25⟩) respects
      (Scanning.tokenize_eq_ok.mpr (by decide +kernel))

end Execution

end Pseudocode
