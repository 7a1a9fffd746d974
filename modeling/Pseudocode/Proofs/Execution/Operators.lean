import Pseudocode.Proofs.Execution.Mirror

/-! # Operators and their instructions

The operators of the language are defined on whole numbers and their instructions on words
of bits. Here they are shown to be the same.

* `binaryInts_intOp`, `holds_intCondition`, `holds_doubleCondition`: on numbers.
* `execute_operatorInstr`, `execute_negateInstr`: on operands that hold data.
-/

namespace Pseudocode.Execution

open Assembly Lowering Typing

/-! ## Numbers -/

section Numbers

variable {w : Nat}

theorem sdiv_eq_ofInt (x y : BitVec w) : x.sdiv y = .ofInt w (x.toInt.tdiv y.toInt) := by
  apply BitVec.eq_of_toInt_eq
  rw [BitVec.toInt_sdiv, BitVec.toInt_ofInt]

/-- There is one quotient that does not fit. -/
theorem toInt_sdiv_ne_iff {x y : BitVec w} (nonzero : y ≠ 0#w) :
    (x.sdiv y).toInt ≠ x.toInt.tdiv y.toInt ↔ x = .intMin w ∧ y = .allOnes w := by
  constructor
  · intro overflows
    refine Classical.byContradiction fun other => overflows ?_
    refine BitVec.toInt_sdiv_of_ne_or_ne x y ?_
    rw [BitVec.neg_one_eq_allOnes]
    exact Classical.not_and_iff_not_or_not.mp other
  · rintro ⟨rfl, rfl⟩
    obtain ⟨k, rfl⟩ : ∃ k, w = k + 1 := by
      refine Nat.exists_eq_succ_of_ne_zero fun none => nonzero ?_
      subst none
      exact BitVec.eq_of_zero_length rfl
    have quotient : (BitVec.intMin (k + 1)).toInt.tdiv (BitVec.allOnes (k + 1)).toInt = 2 ^ k := by
      rw [BitVec.toInt_intMin_of_pos (Nat.succ_pos k), BitVec.toInt_allOnes,
        if_pos (Nat.succ_pos k), Int.tdiv_neg, Int.tdiv_one, Int.neg_neg]
      rfl
    rw [quotient]
    exact Int.ne_of_lt (BitVec.toInt_lt (w := k + 1))

theorem binaryInts_intOp (a : Arithmetic) (x y : BitVec w) :
    binaryInts (intOp a) x y = match ofInts a x y with
      | some z => .ok z
      | none => .error .undefined := by
  cases a with
  | add | sub | mul => rfl
  | div =>
    simp only [binaryInts, intOp, ofInts, ← sdiv_eq_ofInt]
    by_cases zero : y = 0#w
    · simp [zero]
    · have overflows := toInt_sdiv_ne_iff (x := x) zero
      by_cases fits : (x.sdiv y).toInt = x.toInt.tdiv y.toInt
      · simp [zero, fits, ← overflows]
      · simp [zero, fits, ← overflows]

theorem holds_intCondition (c : Comparison) (x y : BitVec w) :
    IntCondition.holds (intCondition c) x y = compareInts c x y := by
  cases c with
  | eq => simp [IntCondition.holds, intCondition, compareInts, BitVec.toInt_inj, beq_eq_decide]
  | ne => simp [IntCondition.holds, intCondition, compareInts, BitVec.toInt_inj, bne, beq_eq_decide]
  | lt | gt | le | ge => rfl

theorem holds_doubleCondition (c : Comparison) (order : Option Ordering) :
    DoubleCondition.holds (doubleCondition c) order = compareReals c order := by
  cases order with
  | none => cases c <;> rfl
  | some o => cases c <;> cases o <;> rfl

theorem binaryReals_doubleOp (env : Environment) (a : Arithmetic) (x y : Double) :
    binaryReals env (doubleOp a) x y = .ok (env.calculate a x y) := by
  cases a <;> rfl

end Numbers

/-! ## Data -/

section Data

variable {env : Environment}

/-- Two integers of one width. -/
theorem operate_int (op : Operator) {w : Nat} (x y : BitVec w) :
    Execution.operate env op (.int w x) (.int w y) = operateInts op x y := by
  show operateInts op (x.setWidth (max w w)) (y.setWidth (max w w)) = _
  generalize both : max w w = m
  obtain rfl : w = m := by rw [← both, Nat.max_self]
  simp only [BitVec.setWidth_eq]

/-- The datum at the kind that an operator works at. -/
def widened (κ : Kind) (x : Datum) : Datum :=
  match κ, x with
  | .int, .int 1 b => .int 32 (b.setWidth 32)
  | _, x => x

/-- Operands may be brought to one kind first. -/
theorem operate_widened (op : Operator) {κl κr κ : Kind} {x y : Datum}
    (joined : κl.join? κr = some κ) (left : x.type = κl.stored) (right : y.type = κr.stored) :
    Execution.operate env op (widened κ x) (widened κ y) = Execution.operate env op x y := by
  cases κl <;> cases κr <;> cases joined
  case real.real =>
    cases x <;> cases left
    rfl
  case int.int | bool.bool =>
    obtain ⟨m, rfl⟩ := Datum.type_eq_int.mp left
    obtain ⟨n, rfl⟩ := Datum.type_eq_int.mp right
    rfl
  case int.bool =>
    obtain ⟨m, rfl⟩ := Datum.type_eq_int.mp left
    obtain ⟨n, rfl⟩ := Datum.type_eq_int.mp right
    show operateInts op _ ((n.setWidth 32).setWidth 32) = operateInts op _ (n.setWidth 32)
    rw [BitVec.setWidth_eq]
    rfl
  case bool.int =>
    obtain ⟨m, rfl⟩ := Datum.type_eq_int.mp left
    obtain ⟨n, rfl⟩ := Datum.type_eq_int.mp right
    show operateInts op ((m.setWidth 32).setWidth 32) _ = operateInts op (m.setWidth 32) _
    rw [BitVec.setWidth_eq]
    rfl

theorem type_widened {κ κ' : Kind} {x : Datum} (typed : x.type = κ.stored)
    (joins : κ = κ' ∨ κ = .bool ∧ κ' = .int) : (widened κ' x).type = κ'.stored := by
  rcases joins with rfl | ⟨rfl, rfl⟩
  · cases κ with
    | int =>
      obtain ⟨_, rfl⟩ := Datum.type_eq_int.mp typed
      rfl
    | text | real | bool => exact typed
  · obtain ⟨_, rfl⟩ := Datum.type_eq_int.mp typed
    rfl

end Data

/-! ## Instructions -/

/-- The instruction defines its temporary as the result, which is a number of the kind, or
    fails if there is no result. -/
def Yields (env : Environment) (fr : Frame) (instr : Value → Instr) (κ : Kind)
    (result : Except Ending Datum) : Prop :=
  match result with
  | .ok z => z.type = κ.stored ∧ ∃ w, z.word? = some w ∧
      ∀ dst, execute env fr (instr dst) = fr.define dst w
  | .error e => e = .undefined ∧ ∀ dst, execute env fr (instr dst) = .error e

section Instructions

variable {env : Environment} {fr : Frame}

theorem orStuck_word? {v : Value} {x : Datum} {w : Word} (held : Holds fr v x)
    (word : x.word? = some w) : orStuck (fr.word? v) = .ok w := by
  rw [held.word?_eq word]
  rfl

theorem execute_binary {op : BinaryOp} {dst vl vr : Value} {l r : Word}
    (left : orStuck (fr.word? vl) = .ok l) (right : orStuck (fr.word? vr) = .ok r) :
    execute env fr (.binary dst op vl vr) = binaryWords env op l r >>= fr.define dst := by
  simp only [execute, left, right]
  rfl

theorem execute_icmp {c : IntCondition} {dst vl vr : Value} {l r : Word}
    (left : orStuck (fr.word? vl) = .ok l) (right : orStuck (fr.word? vr) = .ok r) :
    execute env fr (.icmp dst c vl vr) = icmpWords c l r >>= fr.define dst := by
  simp only [execute, left, right]
  rfl

theorem execute_fcmp {c : DoubleCondition} {dst vl vr : Value} {l r : Word}
    (left : orStuck (fr.word? vl) = .ok l) (right : orStuck (fr.word? vr) = .ok r) :
    execute env fr (.fcmp dst c vl vr) = fcmpWords env c l r >>= fr.define dst := by
  simp only [execute, left, right]
  rfl

/-- An operator on integers of one width. -/
theorem yields_ints (op : Operator) {κ : Kind} {w : Nat} (whole : κ.ty = .int w)
    {vl vr : Value} {x y : BitVec w} (left : Holds fr vl (.int w x))
    (right : Holds fr vr (.int w y)) :
    Yields env fr (operatorInstr op κ vl vr) (resultKind op κ) (operateInts op x y) := by
  have wordLeft := orStuck_word? left rfl
  have wordRight := orStuck_word? right rfl
  cases op with
  | arithmetic a =>
    have instr : operatorInstr (.arithmetic a) κ vl vr = (.binary · (intOp a) vl vr) := by
      cases κ <;> first | rfl | cases whole
    have executed : ∀ dst, execute env fr (.binary dst (intOp a) vl vr) =
        (binaryInts (intOp a) x y).map (.int w) >>= fr.define dst := by
      intro dst
      rw [execute_binary wordLeft wordRight, binaryWords, if_pos rfl, BitVec.setWidth_eq]
    rw [binaryInts_intOp] at executed
    rw [instr, operateInts]
    cases result : ofInts a x y with
    | none => exact ⟨rfl, fun dst => by rw [executed, result]; rfl⟩
    | some z =>
      refine ⟨?_, _, rfl, fun dst => by rw [executed, result]; rfl⟩
      cases κ <;> cases whole <;> rfl
  | compare c =>
    have instr : operatorInstr (.compare c) κ vl vr = (.icmp · (intCondition c) vl vr) := by
      cases κ <;> first | rfl | cases whole
    rw [instr]
    refine ⟨rfl, _, rfl, fun dst => ?_⟩
    rw [execute_icmp wordLeft wordRight, icmpWords, if_pos rfl, BitVec.setWidth_eq,
      holds_intCondition]
    rfl

/-- An operator on doubles. -/
theorem yields_reals (op : Operator) {vl vr : Value} {x y : Double} (left : Holds fr vl (.real x))
    (right : Holds fr vr (.real y)) :
    Yields env fr (operatorInstr op .real vl vr) (resultKind op .real)
      (.ok (operateReals env op x y)) := by
  have wordLeft := orStuck_word? left rfl
  have wordRight := orStuck_word? right rfl
  cases op with
  | arithmetic a =>
    refine ⟨rfl, _, rfl, fun dst => ?_⟩
    show execute env fr (.binary dst (doubleOp a) vl vr) = _
    rw [execute_binary wordLeft wordRight, binaryWords, binaryReals_doubleOp]
    rfl
  | compare c =>
    refine ⟨rfl, _, rfl, fun dst => ?_⟩
    show execute env fr (.fcmp dst (doubleCondition c) vl vr) = _
    rw [execute_fcmp wordLeft wordRight, fcmpWords, holds_doubleCondition]
    rfl

/-- The instruction of an operator does what the operator does. -/
theorem yields_operator (op : Operator) {κl κr κ : Kind} {vl vr : Value} {x y : Datum}
    (joined : κl.join? κr = some κ) (left : Holds fr vl x) (right : Holds fr vr y)
    (typedLeft : x.type = κ.stored) (typedRight : y.type = κ.stored) :
    Yields env fr (operatorInstr op κ vl vr) (resultKind op κ) (Execution.operate env op x y) := by
  cases κ with
  | text size => cases κl <;> cases κr <;> cases joined
  | int | bool =>
    obtain ⟨m, rfl⟩ := Datum.type_eq_int.mp typedLeft
    obtain ⟨n, rfl⟩ := Datum.type_eq_int.mp typedRight
    rw [operate_int]
    exact yields_ints op rfl left right
  | real =>
    obtain ⟨r, rfl⟩ := Datum.type_eq_double.mp typedLeft
    obtain ⟨r', rfl⟩ := Datum.type_eq_double.mp typedRight
    exact yields_reals op left right

/-- The instruction of a negation subtracts from zero. -/
theorem yields_negate {κ : Kind} {v : Value} {x : Datum} (signed : κ = .int ∨ κ = .real)
    (held : Holds fr v x) (typed : x.type = κ.stored) :
    Yields env fr (negateInstr κ v) κ (Execution.negate env x) := by
  rcases signed with rfl | rfl
  · obtain ⟨n, rfl⟩ := Datum.type_eq_int.mp typed
    exact yields_ints (.arithmetic .sub) rfl (x := 0) rfl held
  · obtain ⟨r, rfl⟩ := Datum.type_eq_double.mp typed
    exact yields_reals (.arithmetic .sub) rfl held

/-- The instruction of a logical negation turns one bit over. -/
theorem yields_not {v : Value} {x : Datum} (held : Holds fr v x) (typed : x.type = .i1) :
    Yields env fr (.binary · .xor v (.bool true)) .bool (Execution.not x) := by
  obtain ⟨b, rfl⟩ := Datum.type_eq_int.mp typed
  refine ⟨rfl, _, rfl, fun dst => ?_⟩
  have one : orStuck (fr.word? (.bool true)) = .ok (.int 1 (.allOnes 1)) := rfl
  rw [execute_binary (orStuck_word? held rfl) one, binaryWords, if_pos rfl, BitVec.setWidth_eq,
    binaryInts, BitVec.xor_allOnes]
  rfl

end Instructions

end Pseudocode.Execution
