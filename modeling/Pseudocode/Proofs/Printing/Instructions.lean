import Pseudocode.Lowering.State
import Pseudocode.Proofs.Assembly.Rules
import Pseudocode.Proofs.Printing.Values

/-! # Instructions in the text of a module

* `Opcode`: the word that says what an instruction does.
* `Legible`: an instruction whose text tells it, since it is well typed and calls only what every
  module declares.
* `instr_append_inj`: an instruction is told by its text.
-/

namespace Pseudocode.Printing

open Assembly Lowering

/-! ## Operations -/

/-- What an instruction does. -/
inductive Opcode where
  | load | store
  | binary (op : BinaryOp)
  | icmp | fcmp
  | cast (op : Conversion)
  | call
deriving DecidableEq

namespace Opcode

def all : List Opcode :=
  [.load, .store, .binary .add, .binary .sub, .binary .mul, .binary .sdiv, .binary .fadd,
    .binary .fsub, .binary .fmul, .binary .fdiv, .binary .xor, .icmp, .fcmp, .cast .bitcast,
    .cast .zext, .call]

def text : Opcode → String
  | .load => "load"
  | .store => "store"
  | .binary op => op.text
  | .icmp => "icmp"
  | .fcmp => "fcmp"
  | .cast op => op.text
  | .call => "call"

theorem mem_all (o : Opcode) : o ∈ all := by
  cases o with
  | binary op => cases op <;> decide
  | cast op => cases op <;> decide
  | _ => decide

theorem text_injective {o o' : Opcode} (same : o.text = o'.text) : o = o' :=
  List.inj_on_of_nodup_map (f := text) (l := all) (by decide +kernel) (mem_all o) (mem_all o') same

end Opcode

def opcode : Instr → Opcode
  | .load _ _ => .load
  | .store _ _ => .store
  | .binary _ op _ _ => .binary op
  | .icmp _ _ _ _ => .icmp
  | .fcmp _ _ _ _ => .fcmp
  | .cast _ op _ => .cast op
  | .call _ _ _ => .call

theorem word_opcode (o : Opcode) : Word o.text.toList := by
  have all : ∀ o ∈ Opcode.all, (o.text.toList.all isWordPart) = true := by decide +kernel
  exact List.all_eq_true.mp (all o o.mem_all)

section Inversion

variable {i : Instr}

theorem exists_load (h : opcode i = .load) : ∃ dst src, i = .load dst src := by
  cases i <;> cases h
  exact ⟨_, _, rfl⟩

theorem exists_store (h : opcode i = .store) : ∃ value dst, i = .store value dst := by
  cases i <;> cases h
  exact ⟨_, _, rfl⟩

theorem exists_binary {op : BinaryOp} (h : opcode i = .binary op) :
    ∃ dst lhs rhs, i = .binary dst op lhs rhs := by
  cases i <;> cases h
  exact ⟨_, _, _, rfl⟩

theorem exists_icmp (h : opcode i = .icmp) : ∃ dst pred lhs rhs, i = .icmp dst pred lhs rhs := by
  cases i <;> cases h
  exact ⟨_, _, _, _, rfl⟩

theorem exists_fcmp (h : opcode i = .fcmp) : ∃ dst pred lhs rhs, i = .fcmp dst pred lhs rhs := by
  cases i <;> cases h
  exact ⟨_, _, _, _, rfl⟩

theorem exists_cast {op : Conversion} (h : opcode i = .cast op) :
    ∃ dst value, i = .cast dst op value := by
  cases i <;> cases h
  exact ⟨_, _, rfl⟩

theorem exists_call (h : opcode i = .call) : ∃ dst f args, i = .call dst f args := by
  cases i <;> cases h
  exact ⟨_, _, _, rfl⟩

variable {dst lhs rhs : Value}

theorem types_binary {op : BinaryOp} (typed : (Instr.binary dst op lhs rhs).WellTyped) :
    rhs.type = lhs.type ∧ dst.type = lhs.type := by
  cases typed with
  | binary _ left right => exact ⟨right.trans left.symm, left.symm⟩

theorem types_icmp {pred : IntCondition} (typed : (Instr.icmp dst pred lhs rhs).WellTyped) :
    rhs.type = lhs.type ∧ dst.type = .i1 := by
  cases typed with
  | icmp left right result => exact ⟨right.trans left.symm, result⟩

theorem types_fcmp {pred : DoubleCondition} (typed : (Instr.fcmp dst pred lhs rhs).WellTyped) :
    rhs.type = lhs.type ∧ dst.type = .i1 := by
  cases typed with
  | fcmp left right result => exact ⟨right.trans left.symm, result⟩

theorem exists_type_call {dst : Option Value} {f : Signature} {args : List Value}
    (typed : (Instr.call dst f args).WellTyped) : ∃ v, dst = some v ∧ v.type = f.result := by
  cases typed with
  | call result _ => exact ⟨_, rfl, result⟩

end Inversion

/-! ## The parts of a line -/

/-- What is written in front of the operation. -/
def target (i : Instr) : List Char :=
  match i.result? with
  | some v => v.text.toList ++ [' ', '=', ' ']
  | none => []

/-- What is written behind the operation. -/
def body : Instr → List Char
  | .load dst src => dst.type.text.toList ++ ',' :: ' ' :: src.typed.toList
  | .store value dst => value.typed.toList ++ ',' :: ' ' :: dst.typed.toList
  | .binary _ _ lhs rhs => lhs.typed.toList ++ ',' :: ' ' :: rhs.text.toList
  | .icmp _ pred lhs rhs =>
    pred.text.toList ++ ' ' :: (lhs.typed.toList ++ ',' :: ' ' :: rhs.text.toList)
  | .fcmp _ pred lhs rhs =>
    pred.text.toList ++ ' ' :: (lhs.typed.toList ++ ',' :: ' ' :: rhs.text.toList)
  | .cast dst _ value => value.typed.toList ++ ' ' :: 't' :: 'o' :: ' ' :: dst.type.text.toList
  | .call _ f args =>
    f.calleeText.toList ++ '(' :: ((", ".intercalate (args.map Value.typed)).toList ++ [')'])

theorem toList_text (i : Instr) :
    i.text.toList = target i ++ ((opcode i).text.toList ++ ' ' :: body i) := by
  cases i with
  | call dst f args =>
    cases dst <;> simp [Instr.text, target, Instr.result?, opcode, Opcode.text, body, toString]
  | _ => simp [Instr.text, target, Instr.result?, opcode, Opcode.text, body, toString]

/-- The text of the instruction tells it. -/
structure Legible (i : Instr) : Prop where
  typed : i.WellTyped
  operands : ∀ v ∈ i.operands, Written v
  result : ∀ v ∈ i.result?, ∃ name t, v = .temp name t ∧ Named name
  callee : ∀ dst f args, i = .call dst f args → f ∈ builtins

theorem Legible.written_result {i : Instr} (legible : Legible i) : ∀ v ∈ i.result?, Written v := by
  intro v given
  obtain ⟨name, t, rfl, named⟩ := legible.result v given
  exact named

/-- An instruction without a result stores something. -/
theorem Legible.opcode_of_none {i : Instr} (legible : Legible i) (none : i.result? = none) :
    opcode i = .store := by
  cases legible.typed <;> first | rfl | cases none

/-- The results are written alike, and what is behind them is the same. Only a store has no
    result, and no operation starts with the sign that a result starts with. -/
theorem target_append_inj {i j : Instr} {s s' : List Char} (legible : Legible i)
    (legible' : Legible j)
    (same : target i ++ ((opcode i).text.toList ++ s) =
      target j ++ ((opcode j).text.toList ++ s')) :
    i.result?.map Value.text = j.result?.map Value.text ∧
      (opcode i).text.toList ++ s = (opcode j).text.toList ++ s' := by
  have store_ne {name : String} {t : Ty} {r r' : List Char} :
      Opcode.store.text.toList ++ r ≠ (Value.temp name t).text.toList ++ r' := by
    rw [toList_text_temp]
    exact fun same => absurd (List.cons.inj same).1 (by decide)
  unfold target at same
  cases given : i.result? with
  | none =>
    cases given' : j.result? with
    | none =>
      simp only [given, given', List.nil_append] at same
      exact ⟨rfl, same⟩
    | some w =>
      obtain ⟨name, t, rfl, _⟩ := legible'.result w given'
      simp only [given, given', legible.opcode_of_none given, List.nil_append,
        List.append_assoc] at same
      exact absurd same store_ne
  | some v =>
    cases given' : j.result? with
    | none =>
      obtain ⟨name, t, rfl, _⟩ := legible.result v given
      simp only [given, given', legible'.opcode_of_none given', List.nil_append,
        List.append_assoc] at same
      exact absurd same.symm store_ne
    | some w =>
      simp only [given, given', List.append_assoc] at same
      obtain ⟨texts, rest⟩ := (word_text (legible.written_result v given)).append_inj
        (word_text (legible'.written_result w given')) (stops_cons rfl) (stops_cons rfl) same
      exact ⟨congrArg some (String.toList_inj.mp texts),
        (List.append_right_inj [' ', '=', ' ']).mp rest⟩

/-! ## Operands -/

theorem text_intCondition_injective {p p' : IntCondition} (same : p.text = p'.text) : p = p' := by
  cases p <;> cases p' <;> first | rfl | exact absurd same (by decide)

theorem text_doubleCondition_injective {p p' : DoubleCondition} (same : p.text = p'.text) :
    p = p' := by
  cases p <;> cases p' <;> first | rfl | exact absurd same (by decide)

theorem word_text_intCondition (p : IntCondition) : Word p.text.toList := by
  cases p <;> exact List.all_eq_true.mp rfl

theorem word_text_doubleCondition (p : DoubleCondition) : Word p.text.toList := by
  cases p <;> exact List.all_eq_true.mp rfl

/-- Two operands of one type, the second of which is written without it. -/
theorem operands_append_inj {lhs rhs lhs' rhs' : Value} {s s' : List Char}
    (written : ∀ v ∈ [lhs, rhs], Written v) (written' : ∀ v ∈ [lhs', rhs'], Written v)
    (types : rhs.type = lhs.type) (types' : rhs'.type = lhs'.type) (stops : Stops s)
    (stops' : Stops s') (same : lhs.typed.toList ++ ',' :: ' ' :: (rhs.text.toList ++ s) =
      lhs'.typed.toList ++ ',' :: ' ' :: (rhs'.text.toList ++ s')) :
    lhs = lhs' ∧ rhs = rhs' ∧ s = s' := by
  obtain ⟨rfl, rest⟩ := typed_append_inj (written lhs (by simp)) (written' lhs' (by simp))
    (stops_cons rfl) (stops_cons rfl) same
  obtain ⟨rfl, behind⟩ := text_append_inj_of_type (written rhs (by simp)) (written' rhs' (by simp))
    (types.trans types'.symm) stops
    stops' (List.cons.inj (List.cons.inj rest).2).2
  exact ⟨rfl, rfl, behind⟩

/-- A condition on two operands of one type. -/
theorem condition_append_inj {pred pred' : List Char} {lhs rhs lhs' rhs' : Value}
    {s s' : List Char} (word : Word pred) (word' : Word pred')
    (written : ∀ v ∈ [lhs, rhs], Written v) (written' : ∀ v ∈ [lhs', rhs'], Written v)
    (types : rhs.type = lhs.type) (types' : rhs'.type = lhs'.type) (stops : Stops s)
    (stops' : Stops s')
    (same : pred ++ ' ' :: (lhs.typed.toList ++ ',' :: ' ' :: (rhs.text.toList ++ s)) =
      pred' ++ ' ' :: (lhs'.typed.toList ++ ',' :: ' ' :: (rhs'.text.toList ++ s'))) :
    pred = pred' ∧ lhs = lhs' ∧ rhs = rhs' ∧ s = s' := by
  obtain ⟨words, rest⟩ := word.append_inj word' (stops_cons rfl) (stops_cons rfl) same
  exact ⟨words, operands_append_inj written written' types types' stops stops'
    (List.cons.inj rest).2⟩

/-- What is written first of a type. -/
theorem exists_head_text (t : Ty) :
    ∃ c cs, t.text.toList = c :: cs ∧ (c = 'i' ∨ c = 'd' ∨ c = '[') := by
  induction t with
  | int bits => exact ⟨_, _, toList_text_int bits, .inl rfl⟩
  | double => exact ⟨_, _, toList_text_double, .inr (.inl rfl)⟩
  | ptr t ih =>
    obtain ⟨c, cs, written, first⟩ := ih
    exact ⟨c, cs ++ ['*'], by rw [toList_text_ptr, written]; rfl, first⟩
  | array length t _ => exact ⟨_, _, toList_text_array length t, .inr (.inr rfl)⟩

/-- A value with its type starts like the type. -/
theorem typed_append_ne {v : Value} {c : Char} {s cs : List Char}
    (other : c ≠ 'i' ∧ c ≠ 'd' ∧ c ≠ '[') : v.typed.toList ++ s ≠ c :: cs := by
  obtain ⟨_, _, written, first⟩ := exists_head_text v.type
  rw [toList_typed, written]
  intro same
  obtain ⟨rfl, _⟩ := List.cons.inj same
  rcases first with rfl | rfl | rfl
  · exact other.1 rfl
  · exact other.2.1 rfl
  · exact other.2.2 rfl

theorem toList_arguments (v : Value) (vs : List Value) :
    (", ".intercalate ((v :: vs).map Value.typed)).toList =
      v.typed.toList ++ vs.flatMap fun w => ',' :: ' ' :: w.typed.toList := by
  induction vs generalizing v with
  | nil => simp
  | cons w vs ih =>
    rw [List.map_cons, List.map_cons, String.intercalate_cons_cons, String.toList_append,
      String.toList_append, ← List.map_cons, ih, List.flatMap_cons]
    simp

/-- Behind an argument comes a comma or the bracket. -/
theorem stops_furtherArguments (vs : List Value) (s : List Char) :
    Stops ((vs.flatMap fun v => ',' :: ' ' :: v.typed.toList) ++ ')' :: s) := by
  cases vs with
  | nil => exact stops_cons rfl
  | cons v vs => exact stops_cons rfl

theorem furtherArguments_append_inj {vs ws : List Value} {s s' : List Char}
    (written : ∀ v ∈ vs, Written v) (written' : ∀ w ∈ ws, Written w)
    (same : (vs.flatMap fun v => ',' :: ' ' :: v.typed.toList) ++ ')' :: s =
      (ws.flatMap fun w => ',' :: ' ' :: w.typed.toList) ++ ')' :: s') : vs = ws ∧ s = s' := by
  induction vs generalizing ws with
  | nil =>
    cases ws with
    | nil => exact ⟨rfl, (List.cons.inj same).2⟩
    | cons w ws => exact absurd (List.cons.inj same).1 (by decide)
  | cons v vs ih =>
    cases ws with
    | nil => exact absurd (List.cons.inj same).1 (by decide)
    | cons w ws =>
      obtain ⟨first, others⟩ := List.forall_mem_cons.mp written
      obtain ⟨first', others'⟩ := List.forall_mem_cons.mp written'
      simp only [List.flatMap_cons, List.append_assoc, List.cons_append, List.cons.injEq,
        true_and] at same
      obtain ⟨rfl, rest⟩ := typed_append_inj first first' (stops_furtherArguments vs s)
        (stops_furtherArguments ws s') same
      obtain ⟨rfl, behind⟩ := ih others others' rest
      exact ⟨rfl, behind⟩

theorem arguments_append_inj {vs ws : List Value} {s s' : List Char}
    (written : ∀ v ∈ vs, Written v) (written' : ∀ w ∈ ws, Written w)
    (same : (", ".intercalate (vs.map Value.typed)).toList ++ ')' :: s =
      (", ".intercalate (ws.map Value.typed)).toList ++ ')' :: s') : vs = ws ∧ s = s' := by
  cases vs with
  | nil =>
    cases ws with
    | nil => exact ⟨rfl, (List.cons.inj same).2⟩
    | cons w ws =>
      rw [toList_arguments, List.append_assoc] at same
      exact absurd same.symm (typed_append_ne (by decide))
  | cons v vs =>
    cases ws with
    | nil =>
      rw [toList_arguments, List.append_assoc] at same
      exact absurd same (typed_append_ne (by decide))
    | cons w ws =>
      obtain ⟨first, others⟩ := List.forall_mem_cons.mp written
      obtain ⟨first', others'⟩ := List.forall_mem_cons.mp written'
      rw [toList_arguments, toList_arguments, List.append_assoc, List.append_assoc] at same
      obtain ⟨rfl, rest⟩ := typed_append_inj first first' (stops_furtherArguments vs s)
        (stops_furtherArguments ws s') same
      obtain ⟨rfl, behind⟩ := furtherArguments_append_inj others others' rest
      exact ⟨rfl, behind⟩

/-- No way to write a call begins with another. -/
theorem calleeText_unique : ∀ f ∈ builtins, ∀ g ∈ builtins,
    f.calleeText.toList ++ ['('] <+: g.calleeText.toList ++ ['('] → f = g := by
  decide +kernel

/-- What every module declares is told by what is written for a call of it. -/
theorem calleeText_append_inj {f g : Signature} {s s' : List Char} (known : f ∈ builtins)
    (known' : g ∈ builtins)
    (same : f.calleeText.toList ++ '(' :: s = g.calleeText.toList ++ '(' :: s') :
    f = g ∧ s = s' := by
  rw [List.append_cons _ _ s, List.append_cons _ _ s'] at same
  have equal : f = g := by
    rcases List.prefix_or_prefix_of_prefix ⟨s, same⟩ (List.prefix_append _ s') with less | less
    · exact calleeText_unique f known g known' less
    · exact (calleeText_unique g known' f known less).symm
  subst equal
  exact ⟨rfl, List.append_cancel_left same⟩

/-! ## Instructions -/

/-- A result is told by its type and what is written for it. -/
theorem result_eq {i j : Instr} {v w : Value} (legible : Legible i) (legible' : Legible j)
    (given : i.result? = some v) (given' : j.result? = some w) (types : v.type = w.type)
    (texts : i.result?.map Value.text = j.result?.map Value.text) : v = w := by
  rw [given, given'] at texts
  exact text_injective (legible.written_result v given) (legible'.written_result w given') types
    (Option.some.inj texts)

/-- Instructions of one operation with results that are written alike are told by the rest of the
    line. -/
theorem body_append_inj {i j : Instr} {s s' : List Char} (legible : Legible i)
    (legible' : Legible j) (codes : opcode i = opcode j)
    (results : i.result?.map Value.text = j.result?.map Value.text)
    (same : body i ++ '\n' :: s = body j ++ '\n' :: s') : i = j ∧ s = s' := by
  have feed (s : List Char) : Stops ('\n' :: s) := stops_cons rfl
  have operands := legible.operands
  have operands' := legible'.operands
  cases i with
  | load dst src =>
    obtain ⟨dst', src', rfl⟩ := exists_load codes.symm
    simp only [body, List.append_assoc, List.cons_append] at same
    obtain ⟨types, rest⟩ :=
      text_append_inj (ends_cons rfl (by decide)) (ends_cons rfl (by decide)) same
    obtain ⟨rfl, behind⟩ := typed_append_inj (operands src List.mem_cons_self)
      (operands' src' List.mem_cons_self) (feed s) (feed s')
      ((List.append_right_inj [',', ' ']).mp rest)
    obtain rfl := result_eq legible legible' rfl rfl types results
    exact ⟨rfl, (List.cons.inj behind).2⟩
  | store value dst =>
    obtain ⟨value', dst', rfl⟩ := exists_store codes.symm
    simp only [body, List.append_assoc, List.cons_append] at same
    obtain ⟨rfl, rest⟩ := typed_append_inj (operands value List.mem_cons_self)
      (operands' value' List.mem_cons_self) (stops_cons rfl) (stops_cons rfl) same
    obtain ⟨rfl, behind⟩ := typed_append_inj
      (operands dst (List.mem_cons_of_mem _ List.mem_cons_self))
      (operands' dst' (List.mem_cons_of_mem _ List.mem_cons_self)) (feed s) (feed s')
      ((List.append_right_inj [',', ' ']).mp rest)
    exact ⟨rfl, (List.cons.inj behind).2⟩
  | binary dst op lhs rhs =>
    obtain ⟨dst', lhs', rhs', rfl⟩ := exists_binary codes.symm
    obtain ⟨alike, result⟩ := types_binary legible.typed
    obtain ⟨alike', result'⟩ := types_binary legible'.typed
    simp only [body, List.append_assoc, List.cons_append] at same
    obtain ⟨rfl, rfl, behind⟩ :=
      operands_append_inj operands operands' alike alike' (feed s) (feed s') same
    obtain rfl := result_eq legible legible' rfl rfl (result.trans result'.symm) results
    exact ⟨rfl, (List.cons.inj behind).2⟩
  | icmp dst pred lhs rhs =>
    obtain ⟨dst', pred', lhs', rhs', rfl⟩ := exists_icmp codes.symm
    obtain ⟨alike, result⟩ := types_icmp legible.typed
    obtain ⟨alike', result'⟩ := types_icmp legible'.typed
    simp only [body, List.append_assoc, List.cons_append] at same
    obtain ⟨words, rfl, rfl, behind⟩ := condition_append_inj (word_text_intCondition pred)
      (word_text_intCondition pred') operands operands' alike alike' (feed s) (feed s') same
    obtain rfl := text_intCondition_injective (String.toList_inj.mp words)
    obtain rfl := result_eq legible legible' rfl rfl (result.trans result'.symm) results
    exact ⟨rfl, (List.cons.inj behind).2⟩
  | fcmp dst pred lhs rhs =>
    obtain ⟨dst', pred', lhs', rhs', rfl⟩ := exists_fcmp codes.symm
    obtain ⟨alike, result⟩ := types_fcmp legible.typed
    obtain ⟨alike', result'⟩ := types_fcmp legible'.typed
    simp only [body, List.append_assoc, List.cons_append] at same
    obtain ⟨words, rfl, rfl, behind⟩ := condition_append_inj (word_text_doubleCondition pred)
      (word_text_doubleCondition pred') operands operands' alike alike' (feed s) (feed s') same
    obtain rfl := text_doubleCondition_injective (String.toList_inj.mp words)
    obtain rfl := result_eq legible legible' rfl rfl (result.trans result'.symm) results
    exact ⟨rfl, (List.cons.inj behind).2⟩
  | cast dst op value =>
    obtain ⟨dst', value', rfl⟩ := exists_cast codes.symm
    simp only [body, List.append_assoc, List.cons_append] at same
    obtain ⟨rfl, rest⟩ := typed_append_inj (operands value List.mem_cons_self)
      (operands' value' List.mem_cons_self) (stops_cons rfl) (stops_cons rfl) same
    obtain ⟨types, behind⟩ := text_append_inj (ends_cons rfl (by decide))
      (ends_cons rfl (by decide)) ((List.append_right_inj [' ', 't', 'o', ' ']).mp rest)
    obtain rfl := result_eq legible legible' rfl rfl types results
    exact ⟨rfl, (List.cons.inj behind).2⟩
  | call dst f args =>
    obtain ⟨dst', f', args', rfl⟩ := exists_call codes.symm
    simp only [body, List.append_assoc, List.cons_append, List.nil_append] at same
    obtain ⟨rfl, rest⟩ := calleeText_append_inj (legible.callee _ _ _ rfl)
      (legible'.callee _ _ _ rfl) same
    obtain ⟨rfl, behind⟩ := arguments_append_inj operands operands' rest
    obtain ⟨v, rfl, result⟩ := exists_type_call legible.typed
    obtain ⟨w, rfl, result'⟩ := exists_type_call legible'.typed
    obtain rfl := result_eq legible legible' rfl rfl (result.trans result'.symm) results
    exact ⟨rfl, (List.cons.inj behind).2⟩

/-- An instruction is told by its text, up to the end of the line. -/
theorem instr_append_inj {i j : Instr} {s s' : List Char} (legible : Legible i)
    (legible' : Legible j) (same : i.text.toList ++ '\n' :: s = j.text.toList ++ '\n' :: s') :
    i = j ∧ s = s' := by
  rw [toList_text, toList_text] at same
  simp only [List.append_assoc, List.cons_append] at same
  obtain ⟨results, rest⟩ := target_append_inj legible legible' same
  obtain ⟨words, rest⟩ := (word_opcode (opcode i)).append_inj (word_opcode (opcode j))
    (stops_cons rfl) (stops_cons rfl) rest
  have codes := Opcode.text_injective (String.toList_inj.mp words)
  exact body_append_inj legible legible' codes results (List.cons.inj rest).2

end Pseudocode.Printing
