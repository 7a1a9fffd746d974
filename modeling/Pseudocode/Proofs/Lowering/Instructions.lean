import Mathlib.Data.List.Nodup
import Pseudocode.Proofs.Assembly.Rules
import Pseudocode.Proofs.Lowering.Acceptance
import Pseudocode.Proofs.Lowering.Growth

/-! # The instructions of a draft

Every draft that a program is lowered to keeps the rules for instructions.

* `Lawful`: the invariant. The code of each block is sound, blocks end with values that may be
  used there, results have the names of the temporaries counted so far, and variables are
  bound to globals, to constants only if they are texts.
* `Lawful.extend` is the step: an instruction that fits is put behind the current block.
* `Emits.lawful`, `Performs.lawful`, `Lowers.lawful`: expressions and statements keep it.
-/

namespace Pseudocode.Lowering

open Assembly Typing

/-! ## The invariant -/

/-- The code of the block. -/
def codeAt (blocks : List Block) (b : BlockId) : List Instr := blocks[b.index]?.elim [] Block.instrs

structure Lawful (globals : List Global) (bindings : List (String × Binding)) (blocks : List Block)
    (temps : Nat) : Prop where
  code : ∀ block ∈ blocks, Sound builtins globals block.instrs
  ends : ∀ block ∈ blocks, ∀ t ∈ block.terminator,
    t.WellTyped .i32 ∧ ∀ v ∈ t.operands, Usable globals block.instrs v
  distinct : (resultNames blocks).Nodup
  numbered : ∀ name ∈ resultNames blocks, ∃ i < temps, name = tempName i
  bound : ∀ b ∈ bindings, ∃ g ∈ globals, b.2.storage = g.address ∧
    (g.constant = true → g.type.isArray = true)

namespace Draft

abbrev Lawful (d : Draft) : Prop := Lowering.Lawful d.globals d.bindings d.blocks d.temps

/-- The value may be used at the end of the block. -/
def UsableAt (d : Draft) (b : BlockId) (v : Value) : Prop :=
  Assembly.Usable d.globals (codeAt d.blocks b) v

/-- The value may be used where building goes on. -/
abbrev Usable (d : Draft) (v : Value) : Prop := d.UsableAt d.block v

end Draft

theorem codeAt_of_getElem? {blocks : List Block} {b : BlockId} {block : Block}
    (found : blocks[b.index]? = some block) : codeAt blocks b = block.instrs := by
  rw [codeAt, found]
  rfl

theorem prefix_codeAt {blocks blocks' : List Block} (later : Develops blocks blocks')
    (b : BlockId) : codeAt blocks b <+: codeAt blocks' b := by
  cases found : blocks[b.index]? with
  | none =>
    simp only [codeAt, found, Option.elim_none]
    exact List.nil_prefix
  | some block =>
    obtain ⟨block', found', longer, _⟩ := later b.index block found
    rw [codeAt_of_getElem? found, codeAt_of_getElem? found']
    exact longer

theorem Grows.usableAt {d d' : Draft} (grows : Grows d d') {b : BlockId} {v : Value}
    (usable : d.UsableAt b v) : d'.UsableAt b v :=
  usable.mono grows.globals.subset (prefix_codeAt grows.blocks b)

theorem Straight.usable {d d' : Draft} {code : List Instr} (added : Straight d code d')
    (h : Draft.IsOpen d.blocks d.block) {v : Value} (usable : d.Usable v) : d'.Usable v := by
  rw [Draft.Usable, added.block]
  exact (added.grows h).usableAt usable

theorem mem_modify {α : Type} {l : List α} {i : Nat} {f : α → α} {a : α}
    (member : a ∈ l.modify i f) : a ∈ l ∨ ∃ old, l[i]? = some old ∧ a = f old := by
  obtain ⟨j, found⟩ := List.mem_iff_getElem?.mp member
  rw [List.getElem?_modify] at found
  obtain ⟨old, before, rfl⟩ := Option.map_eq_some_iff.mp found
  by_cases same : i = j
  · subst same
    exact .inr ⟨old, before, by simp⟩
  · exact .inl (by simpa [same] using List.mem_of_getElem? before)

namespace Lawful

variable {globals : List Global} {bindings : List (String × Binding)} {blocks : List Block}
  {temps : Nat}

/-- One more instruction behind the code of a block. Its result has the name of the next
    temporary. -/
theorem extend (lawful : Lawful globals bindings blocks temps) {b : BlockId}
    (h : Draft.IsOpen blocks b) {i : Instr} {temps' : Nat}
    (fits : Fits builtins globals (codeAt blocks b) i) (counted : temps ≤ temps')
    (named : ∀ name ∈ i.resultName?, name = tempName temps ∧ temps < temps') :
    Lawful globals bindings (blocks.modify b.index (Draft.extend [i])) temps' := by
  obtain ⟨block, found, taking⟩ := h
  rw [codeAt_of_getElem? found] at fits
  have names := resultNames_extend (f := Draft.extend [i]) (fun _ => rfl)
    (List.getElem?_eq_some_iff.mp found).1
  refine ⟨?_, ?_, ?_, ?_, lawful.bound⟩
  · intro block' member
    rcases mem_modify member with old | ⟨old, found', rfl⟩
    · exact lawful.code block' old
    · cases found.symm.trans found'
      exact (lawful.code block (List.mem_of_getElem? found)).push fits
  · intro block' member t ended
    rcases mem_modify member with old | ⟨old, found', rfl⟩
    · exact lawful.ends block' old t ended
    · cases found.symm.trans found'
      cases taking.symm.trans (Option.mem_def.mp ended)
  · refine names.nodup_iff.mpr (lawful.distinct.append ?_ ?_)
    · cases result : i.resultName? <;> simp [result]
    · intro name old new
      obtain ⟨_, among, result⟩ := List.mem_filterMap.mp new
      cases List.mem_singleton.mp among
      obtain ⟨rfl, _⟩ := named name result
      obtain ⟨j, less, same⟩ := lawful.numbered _ old
      exact absurd (tempName_injective same) (Nat.ne_of_gt less)
  · intro name member
    rcases List.mem_append.mp (names.mem_iff.mp member) with old | new
    · obtain ⟨j, less, same⟩ := lawful.numbered name old
      exact ⟨j, Nat.lt_of_lt_of_le less counted, same⟩
    · obtain ⟨_, among, result⟩ := List.mem_filterMap.mp new
      cases List.mem_singleton.mp among
      obtain ⟨rfl, less⟩ := named name result
      exact ⟨temps, less, rfl⟩

theorem resultNames_terminate (d : Draft) (b : BlockId) (t : Terminator) :
    resultNames (d.terminate b t).blocks = resultNames d.blocks :=
  resultNames_modify (f := fun block => { block with terminator := some t }) (fun _ => rfl) _ _

theorem terminate {d : Draft} (lawful : d.Lawful) {b : BlockId} {t : Terminator}
    (typed : t.WellTyped .i32) (usable : ∀ v ∈ t.operands, d.UsableAt b v) :
    (d.terminate b t).Lawful where
  code block member := by
    rcases mem_modify member with old | ⟨old, found, rfl⟩
    · exact lawful.code block old
    · exact lawful.code old (List.mem_of_getElem? found)
  ends block member t' ended := by
    rcases mem_modify member with old | ⟨old, found, rfl⟩
    · exact lawful.ends block old t' ended
    · cases ended
      refine ⟨typed, fun v used => ?_⟩
      have there := usable v used
      rwa [Draft.UsableAt, codeAt_of_getElem? found] at there
  distinct := resultNames_terminate d b t ▸ lawful.distinct
  numbered := resultNames_terminate d b t ▸ lawful.numbered
  bound := lawful.bound

theorem addBlock {d : Draft} (lawful : d.Lawful) : d.addBlock.Lawful where
  code block member := by
    rcases List.mem_append.mp member with old | new
    · exact lawful.code block old
    · cases List.mem_singleton.mp new
      exact sound_nil
  ends block member t ended := by
    rcases List.mem_append.mp member with old | new
    · exact lawful.ends block old t ended
    · cases List.mem_singleton.mp new
      cases ended
  distinct := by
    rw [Draft.addBlock, resultNames_append]
    exact (List.append_nil _).symm ▸ lawful.distinct
  numbered := by
    rw [Draft.addBlock, resultNames_append]
    exact (List.append_nil _).symm ▸ lawful.numbered
  bound := lawful.bound

/-- One more global, and what is bound besides is bound to it. -/
theorem addGlobal (lawful : Lawful globals bindings blocks temps) {g : Global}
    {more : List (String × Binding)}
    (bound : ∀ b ∈ more, b.2.storage = g.address ∧ g.constant = false) :
    Lawful (globals ++ [g]) (bindings ++ more) blocks temps where
  code block member := (lawful.code block member).mono (List.subset_append_left _ _)
  ends block member t ended := by
    obtain ⟨typed, usable⟩ := lawful.ends block member t ended
    exact ⟨typed, fun v used => (usable v used).mono (List.subset_append_left _ _) List.prefix_rfl⟩
  distinct := lawful.distinct
  numbered := lawful.numbered
  bound b member := by
    rcases List.mem_append.mp member with old | new
    · obtain ⟨g', member, address⟩ := lawful.bound b old
      exact ⟨g', List.mem_append_left _ member, address⟩
    · obtain ⟨address, changing⟩ := bound b new
      exact ⟨g, by simp, address, fun constant => by simp [changing] at constant⟩

theorem lookup (lawful : Lawful globals bindings blocks temps) {name : String} {b : Binding}
    (found : bindings.lookup name = some b) : ∃ g ∈ globals, b.storage = g.address ∧
      (g.constant = true → g.type.isArray = true) := by
  obtain ⟨before, after, rfl, _⟩ := List.lookup_eq_some_iff.mp found
  exact lawful.bound (name, b) (by simp)

end Lawful

/-! ## Instructions one by one -/

/-- An instruction that defines a temporary and calls nothing. -/
theorem fits_of_result {d : Draft} {b : BlockId} {t : Ty} {i : Instr} (typed : i.WellTyped)
    (operands : ∀ v ∈ i.operands, d.UsableAt b v) (result : i.result? = some (d.next t))
    (callee : ∀ dst f args, i = .call dst f args → f ∈ builtins) :
    Fits builtins d.globals (codeAt d.blocks b) i where
  typed := typed
  operands := operands
  result v given := by
    cases result.symm.trans given
    exact ⟨_, _, rfl⟩
  callee := callee
  target := by
    rintro value dst rfl
    cases result

theorem lawful_define {d : Draft} (h : Draft.IsOpen d.blocks d.block) (lawful : d.Lawful) {t : Ty}
    {instr : Value → Instr} (typed : (instr (d.next t)).WellTyped)
    (operands : ∀ v ∈ (instr (d.next t)).operands, d.Usable v)
    (result : (instr (d.next t)).result? = some (d.next t))
    (callee : ∀ dst f args, instr (d.next t) = .call dst f args → f ∈ builtins := by nofun) :
    (d.define t instr).Lawful ∧ (d.define t instr).Usable (d.next t) := by
  have fits := fits_of_result typed operands result callee
  constructor
  · refine lawful.extend h fits (Nat.le_succ _) fun name named => ?_
    rw [Instr.resultName?, result] at named
    cases named
    exact ⟨rfl, Nat.lt_succ_self _⟩
  · obtain ⟨block, found, _⟩ := h
    have there : (d.define t instr).blocks[d.block.index]? =
        some (Draft.extend [instr (d.next t)] block) := by
      rw [Draft.define, Draft.push, List.getElem?_modify_eq, found]
      rfl
    have code : codeAt (d.define t instr).blocks d.block = block.instrs ++ [instr (d.next t)] :=
      codeAt_of_getElem? there
    refine ⟨instr (d.next t), ?_, result⟩
    rw [show (d.define t instr).block = d.block from rfl, code]
    simp

/-- A value is written to the global of a variable. -/
theorem lawful_store {d : Draft} (h : Draft.IsOpen d.blocks d.block) (lawful : d.Lawful)
    {name : String} {b : Binding} {v : Value} {κ : Kind}
    (found : d.bindings.lookup name = some b) (held : b.storage.type = .ptr κ.ty)
    (scalar : κ.isText = false) (typed : v.type = κ.ty) (usable : d.Usable v) :
    (d.push (.store v b.storage)).Lawful := by
  obtain ⟨g, member, address, constant⟩ := lawful.lookup found
  rw [address] at held ⊢
  have type : g.type = κ.ty := by injection held
  have changing : g.constant = false := by
    refine Bool.eq_false_iff.mpr fun fixed => ?_
    have array := constant fixed
    rw [type] at array
    cases κ with
    | text => cases scalar
    | int | real | bool => cases array
  refine lawful.extend h ⟨.store (held.trans (congrArg Ty.ptr typed.symm)), ?_, nofun, nofun, ?_⟩
    (Nat.le_refl _) nofun
  · intro w used
    rcases List.mem_pair.mp used with rfl | rfl
    · exact usable
    · exact usable_address member _
  · rintro _ _ ⟨⟩
    exact ⟨g, member, changing, rfl⟩

/-! ## Operators and arguments -/

section Values

variable {d : Draft} {v : Value} {κ : Kind}

theorem lawful_widen (h : Draft.IsOpen d.blocks d.block) (lawful : d.Lawful) (κ' : Kind)
    (typed : v.type = κ.ty) (usable : d.Usable v) :
    (d.widen κ κ' v).Lawful ∧ (d.widen κ κ' v).Usable (d.widened κ κ' v) := by
  unfold Draft.widen Draft.widened
  split
  · refine lawful_define h lawful (.zext typed rfl (by decide)) ?_ rfl
    exact List.forall_mem_singleton.mpr usable
  · exact ⟨lawful, usable⟩

theorem lawful_bitcast (h : Draft.IsOpen d.blocks d.block) (lawful : d.Lawful)
    (typed : v.type.isPointer = true) (usable : d.Usable v) :
    (d.define .bytePtr (.cast · .bitcast v)).Lawful ∧
      (d.define .bytePtr (.cast · .bitcast v)).Usable (d.next .bytePtr) := by
  refine lawful_define h lawful (.bitcast typed rfl) ?_ rfl
  exact List.forall_mem_singleton.mpr usable

theorem lawful_pass (h : Draft.IsOpen d.blocks d.block) (lawful : d.Lawful)
    (typed : v.type = κ.ty) (usable : d.Usable v) :
    (d.pass κ v).Lawful ∧ (d.pass κ v).Usable (d.passed κ v) := by
  cases κ with
  | text size => exact lawful_bitcast h lawful (by rw [typed]; rfl) usable
  | bool =>
    refine lawful_define h lawful (.zext typed rfl (by decide)) ?_ rfl
    exact List.forall_mem_singleton.mpr usable
  | int | real => exact ⟨lawful, usable⟩

theorem lawful_passAll {vs : List (Kind × Value)} :
    ∀ {d : Draft}, Draft.IsOpen d.blocks d.block → d.Lawful →
      (∀ v ∈ vs, v.2.type = v.1.ty ∧ d.Usable v.2) →
      (d.passAll vs).Lawful ∧ ∀ w ∈ d.passedAll vs, (d.passAll vs).Usable w := by
  induction vs with
  | nil =>
    intro d _ lawful _
    exact ⟨lawful, nofun⟩
  | cons v vs ih =>
    intro d h lawful given
    obtain ⟨typed, usable⟩ := given v (by simp)
    obtain ⟨lawful₁, usable₁⟩ := lawful_pass h lawful typed usable
    obtain ⟨_, first⟩ := Straight.pass d v.1 v.2
    obtain ⟨_, others⟩ := Straight.passAll (d.pass v.1 v.2) vs
    obtain ⟨lawful₂, usable₂⟩ := ih (first.isOpen h) lawful₁ fun w member => by
      obtain ⟨typed, usable⟩ := given w (by simp [member])
      exact ⟨typed, first.usable h usable⟩
    refine ⟨lawful₂, ?_⟩
    rintro w (_ | ⟨_, member⟩)
    · exact others.usable (first.isOpen h) usable₁
    · exact usable₂ w member

/-- The type that a value of the kind has as an argument. -/
def passedTy : Kind → Ty
  | .text _ => .bytePtr
  | .real => .double
  | .int | .bool => .i32

theorem passed_type (typed : v.type = κ.ty) : (d.passed κ v).type = passedTy κ := by
  cases κ with
  | text | bool => rfl
  | int | real => exact typed

theorem promoted_passedTy (κ : Kind) : (passedTy κ).Promoted := by
  cases κ with
  | text => exact .inr (.inr rfl)
  | real => exact .inr (.inl rfl)
  | int | bool => exact .inl ⟨32, rfl, Nat.le_refl _⟩

theorem passedAll_type {vs : List (Kind × Value)} (typed : ∀ v ∈ vs, v.2.type = v.1.ty) :
    ∀ {d : Draft}, (d.passedAll vs).map Value.type = vs.map fun v => passedTy v.1 := by
  induction vs with
  | nil => intro d; rfl
  | cons v vs ih =>
    intro d
    have rest := ih (fun v member => typed v (by simp [member])) (d := d.pass v.1 v.2)
    simp only [Draft.passedAll, List.map_cons, passed_type (typed v (by simp)), rest]

end Values

theorem wellTyped_operator {op : Operator} {κ : Kind} {l r dst : Value} (scalar : κ.isText = false)
    (left : l.type = κ.ty) (right : r.type = κ.ty) (result : dst.type = (resultKind op κ).ty) :
    (operatorInstr op κ l r dst).WellTyped := by
  cases op with
  | compare c =>
    cases κ with
    | text => cases scalar
    | int | bool => exact .icmp left right result
    | real => exact .fcmp left right result
  | arithmetic a =>
    have works {κ : Kind} {bits : Nat} (whole : κ.ty = .int bits) :
        (intOp a).WorksOn κ.ty := by
      cases a <;> exact ⟨bits, whole⟩
    cases κ with
    | text => cases scalar
    | int | bool =>
      exact .binary (result ▸ works rfl) (left.trans result.symm) (right.trans result.symm)
    | real =>
      refine .binary ?_ (left.trans result.symm) (right.trans result.symm)
      cases a <;> exact result

/-- Arguments of these kinds, once they are passed, fit the function that is called. -/
theorem admits_passed {pos : Position} {name : String} {κs : List Kind} {κ : Kind} {f : Signature}
    (admitted : callKind pos name κs = .ok κ) (known : builtin? name = some f) :
    f ∈ builtins ∧ f.result = .i32 ∧ f.Admits (κs.map passedTy) := by
  obtain ⟨_, ⟨rfl, size, rfl⟩ | ⟨rfl, size, rest, rfl⟩ | ⟨rfl, rfl⟩⟩ := callKind_eq_ok.mp admitted
  · cases known
    exact ⟨by decide, rfl, [], rfl, nofun, nofun⟩
  · cases known
    refine ⟨by decide, rfl, rest.map passedTy, rfl, fun _ => rfl, ?_⟩
    intro t member
    obtain ⟨κ, _, rfl⟩ := List.mem_map.mp member
    exact promoted_passedTy κ
  · cases known
    exact ⟨by decide, rfl, [], rfl, nofun, nofun⟩

/-- An operator on two values, once they are of one kind. -/
theorem lawful_operate {d d₁ d₂ : Draft} {op : Operator} {κl κr κ : Kind} {l r : Value}
    (h : Draft.IsOpen d.blocks d.block) (lawful : d.Lawful) (left : l.type = κl.ty)
    (right : r.type = κr.ty) (usableLeft : d.Usable l) (usableRight : d.Usable r)
    (joined : κl.join? κr = some κ) (wideLeft : d₁ = d.widen κl κ l)
    (wideRight : d₂ = d₁.widen κr κ r) :
    (d₂.define (resultKind op κ).ty
      (operatorInstr op κ (d.widened κl κ l) (d₁.widened κr κ r))).Lawful ∧
    (d₂.define (resultKind op κ).ty
      (operatorInstr op κ (d.widened κl κ l) (d₁.widened κr κ r))).Usable
      (d₂.next (resultKind op κ).ty) := by
  subst wideLeft wideRight
  obtain ⟨joinsLeft, joinsRight⟩ := Kind.joins_of_join? joined
  obtain ⟨_, first⟩ := Straight.widen d κl κ l
  obtain ⟨_, second⟩ := Straight.widen (d.widen κl κ l) κr κ r
  have open₁ := first.isOpen h
  obtain ⟨lawful₁, usable₁⟩ := lawful_widen h lawful κ left usableLeft
  obtain ⟨lawful₂, usable₂⟩ :=
    lawful_widen open₁ lawful₁ κ right (first.usable h usableRight)
  have typed : (operatorInstr op κ (d.widened κl κ l) ((d.widen κl κ l).widened κr κ r)
      (((d.widen κl κ l).widen κr κ r).next (resultKind op κ).ty)).WellTyped :=
    wellTyped_operator (Kind.isText_of_join? joined) (widened_type left joinsLeft)
      (widened_type right joinsRight) rfl
  refine lawful_define (second.isOpen open₁) lawful₂ typed ?_ ?_ ?_
  · have both : (operatorInstr op κ (d.widened κl κ l) ((d.widen κl κ l).widened κr κ r)
        (((d.widen κl κ l).widen κr κ r).next (resultKind op κ).ty)).operands =
        [d.widened κl κ l, (d.widen κl κ l).widened κr κ r] := by
      cases op <;> cases κ <;> rfl
    intro v used
    rcases List.mem_pair.mp (both ▸ used) with rfl | rfl
    · exact second.usable open₁ usable₁
    · exact usable₂
  · cases op <;> cases κ <;> rfl
  · cases op <;> cases κ <;> nofun

/-! ## Expressions -/

mutual

/-- An expression keeps the invariant, and its value may be used where it leaves off. -/
theorem Emits.lawful {d d' : Draft} {e : Expression} {κ : Kind} {v : Value}
    (h : Draft.IsOpen d.blocks d.block) (lawful : d.Lawful) :
    Emits d e κ v d' → d'.Lawful ∧ d'.Usable v
  | .bool b => ⟨lawful, usable_bool _ _ b⟩
  | .integer _ => ⟨lawful, usable_i32 _ _ _⟩
  | .real _ => ⟨lawful, trivial⟩
  | .string s => by
    have added := lawful.addGlobal (g := d.literal s) (List.forall_mem_nil _)
    rw [List.append_nil] at added
    exact ⟨added, usable_address (by simp [Draft.addString]) _⟩
  | .text found _ => by
    obtain ⟨g, member, address, _⟩ := lawful.lookup found
    rw [address]
    exact ⟨lawful, usable_address member _⟩
  | .load (κ := κ) found held scalar => by
    obtain ⟨g, member, address, _⟩ := lawful.lookup found
    refine lawful_define h lawful (.load held ?_) ?_ rfl
    · cases κ with
      | text => cases scalar
      | int | real | bool => rfl
    · rintro w (_ | ⟨_, ⟨⟩⟩)
      rw [address]
      exact usable_address member _
  | .parenthesized inner => inner.lawful h lawful
  | .not operand => by
    obtain ⟨lawful₁, usable⟩ := operand.lawful h lawful
    obtain ⟨_, added⟩ := operand.straight
    refine lawful_define (added.isOpen h) lawful₁ (.binary ⟨1, rfl⟩ operand.type_eq rfl) ?_ rfl
    exact List.forall_mem_cons.mpr
      ⟨usable, List.forall_mem_singleton.mpr (usable_bool _ _ true)⟩
  | .negate operand signed => by
    obtain ⟨lawful₁, usable⟩ := operand.lawful h lawful
    obtain ⟨_, added⟩ := operand.straight
    have typed := operand.type_eq
    obtain rfl | rfl := signed
    · refine lawful_define (added.isOpen h) lawful₁ (.binary ⟨32, rfl⟩ rfl typed) ?_ rfl
      exact List.forall_mem_cons.mpr ⟨usable_i32 _ _ 0, List.forall_mem_singleton.mpr usable⟩
    · refine lawful_define (added.isOpen h) lawful₁ (.binary rfl rfl typed) ?_ rfl
      exact List.forall_mem_cons.mpr ⟨trivial, List.forall_mem_singleton.mpr usable⟩
  | .binary left right joined widenLeft widenRight => by
    obtain ⟨_, addedLeft⟩ := left.straight
    obtain ⟨_, addedRight⟩ := right.straight
    have open₁ := addedLeft.isOpen h
    obtain ⟨lawful₁, usableLeft⟩ := left.lawful h lawful
    obtain ⟨lawful₂, usableRight⟩ := right.lawful open₁ lawful₁
    exact lawful_operate (addedRight.isOpen open₁) lawful₂ left.type_eq right.type_eq
      (addedRight.usable open₁ usableLeft) usableRight joined widenLeft widenRight
  | .call args admitted known passed => by
    obtain ⟨_, added⟩ := args.straight
    have open₁ := added.isOpen h
    obtain ⟨lawful₁, usable⟩ := args.lawful h lawful
    have typed := args.type_eq
    obtain ⟨lawful₂, usable₂⟩ :=
      lawful_passAll open₁ lawful₁ fun v member => ⟨typed v member, usable v member⟩
    obtain ⟨_, pass⟩ := Straight.passAll _ _
    subst passed
    obtain ⟨among, result, admits⟩ := admits_passed admitted known
    rw [List.map_map] at admits
    refine lawful_define (pass.isOpen open₁) lawful₂ (.call result.symm ?_) usable₂ rfl ?_
    · rw [passedAll_type typed]
      exact admits
    · rintro _ _ _ ⟨⟩
      exact among

theorem EmitsAll.lawful {d d' : Draft} {es : List Expression} {vs : List (Kind × Value)}
    (h : Draft.IsOpen d.blocks d.block) (lawful : d.Lawful) :
    EmitsAll d es vs d' → d'.Lawful ∧ ∀ v ∈ vs, d'.Usable v.2
  | .nil => ⟨lawful, nofun⟩
  | .cons head tail => by
    obtain ⟨_, first⟩ := head.straight
    obtain ⟨_, others⟩ := tail.straight
    have open₁ := first.isOpen h
    obtain ⟨lawful₁, usable⟩ := head.lawful h lawful
    obtain ⟨lawful₂, usable₂⟩ := tail.lawful open₁ lawful₁
    refine ⟨lawful₂, ?_⟩
    rintro w (_ | ⟨_, member⟩)
    · exact others.usable open₁ usable
    · exact usable₂ w member

end

/-! ## Statements -/

/-- A call of a function that the language provides. -/
theorem lawful_called {d : Draft} (h : Draft.IsOpen d.blocks d.block) (lawful : d.Lawful)
    {f : Signature} {args : List Value} (known : f ∈ builtins) (result : f.result = .i32)
    (admits : f.Admits (args.map Value.type)) (usable : ∀ v ∈ args, d.Usable v) :
    (d.called f args).Lawful ∧ (d.called f args).Usable (d.next .i32) := by
  refine lawful_define h lawful (.call result.symm admits) usable rfl ?_
  rintro _ _ _ ⟨⟩
  exact known

theorem lawful_printed {d : Draft} (h : Draft.IsOpen d.blocks d.block) (lawful : d.Lawful)
    {name : String} {format : Binding} {v : Value} (found : d.bindings.lookup name = some format)
    (promoted : v.type.Promoted) (usable : d.Usable v) :
    (d.printed format.storage v).Lawful := by
  obtain ⟨g, member, address, _⟩ := lawful.lookup found
  rw [address]
  obtain ⟨lawful₁, usable₁⟩ := lawful_bitcast h lawful rfl (usable_address member _)
  have added := Straight.define d .bytePtr (.cast · .bitcast g.address)
  refine (lawful_called (added.isOpen h) lawful₁ (by decide) rfl ?_ ?_).1
  · refine ⟨[v.type], rfl, fun _ => rfl, ?_⟩
    exact List.forall_mem_singleton.mpr promoted
  · intro w used
    rcases List.mem_pair.mp used with rfl | rfl
    · exact usable₁
    · exact added.usable h usable

theorem Performs.lawful {d d' : Draft} {s : Statement} (h : Draft.IsOpen d.blocks d.block)
    (lawful : d.Lawful) (done : Performs d s d') : d'.Lawful := by
  cases done with
  | output text =>
    obtain ⟨_, added⟩ := text.straight
    obtain ⟨lawful₁, usable₁⟩ := text.lawful h lawful
    obtain ⟨_, passed⟩ := Straight.pass _ _ _
    have open₁ := added.isOpen h
    obtain ⟨lawful₂, usable₂⟩ := lawful_pass open₁ lawful₁ text.type_eq usable₁
    refine (lawful_called (passed.isOpen open₁) lawful₂ (by decide) rfl ?_ ?_).1
    · exact ⟨[], rfl, nofun, nofun⟩
    · exact List.forall_mem_singleton.mpr usable₂
  | input found held =>
    have added := Straight.called d ⟨getcharName, .i32, [], false⟩ []
    have admits : Signature.Admits ⟨getcharName, .i32, [], false⟩ [] := ⟨[], rfl, nofun, nofun⟩
    obtain ⟨lawful₁, usable⟩ :=
      lawful_called h lawful (by decide) rfl admits (List.forall_mem_nil _)
    exact lawful_store (κ := .int) (added.isOpen h) lawful₁ found held rfl rfl usable
  | custom => exact lawful
  | assign found held scalar value =>
    obtain ⟨_, added⟩ := value.straight
    obtain ⟨lawful₁, usable⟩ := value.lawful h lawful
    rw [← added.bindings] at found
    exact lawful_store (added.isOpen h) lawful₁ found held scalar value.type_eq usable
  | printInt value whole found =>
    obtain ⟨_, added⟩ := value.straight
    obtain ⟨_, passed⟩ := Straight.pass _ _ _
    have open₁ := added.isOpen h
    obtain ⟨lawful₁, usable₁⟩ := value.lawful h lawful
    obtain ⟨lawful₂, usable₂⟩ := lawful_pass open₁ lawful₁ value.type_eq usable₁
    rw [← passed.bindings] at found
    refine lawful_printed (passed.isOpen open₁) lawful₂ found ?_ usable₂
    rw [passed_type value.type_eq]
    exact promoted_passedTy _
  | printReal value found =>
    obtain ⟨_, added⟩ := value.straight
    obtain ⟨lawful₁, usable⟩ := value.lawful h lawful
    refine lawful_printed (added.isOpen h) lawful₁ found ?_ usable
    exact .inr (.inl value.type_eq)
  | call value => exact (value.lawful h lawful).1
  | empty => exact lawful

section Stages

variable {d d' : Draft} {v : Value}

theorem lawful_br (lawful : d.Lawful) (b target : BlockId) : (d.terminate b (.br target)).Lawful :=
  lawful.terminate trivial nofun

theorem lawful_condBr (lawful : d.Lawful) {b thenBlock elseBlock : BlockId} (typed : v.type = .i1)
    (usable : d.UsableAt b v) : (d.terminate b (.condBr v thenBlock elseBlock)).Lawful := by
  refine lawful.terminate typed ?_
  exact List.forall_mem_singleton.mpr usable

end Stages

mutual

/-- A statement keeps the invariant. -/
theorem Lowers.lawful {d d' : Draft} {s : Statement} (h : Draft.IsOpen d.blocks d.block)
    (lawful : d.Lawful) : Lowers d s d' → d'.Lawful
  | .performs done => done.lawful h lawful
  | .declare _ _ _ => by
    refine lawful.addGlobal ?_
    rintro b (_ | ⟨_, ⟨⟩⟩)
    exact ⟨rfl, rfl⟩
  | .ifElse condition first second => by
    obtain ⟨_, added⟩ := condition.straight
    obtain ⟨lawful₁, usable⟩ := condition.lawful h lawful
    have region₁ := first.region (isOpen_branch _)
    have open₁ := isOpen_otherwise region₁
    have region₂ := second.region open₁
    have lawful₂ := first.lawful (isOpen_branch _) lawful₁.addBlock.addBlock.addBlock
    have lawful₃ := second.lawful open₁ (lawful_br lawful₂ _ _)
    have upToSecond := ((grows_branch _).trans (first.grows (isOpen_branch _))).trans
      ((grows_otherwise region₁.isOpen).trans (second.grows open₁))
    have grows := fun d => upToSecond.trans (grows_rejoin (d := d) region₂.isOpen)
    exact lawful_condBr (lawful_br lawful₃ _ _) condition.type_eq ((grows _).usableAt usable)
  | .while condition inner => by
    obtain ⟨_, added⟩ := condition.straight
    have head := added.region (isOpen_loop h)
    obtain ⟨lawful₁, usable⟩ := condition.lawful (isOpen_loop h)
      (lawful_br lawful.addBlock.addBlock.addBlock _ _)
    have lawful₂ := inner.lawful (isOpen_loopBody h head)
      (lawful_condBr lawful₁ condition.type_eq usable)
    exact lawful_br lawful₂ _ _
  | .repeat inner condition => by
    have open₁ := (inner.region (isOpen_again h)).isOpen
    have lawful₁ := inner.lawful (isOpen_again h) (lawful_br lawful.addBlock.addBlock _ _)
    obtain ⟨lawful₂, usable⟩ := condition.lawful open₁ lawful₁
    exact lawful_condBr lawful₂ condition.type_eq usable

/-- Statements in a row keep the invariant. -/
theorem LowersAll.lawful {d d' : Draft} {ss : List Statement} (h : Draft.IsOpen d.blocks d.block)
    (lawful : d.Lawful) : LowersAll d ss d' → d'.Lawful
  | .nil => lawful
  | .cons head tail => tail.lawful (head.region h).isOpen (head.lawful h lawful)

end

theorem lawful_initial : Draft.initial.Lawful where
  code := by
    rintro block (_ | ⟨_, ⟨⟩⟩)
    exact sound_nil
  ends := by
    rintro block (_ | ⟨_, ⟨⟩⟩)
    nofun
  distinct := .nil
  numbered := nofun
  bound := by
    rintro b (_ | ⟨_, _ | ⟨_, ⟨⟩⟩⟩)
    · exact ⟨_, .head _, rfl, fun _ => rfl⟩
    · exact ⟨_, .tail _ (.head _), rfl, fun _ => rfl⟩

/-- What a whole program leaves is lawful, also once it is closed. -/
theorem LowersAll.lawful_finished {d : Draft} {p : Program} (lowered : LowersAll .initial p d) :
    d.finished.Lawful := by
  refine (lowered.lawful ready_initial.isOpen lawful_initial).terminate rfl ?_
  exact List.forall_mem_singleton.mpr (usable_i32 _ _ 0)

end Pseudocode.Lowering
