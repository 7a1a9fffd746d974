import Pseudocode.Proofs.Lowering.Building
import Pseudocode.Proofs.Lowering.Checking

/-! # Which programs are lowered

The lowering of statements is run beside `Typing.check`, as that of expressions was.

* `Ready d Γ`: statements can be lowered from the draft `d` under the names `Γ`.
* `statement_follows`: the lowering of a statement follows the check of it.
* `lower_follows_rules`: a program is lowered exactly when the static rules admit it, and
  otherwise the first breach of them is the answer.
-/

namespace Pseudocode.Lowering

open Assembly Typing

/-! ## What holds between statements -/

/-- The current block takes instructions, the variables that are bound are those that are
    known, and the formats are among them. -/
structure Ready (d : Draft) (Γ : Env) : Prop where
  isOpen : Draft.IsOpen d.blocks d.block
  agrees : Agrees d.bindings Γ
  formats : Env.initial <+: Γ

namespace Ready

variable {d d' : Draft} {Γ : Env} {code : List Instr}

theorem straight (ready : Ready d Γ) (added : Straight d code d') : Ready d' Γ where
  isOpen := added.isOpen ready.isOpen
  agrees := added.bindings ▸ ready.agrees
  formats := ready.formats

/-- Building goes on in another block, and nothing else that matters has changed. -/
theorem elsewhere (ready : Ready d Γ) (same : d'.bindings = d.bindings)
    (h : Draft.IsOpen d'.blocks d'.block) : Ready d' Γ where
  isOpen := h
  agrees := same ▸ ready.agrees
  formats := ready.formats

theorem openScope (ready : Ready d Γ) : Ready d.openScope Γ :=
  ready.elsewhere rfl ready.isOpen

theorem lookup_format (ready : Ready d Γ) {name : String} (entry : Entry)
    (format : Env.initial.lookup name = some entry) :
    ∃ b, d.bindings.lookup name = some b := by
  obtain ⟨more, rfl⟩ := ready.formats
  have found : (Env.initial ++ more).lookup name = some entry := by
    rw [List.lookup_append, format]
    rfl
  obtain ⟨b, bound, _⟩ := ready.agrees.lookup_some found
  exact ⟨b, bound⟩

theorem intFormat (ready : Ready d Γ) : ∃ b, d.bindings.lookup intFormatName = some b :=
  ready.lookup_format ⟨.text 9, none⟩ rfl

theorem realFormat (ready : Ready d Γ) : ∃ b, d.bindings.lookup realFormatName = some b :=
  ready.lookup_format ⟨.text 10, none⟩ rfl

end Ready

/-! ## Small steps of statements -/

theorem callProvided_state {d : Draft} (h : Draft.IsOpen d.blocks d.block) {pos : Position}
    {name : String} {f : Signature} {args : List Value} (known : builtin? name = some f)
    (whole : f.result = .i32) :
    callProvided pos name args d.state = .ok (d.next .i32) (d.called f args).state := by
  have looked : function? name d.state = .ok (some f) d.state := known ▸ function?_state d name
  refine (bind_ok looked).trans ?_
  rw [← whole, Draft.called, ← whole]
  exact emitCall_state h f args

theorem printFormatted_state {d : Draft} (h : Draft.IsOpen d.blocks d.block) {pos : Position}
    {name : String} {b : Binding} {v : Value} (found : d.bindings.lookup name = some b) :
    printFormatted pos name v d.state = .ok () (d.printed b.storage v).state := by
  have looked : resolve? name d.state = .ok (some b) d.state := found ▸ resolve?_state d name
  have open₁ := (Straight.define d .bytePtr (.cast · .bitcast b.storage)).isOpen h
  refine (bind_ok looked).trans ?_
  refine (bind_ok (bitcast_state h b.storage .bytePtr)).trans ?_
  exact bind_ok (callProvided_state open₁ rfl rfl)

theorem textPointer_follows {d : Draft} (h : Draft.IsOpen d.blocks d.block) {pos : Position}
    {user : String} {κ : Kind} {v : Value} (typed : v.type = κ.ty) :
    Follows d.depth (require κ.isText pos (.textExpected user κ.ty))
      (textPointer pos user v d.state) fun _ w d' =>
        (∃ size, κ = .text size) ∧ w = d.passed κ v ∧ d' = d.pass κ v := by
  have cast := bitcast_state h v .bytePtr
  cases κ <;> simp only [textPointer, typed, Kind.ty, Kind.isText, Ty.isPointer, require]
  case text size => exact .step cast ⟨⟨size, rfl⟩, rfl, rfl⟩
  case int | real | bool => exact .fail rfl rfl

theorem condition_follows {d : Draft} {Γ : Env} (h : Draft.IsOpen d.blocks d.block)
    (agrees : Agrees d.bindings Γ) (pos : Position) (construct : Construct) (c : Expression) :
    Follows d.depth (checkCondition Γ pos construct c) (condition pos construct c d.state)
      fun _ v d' => Emits d c .bool v d' := by
  refine (expression_follows c h agrees).bind fun κ v d₁ value => ?_
  obtain ⟨_, added⟩ := value.straight
  rw [← added.depth]
  have typed := value.type_eq
  cases κ <;> simp only [typed, Kind.ty]
  case bool => exact .step rfl value
  case text | int | real => exact .fail rfl rfl

theorem inNewScope_follows {α β : Type} {d : Draft} {checked : Except Diagnostic β}
    {body : Lower α} {P : β → α → Draft → Prop}
    (inner : Follows (d.depth + 1) checked (body d.openScope.state) P)
    (depth : ∀ b a d', P b a d' → d'.depth = d.depth + 1) :
    Follows d.depth checked (inNewScope body d.state) fun b a d'' =>
      ∃ d', P b a d' ∧ d'' = d'.closeScope := by
  cases checked with
  | error breach =>
    obtain ⟨d', failed, same⟩ := inner
    exact .fail (inNewScope_error failed same) (by simp [Draft.closeScope, same])
  | ok b =>
    obtain ⟨a, d', succeeded, holds⟩ := inner
    exact .step (inNewScope_ok succeeded (depth b a d' holds)) ⟨d', holds, rfl⟩

theorem addThree_state {α : Type} (d : Draft) (f : BlockId → BlockId → BlockId → Lower α) :
    (addBlock >>= fun b => addBlock >>= fun b' => addBlock >>= fun b'' => f b b' b'') d.state =
      f (d.ahead 0) (d.ahead 1) (d.ahead 2) d.addBlock.addBlock.addBlock.state := by
  have one : d.addBlock.blocks.length = d.blocks.length + 1 := by simp [Draft.addBlock]
  have two : d.addBlock.addBlock.blocks.length = d.blocks.length + 2 := by simp [Draft.addBlock]
  rw [bind_ok (addBlock_state d), bind_ok (addBlock_state _), bind_ok (addBlock_state _), one, two]
  rfl

theorem addTwo_state {α : Type} (d : Draft) (f : BlockId → BlockId → Lower α) :
    (addBlock >>= fun b => addBlock >>= fun b' => f b b') d.state =
      f (d.ahead 0) (d.ahead 1) d.addBlock.addBlock.state := by
  have one : d.addBlock.blocks.length = d.blocks.length + 1 := by simp [Draft.addBlock]
  rw [bind_ok (addBlock_state d), bind_ok (addBlock_state _), one]
  rfl

/-! ## Statements -/

/-- What a statement leaves: a draft by the rules, ready for the next statement. -/
def Done (d : Draft) (s : Statement) (Γ' : Env) (_ : Unit) (d' : Draft) : Prop :=
  Lowers d s d' ∧ Ready d' Γ' ∧ d'.depth = d.depth

def DoneAll (d : Draft) (ss : List Statement) (Γ' : Env) (_ : Unit) (d' : Draft) : Prop :=
  LowersAll d ss d' ∧ Ready d' Γ' ∧ d'.depth = d.depth

theorem Performs.done {d d' : Draft} {s : Statement} {Γ : Env} (ready : Ready d Γ)
    (performed : Performs d s d') : Done d s Γ () d' := by
  obtain ⟨_, added⟩ := performed.straight
  exact ⟨.performs performed, ready.straight added, added.depth⟩

theorem output_follows {d : Draft} {Γ : Env} (ready : Ready d Γ) (pos : Position)
    (e : Expression) :
    Follows d.depth (check Γ (.output pos e)) (statement (.output pos e) d.state)
      (Done d (.output pos e)) := by
  refine (expression_follows e ready.isOpen ready.agrees).bind fun κ v d₁ value => ?_
  obtain ⟨_, added⟩ := value.straight
  have open₁ := added.isOpen ready.isOpen
  rw [← added.depth]
  refine (textPointer_follows open₁ value.type_eq).bind ?_
  rintro _ w d₂ ⟨⟨size, rfl⟩, rfl, rfl⟩
  obtain ⟨_, passed⟩ := Straight.pass d₁ (.text size) v
  refine .step (bind_ok (callProvided_state (passed.isOpen open₁) rfl rfl)) ?_
  exact (Performs.output value).done ready

theorem input_follows {d : Draft} {Γ : Env} (ready : Ready d Γ) (pos : Position) (k : Key) :
    Follows d.depth (check Γ (.input pos k)) (statement (.input pos k) d.state)
      (Done d (.input pos k)) := by
  refine (storageOf_follows k ready.agrees).bind ?_
  rintro entry storage d' ⟨rfl, b, found, rfl, typed⟩
  have whole : entry.kind.stored = .i32 ↔ entry.kind = .int := by
    simpa [Kind.ty, Kind.isText] using @Kind.stored_eq_ty entry.kind .int
  by_cases fits : entry.kind = .int
  · rw [whole.mpr fits] at typed
    simp only [typed, Ty.pointee?, require, fits, if_true, decide_true]
    have called := Straight.called d' ⟨getcharName, .i32, [], false⟩ []
    refine .step ?_ ((Performs.input found typed).done ready)
    refine (bind_ok (callProvided_state ready.isOpen rfl rfl)).trans ?_
    exact emit_state (called.isOpen ready.isOpen) _
  · simp only [typed, Ty.pointee?, require, Option.some.injEq, whole, fits, if_false,
      decide_false]
    exact .fail (by rw [k.root_eq_firstName]; rfl) rfl

/-- Bindings agree with the lookup of the rules, which decides whether the name is bound. -/
theorem declare_follows {d : Draft} {Γ : Env} (ready : Ready d Γ) (pos : Position)
    (name : String) (type : DeclaredType) :
    Follows d.depth (check Γ (.declare pos name type)) (statement (.declare pos name type) d.state)
      (Done d (.declare pos name type)) := by
  cases own : declaredKind? type with
  | none =>
    cases type <;> cases own
    exact .step (tell_state d _) (Performs.custom.done ready)
  | some κ =>
    obtain ⟨init, initial, stored⟩ : ∃ init, initializer? type = some init ∧ init.type = κ.stored := by
      cases type <;> cases own <;> exact ⟨_, rfl, rfl⟩
    have lowered : statement (.declare pos name type) d.state = _ :=
      declare_state initial d pos name
    rw [lowered, check, checkDeclare, own]
    cases known : Γ.lookup name with
    | none =>
      have new := ready.agrees.lookup_none known
      refine .step (bindVariable_new (d := d.addVariable name init) _ pos new) ?_
      refine ⟨.declare own initial new, ⟨ready.isOpen, ?_, ?_⟩, rfl⟩
      · have entered : Known (name, d.newBinding pos name init) (name, ⟨κ, some pos⟩) :=
          ⟨rfl, rfl, _, congrArg (Value.global _ ∘ Ty.ptr) stored⟩
        exact List.rel_append ready.agrees (.cons entered .nil)
      · exact ready.formats.trans (List.prefix_append _ _)
    | some entry =>
      obtain ⟨b, bound, place, _⟩ := ready.agrees.lookup_some known
      have refused := bindVariable_old (d := d.addVariable name init)
        (d.newBinding pos name init) pos bound
      rw [place] at refused
      exact .fail refused rfl

/-- The rule compares kinds, the lowering types, which say the same of stored scalars. -/
theorem assign_follows {d : Draft} {Γ : Env} (ready : Ready d Γ) (pos : Position) (k : Key)
    (e : Expression) :
    Follows d.depth (check Γ (.assign pos k e)) (statement (.assign pos k e) d.state)
      (Done d (.assign pos k e)) := by
  refine (storageOf_follows k ready.agrees).bind ?_
  rintro entry storage d' ⟨rfl, b, found, rfl, typed⟩
  refine (expression_follows e ready.isOpen ready.agrees).bind fun κ v d₁ value => ?_
  obtain ⟨_, added⟩ := value.straight
  rw [← added.depth]
  simp only [typed, Ty.pointee?, value.type_eq, require, Option.some.injEq, Kind.stored_eq_ty]
  by_cases fits : entry.kind = κ ∧ κ.isText = false
  · obtain ⟨rfl, scalar⟩ := fits
    rw [Kind.stored_eq_ty.mpr ⟨rfl, scalar⟩] at typed
    simp only [scalar, if_true, and_self, decide_true]
    exact .step (emit_state (added.isOpen ready.isOpen) _)
      ((Performs.assign found typed scalar value).done ready)
  · simp only [fits, if_false, decide_false]
    exact .fail (by rw [k.root_eq_firstName]; rfl) rfl

theorem printInt_follows {d : Draft} {Γ : Env} (ready : Ready d Γ) (pos : Position)
    (e : Expression) :
    Follows d.depth (check Γ (.printInt pos e)) (statement (.printInt pos e) d.state)
      (Done d (.printInt pos e)) := by
  refine (expression_follows e ready.isOpen ready.agrees).bind fun κ v d₁ value => ?_
  obtain ⟨_, added⟩ := value.straight
  have ready₁ := ready.straight added
  obtain ⟨format, found⟩ := ready₁.intFormat
  have typed := value.type_eq
  rw [← added.depth]
  cases κ <;> simp only [typed, Kind.ty, Ty.width?, require]
  case int =>
    exact .step (printFormatted_state ready₁.isOpen found)
      ((Performs.printInt value (.inl rfl) found).done ready)
  case bool =>
    have wide := Straight.define d₁ .i32 (.cast · .zext v)
    refine .step ?_ ((Performs.printInt value (.inr rfl) found).done ready)
    refine (bind_ok (zext_state ready₁.isOpen v .i32)).trans ?_
    exact printFormatted_state (wide.isOpen ready₁.isOpen) found
  case text | real => exact .fail rfl rfl

theorem printReal_follows {d : Draft} {Γ : Env} (ready : Ready d Γ) (pos : Position)
    (e : Expression) :
    Follows d.depth (check Γ (.printReal pos e)) (statement (.printReal pos e) d.state)
      (Done d (.printReal pos e)) := by
  refine (expression_follows e ready.isOpen ready.agrees).bind fun κ v d₁ value => ?_
  obtain ⟨_, added⟩ := value.straight
  have ready₁ := ready.straight added
  obtain ⟨format, found⟩ := ready₁.realFormat
  have typed := value.type_eq
  rw [← added.depth]
  cases κ <;> simp only [typed, Kind.ty, Ty.isDouble, require]
  case real =>
    exact .step (printFormatted_state ready₁.isOpen found)
      ((Performs.printReal value found).done ready)
  case text | int | bool => exact .fail rfl rfl

theorem call_statement_follows {d : Draft} {Γ : Env} (ready : Ready d Γ)
    (pos callPos : Position) (name : String) (args : List Expression) :
    Follows d.depth (check Γ (.call pos callPos name args))
      (statement (.call pos callPos name args) d.state) (Done d (.call pos callPos name args)) := by
  have inner := expression_follows (.call callPos name args) ready.isOpen ready.agrees
  have checked : check Γ (.call pos callPos name args) =
      (kindOf Γ (.call callPos name args) >>= fun _ => .ok Γ) := by
    simp only [check, kindOf]
    cases kindsOf Γ args <;> rfl
  have lowered : statement (.call pos callPos name args) d.state =
      ((expression (.call callPos name args) >>= fun _ => pure ()) d.state) := by
    show _ = ((expressions args >>= fun vs => call callPos name vs) >>= fun _ => pure ()) d.state
    rw [bind_assoc]
    rfl
  rw [checked, lowered]
  refine inner.bind fun κ v d' value => ?_
  exact .step rfl ((Performs.call value).done ready)

/-! ## Branches and loops -/

/-- The lowering of statements in a row follows the check of them. -/
def BlockFollows (ss : List Statement) : Prop :=
  ∀ {d : Draft} {Γ : Env}, Ready d Γ →
    Follows d.depth (checkAll Γ ss) (block ss d.state) (DoneAll d ss)

/-- A body in a scope of its own. -/
theorem BlockFollows.inNewScope {ss : List Statement} (body : BlockFollows ss) {d : Draft}
    {Γ : Env} (ready : Ready d Γ) :
    Follows d.depth (checkAll Γ ss) (inNewScope (block ss) d.state) fun Γ' _ d'' =>
      ∃ d', DoneAll d.openScope ss Γ' () d' ∧ d'' = d'.closeScope :=
  inNewScope_follows (body ready.openScope) fun _ _ _ done => done.2.2

/-- The block with the condition is ended last, so it has to be open through both branches. A
    missing alternative is checked and lowered as an empty one. -/
theorem ifElse_follows {d : Draft} {Γ : Env} (ready : Ready d Γ) (pos : Position)
    (c : Expression) {thenBranch : List Statement} {elseBranch : Option (List Statement)}
    (first : BlockFollows thenBranch) (second : BlockFollows (elseBranch.getD [])) :
    Follows d.depth (check Γ (.ifElse pos c thenBranch elseBranch))
      (statement (.ifElse pos c thenBranch elseBranch) d.state)
      (Done d (.ifElse pos c thenBranch elseBranch)) := by
  have checked : check Γ (.ifElse pos c thenBranch elseBranch) =
      (checkCondition Γ pos .if c >>= fun _ => checkAll Γ thenBranch >>= fun Γ₁ =>
        checkAll Γ₁ (elseBranch.getD [])) := by
    cases elseBranch <;> rfl
  have lowered : statement (.ifElse pos c thenBranch elseBranch) =
      ifElse pos c (block thenBranch) (block (elseBranch.getD [])) := by
    cases elseBranch <;> rfl
  rw [checked, lowered]
  refine (condition_follows ready.isOpen ready.agrees pos .if c).bind fun _ v d₁ value => ?_
  obtain ⟨_, added⟩ := value.straight
  have ready₁ := ready.straight added
  rw [← added.depth]
  refine .step_bind rfl ?_
  rw [addThree_state]
  refine .step_bind (enterBlock_state _ _) ?_
  have atThen : Ready (d₁.addBlock.addBlock.addBlock.enter (d₁.ahead 0)) Γ :=
    ready₁.elsewhere rfl (isOpen_branch d₁)
  refine (first.inNewScope atThen).bind ?_
  rintro Γ₁ _ _ ⟨d₂, ⟨lowered₂, ready₂, depth₂⟩, rfl⟩
  have region₂ := lowered₂.region (isOpen_branch d₁)
  refine .step_bind (terminate_state (d := d₂.closeScope) ready₂.isOpen _) ?_
  refine .step_bind (enterBlock_state _ _) ?_
  have atElse : Ready (d₂.closeScope.jump (.br (d₁.ahead 2)) (d₁.ahead 1)) Γ₁ :=
    ready₂.elsewhere rfl (isOpen_otherwise region₂)
  have depth₁ : d₂.closeScope.depth = d₁.depth := by
    simp [Draft.closeScope, depth₂, Draft.openScope, Draft.enter, Draft.addBlock]
  show Follows d₁.depth _ _ _
  rw [← depth₁]
  refine (second.inNewScope atElse).bind_step ?_
  rintro Γ₂ _ _ ⟨d₃, ⟨lowered₃, ready₃, depth₃⟩, rfl⟩
  have region₃ := lowered₃.region (isOpen_otherwise region₂)
  have originOpen := isOpen_rejoin ready₁.isOpen region₂ region₃
  have whole : Lowers d (.ifElse pos c thenBranch elseBranch) _ :=
    .ifElse value lowered₂ lowered₃
  refine ⟨(), _, ?_, whole, ready₃.elsewhere rfl (whole.region ready.isOpen).isOpen, ?_⟩
  · refine (bind_ok (terminate_state (d := d₃.closeScope) ready₃.isOpen _)).trans ?_
    exact bind_ok (terminateAt_state originOpen _)
  · show d₃.depth - 1 = d.depth
    rw [depth₃, ← added.depth, ← depth₁]
    rfl

/-- Condition and body share the scope of the loop; what follows it is entered outside. -/
theorem whileLoop_follows {d : Draft} {Γ : Env} (ready : Ready d Γ) (pos : Position)
    (c : Expression) {body : List Statement} (inner : BlockFollows body) :
    Follows d.depth (check Γ (.while pos c body)) (statement (.while pos c body) d.state)
      (Done d (.while pos c body)) := by
  show Follows d.depth _ (whileLoop pos c (block body) d.state) _
  rw [whileLoop, addThree_state]
  refine .step_bind (terminate_state (isOpen_addThree ready.isOpen) _) ?_
  refine .step_bind (enterBlock_state _ _) ?_
  have atHead : Ready d.loop Γ := ready.elsewhere rfl (isOpen_loop ready.isOpen)
  have inScope : Follows (d.depth + 1) (check Γ (.while pos c body))
      ((condition pos .while c >>= fun v =>
        terminate (.condBr v (d.ahead 1) (d.ahead 2)) >>= fun _ =>
          enterBlock (d.ahead 1) >>= fun _ => block body >>= fun _ =>
            terminate (.br (d.ahead 0))) d.loop.state)
      (fun Γ' _ d' => d'.depth = d.depth + 1 ∧
        Done d (.while pos c body) Γ' () (d'.closeScope.enter (d.ahead 2))) := by
    refine (condition_follows atHead.isOpen ready.agrees pos .while c).bind
      fun _ v d₁ value => ?_
    obtain ⟨_, added⟩ := value.straight
    have ready₁ := atHead.straight added
    have region₁ := added.region atHead.isOpen
    have atBody : Ready (d.loopBody d₁ v) Γ :=
      ready₁.elsewhere rfl (isOpen_loopBody ready.isOpen region₁)
    have depth₁ : d₁.depth = d.depth + 1 := added.depth
    refine .step_bind (terminate_state ready₁.isOpen _) ?_
    refine .step_bind (enterBlock_state _ _) ?_
    show Follows (d.depth + 1) _ _ _
    rw [← depth₁]
    refine (inner atBody).bind_step ?_
    rintro Γ' _ d₂ ⟨lowered, ready₂, depth₂⟩
    have whole : Lowers d (.while pos c body) _ := .while value lowered
    have depth₂ : d₂.depth = d₁.depth := depth₂
    refine ⟨(), _, terminate_state ready₂.isOpen _, depth₂, whole,
      ready₂.elsewhere rfl (whole.region ready.isOpen).isOpen, ?_⟩
    show d₂.depth - 1 = d.depth
    omega
  refine (inNewScope_follows inScope fun _ _ _ holds => holds.1).bind_step ?_
  rintro Γ' _ _ ⟨d', ⟨_, done⟩, rfl⟩
  exact ⟨(), _, rfl, done⟩

/-- The scope of the loop holds the condition too, which is checked behind the body. -/
theorem repeatLoop_follows {d : Draft} {Γ : Env} (ready : Ready d Γ) (pos : Position)
    (c : Expression) {body : List Statement} (inner : BlockFollows body) :
    Follows d.depth (check Γ (.repeat pos body c)) (statement (.repeat pos body c) d.state)
      (Done d (.repeat pos body c)) := by
  show Follows d.depth _ (repeatLoop pos (block body) c d.state) _
  rw [repeatLoop, addTwo_state]
  refine .step_bind (terminate_state (isOpen_addTwo ready.isOpen) _) ?_
  refine .step_bind (enterBlock_state _ _) ?_
  have atBody : Ready d.again Γ := ready.elsewhere rfl (isOpen_again ready.isOpen)
  have inScope : Follows (d.depth + 1) (check Γ (.repeat pos body c))
      ((block body >>= fun _ => condition pos .repeat c >>= fun v =>
        terminate (.condBr v (d.ahead 1) (d.ahead 0))) d.again.state)
      (fun Γ' _ d' => d'.depth = d.depth + 1 ∧
        Done d (.repeat pos body c) Γ' () (d'.closeScope.enter (d.ahead 1))) := by
    refine (inner atBody).bind ?_
    rintro Γ₁ _ d₁ ⟨lowered, ready₁, depth₁⟩
    have depth₁ : d₁.depth = d.depth + 1 := depth₁
    show Follows (d.depth + 1) _ _ _
    rw [← depth₁]
    refine (condition_follows ready₁.isOpen ready₁.agrees pos .repeat c).bind
      fun _ v d₂ value => ?_
    obtain ⟨_, added⟩ := value.straight
    have ready₂ := ready₁.straight added
    have whole : Lowers d (.repeat pos body c) _ := .repeat lowered value
    refine .step (terminate_state ready₂.isOpen _) ⟨added.depth, whole,
      ready₂.elsewhere rfl (whole.region ready.isOpen).isOpen, ?_⟩
    show d₂.depth - 1 = d.depth
    rw [added.depth, depth₁]
    rfl
  refine (inNewScope_follows inScope fun _ _ _ holds => holds.1).bind_step ?_
  rintro Γ' _ _ ⟨d', ⟨_, done⟩, rfl⟩
  exact ⟨(), _, rfl, done⟩

/-! ## Programs -/

mutual

/-- The lowering of a statement follows the check of it. -/
theorem statement_follows {d : Draft} {Γ : Env} (ready : Ready d Γ) :
    ∀ s : Statement, Follows d.depth (check Γ s) (statement s d.state) (Done d s)
  | .output pos e => output_follows ready pos e
  | .input pos k => input_follows ready pos k
  | .declare pos name type => declare_follows ready pos name type
  | .assign pos k e => assign_follows ready pos k e
  | .printInt pos e => printInt_follows ready pos e
  | .printReal pos e => printReal_follows ready pos e
  | .ifElse pos c thenBranch (some elseBranch) =>
    ifElse_follows ready pos c (block_follows thenBranch) (block_follows elseBranch)
  | .ifElse pos c thenBranch none =>
    ifElse_follows ready pos c (block_follows thenBranch) (block_follows [])
  | .while pos c body => whileLoop_follows ready pos c (block_follows body)
  | .repeat pos body c => repeatLoop_follows ready pos c (block_follows body)
  | .call pos callPos name args => call_statement_follows ready pos callPos name args
  | .empty _ => .step rfl (Performs.empty.done ready)

/-- The lowering of statements in a row follows the check of them. -/
theorem block_follows : ∀ ss : List Statement, BlockFollows ss
  | [], _, _, ready => .step rfl ⟨.nil, ready, rfl⟩
  | s :: rest, d, Γ, ready => by
    refine (statement_follows ready s).bind ?_
    rintro Γ₁ _ d₁ ⟨head, ready₁, depth₁⟩
    rw [← depth₁]
    refine (block_follows rest ready₁).imp ?_
    rintro Γ₂ _ d₂ _ ⟨tail, ready₂, depth₂⟩
    exact ⟨.cons head tail, ready₂, depth₂.trans depth₁⟩

end

theorem ready_initial : Ready Draft.initial Env.initial where
  isOpen := ⟨.empty, rfl, rfl⟩
  agrees := .cons ⟨rfl, rfl, _, rfl⟩ (.cons ⟨rfl, rfl, _, rfl⟩ .nil)
  formats := List.prefix_rfl

/-- What a whole program leaves is a region from the first block on. -/
theorem LowersAll.region_initial {d : Draft} {p : Program} (lowered : LowersAll .initial p d) :
    Region [.empty] 0 d.blocks d.block.index :=
  lowered.region ready_initial.isOpen

/-- The block of the number, once the exit of the region returns. Only the exit returns; every
    other block is ended by what the region says of it. -/
theorem block_finished {d : Draft} (region : Region [.empty] 0 d.blocks d.block.index) {i : Nat}
    {block : Block} (found : d.finished.blocks[i]? = some block) :
    i = d.block.index ∧ block.terminator = some (.ret (.i32 0)) ∨
      i ≠ d.block.index ∧ ∃ t, block.terminator = some t ∧ t.successors ≠ [] ∧
        ∀ b ∈ t.successors, 1 ≤ b.index ∧ b.index < d.blocks.length := by
  change (endAt d.blocks d.block.index (.ret (.i32 0)))[i]? = some block at found
  by_cases last : i = d.block.index
  · obtain ⟨block', found', _⟩ := region.isOpen
    rw [last, endAt, List.getElem?_modify_eq, found'] at found
    cases found
    exact .inl ⟨last, rfl⟩
  · rw [endAt_of_ne last] at found
    have below := (List.getElem?_eq_some_iff.mp found).1
    have inside : Inside [.empty] 0 d.blocks i := by
      simp [Inside]
      omega
    obtain ⟨block', t, found', ended, goesOn, within⟩ := (region.between i inside).ended last
    rw [found'] at found
    cases found
    exact .inr ⟨last, t, ended, goesOn, within⟩

theorem ended_finished {d : Draft} (region : Region [.empty] 0 d.blocks d.block.index) :
    ∀ block ∈ d.finished.blocks, block.terminator.isSome := by
  intro block member
  obtain ⟨i, found⟩ := List.mem_iff_getElem?.mp member
  rcases block_finished region found with ⟨_, ended⟩ | ⟨_, t, ended, _⟩
  · simp [ended]
  · simp [ended]

/-- A program in which no breach is found becomes the module of a draft, and any other
    fails with the breach. -/
theorem lower_result (p : Program) :
    match checkAll Env.initial p with
    | .ok _ => ∃ d, LowersAll .initial p d ∧ (lower p).result = .ok d.finished.target
    | .error x => (lower p).result = .error x := by
  have follows := block_follows p ready_initial
  cases checked : checkAll Env.initial p with
  | error x =>
    obtain ⟨d, failed, -⟩ := follows.refused checked
    have whole : program p .empty = .error x d.state :=
      (bind_ok start_empty).trans (bind_error failed)
    simp only [lower, whole]
  | ok Γ =>
    obtain ⟨_, d, succeeded, lowered, ready, -⟩ := follows.accepted checked
    obtain ⟨s, finished⟩ := finish_state ready.isOpen (ended_finished lowered.region_initial)
    have whole : program p .empty = .ok d.finished.target s :=
      (bind_ok start_empty).trans ((bind_ok succeeded).trans finished)
    exact ⟨d, lowered, by simp only [lower, whole]⟩

theorem exists_draft {p : Program} {m : Assembly.Module} (h : (lower p).result = .ok m) :
    ∃ d, LowersAll .initial p d ∧ m = d.finished.target := by
  have result := lower_result p
  cases checked : checkAll Env.initial p with
  | error x =>
    rw [checked] at result
    cases h.symm.trans result
  | ok Γ =>
    rw [checked] at result
    obtain ⟨d, lowered, same⟩ := result
    exact ⟨d, lowered, Except.ok.inj (h.symm.trans same)⟩

theorem lower_eq_error {p : Program} {x : Diagnostic} :
    (lower p).result = .error x ↔ checkAll Env.initial p = .error x := by
  have result := lower_result p
  cases checked : checkAll Env.initial p with
  | error y =>
    rw [checked] at result
    simp [show (lower p).result = .error y from result]
  | ok Γ =>
    rw [checked] at result
    obtain ⟨d, _, same⟩ := result
    simp [same]

/-- A program is lowered exactly when the static rules admit it, with the formats as the
    only names in front of it. Any other program fails, and the error is the first breach of
    the rules that is met when operands and arguments are gone through from left to right,
    conditions before bodies but behind those of a REPEAT, and statements in order. -/
theorem lower_follows_rules (p : Program) :
    ((∃ m, (lower p).result = .ok m) ↔ ∃ Γ, AcceptsAll Env.initial p Γ) ∧
      ∀ x, (lower p).result = .error x ↔ checkAll Env.initial p = .error x := by
  refine ⟨?_, fun x => lower_eq_error⟩
  constructor
  · rintro ⟨m, succeeded⟩
    cases checked : checkAll Env.initial p with
    | error x => cases succeeded.symm.trans (lower_eq_error.mpr checked)
    | ok Γ => exact ⟨Γ, checkAll_eq_ok.mp checked⟩
  · rintro ⟨Γ, accepted⟩
    have result := lower_result p
    rw [accepted.checkAll_eq] at result
    obtain ⟨d, _, succeeded⟩ := result
    exact ⟨_, succeeded⟩

end Pseudocode.Lowering
