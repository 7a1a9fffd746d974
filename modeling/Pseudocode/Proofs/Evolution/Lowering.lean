import Pseudocode.Proofs.Evolution.Drafts
import Pseudocode.Proofs.Globals.Items
import Pseudocode.Proofs.Inertness.Congruence
import Pseudocode.Proofs.Lowering.Acceptance

/-! # Lowering changes a draft step by step

Whatever is lowered, and wherever it stops, it makes changes of `Evolves` to the draft that it
starts from.

* `Arrives own named P d result`: such changes lead from `d` to the draft of the outcome.
* `Evolving named x`: from each draft that takes instructions, `x` leads to another one by changes
  to its own blocks, whether it succeeds or fails.
* `evolving_congruence`: so it is with the small steps, and with all that is made of them.
* `statement_evolving`, `block_evolving`: the lowering of statements is of this kind.
* `ifElse_state`, `whileLoop_state`, `repeatLoop_state`: branches and loops up to their bodies.
-/

namespace Pseudocode.Lowering

open Assembly Globals

/-- Instructions can be added. -/
def Draft.Takes (d : Draft) : Prop := Draft.IsOpen d.blocks d.block

/-- Changes to own blocks lead from the draft to that of the outcome. In this `P` holds if the
    outcome is a success. -/
def Arrives {α : Type} (own : Nat → Prop) (named : String → Prop) (P : Draft → Prop) (d : Draft)
    (result : EStateM.Result Diagnostic State α) : Prop :=
  ∃ d', Evolves own named d d' ∧
    ((∃ a, result = .ok a d'.state) ∧ P d' ∨ (∃ e, result = .error e d'.state) ∧ d'.Takes)

/-- The step leads from each draft to another one that takes instructions. -/
def Evolving {α : Type} (named : String → Prop) (x : Lower α) : Prop :=
  ∀ d : Draft, d.Takes → Arrives d.owns named Draft.Takes d (x d.state)

/-! ## Blocks that stay open -/

section

variable {named : String → Prop} {d d' : Draft} {b : BlockId}

theorem takes_push (takes : d.Takes) (i : Instr) : (d.push i).Takes :=
  (Straight.push d i).isOpen takes

/-- An open block other than the current one stays open, and does not become the current one. -/
theorem Evolves.isOpen_other (evolves : Evolves d.owns named d d')
    (isOpen : Draft.IsOpen d.blocks b) (other : b.index ≠ d.block.index) :
    Draft.IsOpen d'.blocks b ∧ b.index ≠ d'.block.index := by
  have foreign : ¬ d.owns b.index := by
    rintro (same | new)
    · exact other same
    · exact absurd (lt_of_isOpen isOpen) (Nat.not_lt.mpr new)
  refine ⟨evolves.keeps.isOpen_other foreign isOpen, fun same => foreign ?_⟩
  rw [same]
  exact evolves.keeps.block d.owns_block

/-- So it is when the current block has been ended behind that. -/
theorem Evolves.isOpen_endAt (evolves : Evolves d.owns named d d')
    (isOpen : Draft.IsOpen d.blocks b) (other : b.index ≠ d.block.index) (t : Terminator) :
    Draft.IsOpen (d'.terminate d'.block t).blocks b := by
  obtain ⟨still, apart⟩ := evolves.isOpen_other isOpen other
  exact Lowering.isOpen_endAt apart still

/-- The current block is ended, and building goes on in another one. -/
theorem Evolves.takes_jump (evolves : Evolves d.owns named d d')
    (isOpen : Draft.IsOpen d.blocks b) (other : b.index ≠ d.block.index) (t : Terminator) :
    (d'.jump t b).Takes :=
  evolves.isOpen_endAt isOpen other t

end

/-! ## One step after the other -/

section

variable {α β : Type} {own own' : Nat → Prop} {named : String → Prop} {P Q : Draft → Prop}
  {d d' : Draft} {x y : Lower α} {f : α → Lower β}

namespace Arrives

theorem step {a : α} {result : EStateM.Result Diagnostic State α} (evolves : Evolves own named d d')
    (holds : P d') (done : result = .ok a d'.state) : Arrives own named P d result :=
  ⟨d', evolves, .inl ⟨⟨a, done⟩, holds⟩⟩

theorem fail {e : Diagnostic} {result : EStateM.Result Diagnostic State α} (takes : d.Takes)
    (failed : result = .error e d.state) : Arrives own named P d result :=
  ⟨d, .refl d, .inr ⟨⟨e, failed⟩, takes⟩⟩

theorem bind (first : Arrives own' named Q d (x d.state)) (owns : ∀ i, own' i → own i)
    (rest : ∀ a d', Evolves own' named d d' → Q d' → Arrives own named P d' (f a d'.state)) :
    Arrives own named P d ((x >>= f) d.state) := by
  obtain ⟨d₁, evolves, ⟨⟨a, done⟩, holds⟩ | ⟨⟨e, failed⟩, takes⟩⟩ := first
  · rw [bind_ok done]
    obtain ⟨d₂, more, ends⟩ := rest a d₁ evolves holds
    exact ⟨d₂, (evolves.mono owns).trans more, ends⟩
  · exact ⟨d₁, evolves.mono owns, .inr ⟨⟨e, bind_error failed⟩, takes⟩⟩

/-- What has been done before. -/
theorem skip {result : EStateM.Result Diagnostic State α} (rest : Arrives own named P d' result)
    (evolves : Evolves own named d d') : Arrives own named P d result := by
  obtain ⟨d₂, more, ends⟩ := rest
  exact ⟨d₂, evolves.trans more, ends⟩

theorem mono {result : EStateM.Result Diagnostic State α} (arrives : Arrives own' named P d result)
    (owns : ∀ i, own' i → own i) : Arrives own named P d result := by
  obtain ⟨d', evolves, ends⟩ := arrives
  exact ⟨d', evolves.mono owns, ends⟩

/-- What is done in a new scope leads to the same blocks. -/
theorem scope (inner : Arrives own named P d.openScope (x d.openScope.state))
    (closed : ∀ d', P d' → P d'.closeScope) : Arrives own named P d (inNewScope x d.state) := by
  obtain ⟨d', evolves, ends⟩ := inner
  have depth : d'.depth = d.depth + 1 := evolves.keeps.depth
  refine ⟨d'.closeScope, .scope evolves, ?_⟩
  obtain ⟨⟨a, done⟩, holds⟩ | ⟨⟨e, failed⟩, takes⟩ := ends
  · exact .inl ⟨⟨a, inNewScope_ok done depth⟩, closed d' holds⟩
  · exact .inr ⟨⟨e, inNewScope_error failed depth⟩, takes⟩

end Arrives

theorem Evolving.bind (first : Evolving named x) (rest : ∀ a, Evolving named (f a)) :
    Evolving named (x >>= f) := fun d takes =>
  (first d takes).bind (fun _ => id) fun a d' evolves takes' =>
    (rest a d' takes').mono fun _ => evolves.keeps.owns

theorem Evolving.inNewScope (body : Evolving named x) : Evolving named (inNewScope x) :=
  fun d takes => .scope (body d.openScope takes) fun _ takes' => takes'

theorem evolving_pure (a : α) : Evolving named (pure a : Lower α) :=
  fun d takes => .step (.refl d) takes rfl

theorem evolving_throw (e : Diagnostic) : Evolving named (throw e : Lower α) :=
  fun _ takes => .fail takes rfl

end

/-! ## Small steps -/

section

variable {named : String → Prop} (pos : Position)

theorem freshTemp_evolving (type : Ty) : Evolving named (freshTemp type) :=
  fun d takes => .step (.freshTemp d) takes (freshTemp_state d type)

theorem emit_evolving (i : Instr) : Evolving named (emit i) :=
  fun d takes => .step (.push i d.owns_block takes) (takes_push takes i) (emit_state takes i)

theorem addString_evolving (text : String) : Evolving named (addString text) :=
  fun d takes => .step (.addString d text) takes (addString_state d text)

theorem resolve?_evolving (name : String) : Evolving named (resolve? name) :=
  fun d takes => .step (.refl d) takes (resolve?_state d name)

theorem function?_evolving (name : String) : Evolving named (function? name) :=
  fun d takes => .step (.refl d) takes (function?_state d name)

/-- The second of two steps that are compared does not matter here. -/
theorem evolving_congruence : Congruence fun {α : Type} (x _ : Lower α) => Evolving named x where
  returns := evolving_pure
  fails _ := evolving_throw _
  seq := Evolving.bind
  temp := freshTemp_evolving
  instr := emit_evolving
  string := addString_evolving
  callee := function?_evolving
  lookup rest := (resolve?_evolving _).bind fun b => rest b b rfl

theorem condition_evolving (construct : Construct) (e : Expression) :
    Evolving named (condition pos construct e) :=
  condition_congr evolving_congruence pos pos construct e

/-! ## Declarations -/

section

variable {type : DeclaredType} {init : Initializer} (initial : initializer? type = some init)
  {d : Draft} {name : String}

include initial

/-- A variable whose name is new gets a global, and the name is bound to it. -/
theorem declare_new (new : d.bindings.lookup name = none) :
    declare pos name type d.state = .ok () (d.declare pos name init).state := by
  rw [declare_state initial]
  exact bindVariable_new (d := d.addVariable name init) (d.newBinding pos name init) pos new

/-- A variable whose name is taken gets a global as well, which stays. -/
theorem declare_old {old : Binding} (taken : d.bindings.lookup name = some old) :
    declare pos name type d.state =
      .error (.resolution pos (.redefined .variable name old.declaredAt))
        (d.addVariable name init).state := by
  rw [declare_state initial]
  exact bindVariable_old (d := d.addVariable name init) (d.newBinding pos name init) pos taken

end

theorem declare_evolving (name : String) (type : DeclaredType)
    (admitted : ∀ cell, .declared name cell ∈ items (.declare pos name type) → named name) :
    Evolving named (declare pos name type) := by
  intro d takes
  cases initial : initializer? type with
  | none =>
    have ignored : declare pos name type d.state =
        .ok () (d.tell (.ignoredDeclaration name (customName type))).state := by
      rw [declare, initial]
      rfl
    exact .step (.ignore d name _) takes ignored
  | some init =>
    have own : named name := by
      cases type with
      | custom _ => cases initial
      | int => exact admitted .int (by simp [items, cell?])
      | real => exact admitted .real (by simp [items, cell?])
      | bool => exact admitted .bool (by simp [items, cell?])
    cases found : d.bindings.lookup name with
    | none => exact .step (.declare d pos init own found) takes (declare_new pos initial found)
    | some old =>
      exact ⟨_, .refuse d init own found, .inr ⟨⟨_, declare_old pos initial found⟩, takes⟩⟩

end

/-! ## Branches and loops

Each is brought up to the scope of its next body, in the draft that it has come to. -/

namespace Draft

/-! In front of the scopes of a branch and of loops: their blocks are there. -/

def fork (d : Draft) : Draft := d.addBlock.addBlock.addBlock.enter (d.ahead 0)

def loopHead (d : Draft) : Draft :=
  d.addBlock.addBlock.addBlock.jump (.br (d.ahead 0)) (d.ahead 0)

def againHead (d : Draft) : Draft := d.addBlock.addBlock.jump (.br (d.ahead 0)) (d.ahead 0)

end Draft

/-- What a branch does behind its first body. -/
def elseOnward (d : Draft) (v : Value) (second : Lower Unit) : Lower Unit := do
  terminate (.br (d.ahead 2))
  enterBlock (d.ahead 1)
  inNewScope second
  terminate (.br (d.ahead 2))
  terminateAt d.block (.condBr v (d.ahead 0) (d.ahead 1))
  enterBlock (d.ahead 2)

/-- What a loop does in its scope. -/
def whileScope (pos : Position) (c : Expression) (d : Draft) (body : Lower Unit) : Lower Unit := do
  let v ← condition pos .while c
  terminate (.condBr v (d.ahead 1) (d.ahead 2))
  enterBlock (d.ahead 1)
  body
  terminate (.br (d.ahead 0))

/-- What a loop that asks its condition last does in its scope. -/
def repeatScope (pos : Position) (c : Expression) (d : Draft) (body : Lower Unit) : Lower Unit := do
  body
  let v ← condition pos .repeat c
  terminate (.condBr v (d.ahead 1) (d.ahead 0))

section

variable {named : String → Prop} {d d' d₁ d₂ : Draft} {v : Value} (pos : Position) (c : Expression)

theorem ifElse_state (asked : condition pos .if c d.state = .ok v d₁.state)
    (first second : Lower Unit) :
    ifElse pos c first second d.state = (inNewScope first >>= fun _ => elseOnward d₁ v second)
      d₁.fork.state := by
  refine (bind_ok asked).trans (get_bind.trans ?_)
  exact (addThree_state d₁ _).trans (bind_ok (enterBlock_state _ _))

theorem elseOnward_state (takes : d₂.Takes) (second : Lower Unit) :
    elseOnward d₁ v second d₂.state =
      (inNewScope second >>= fun _ => terminate (.br (d₁.ahead 2)) >>= fun _ =>
        terminateAt d₁.block (.condBr v (d₁.ahead 0) (d₁.ahead 1)) >>= fun _ =>
        enterBlock (d₁.ahead 2)) (d₂.jump (.br (d₁.ahead 2)) (d₁.ahead 1)).state :=
  (bind_ok (terminate_state takes _)).trans (bind_ok (enterBlock_state _ _))

theorem whileLoop_state (takes : d.Takes) (body : Lower Unit) :
    whileLoop pos c body d.state =
      (inNewScope (whileScope pos c d body) >>= fun _ => enterBlock (d.ahead 2))
        d.loopHead.state := by
  refine (addThree_state d _).trans ?_
  exact (bind_ok (terminate_state (isOpen_addThree takes) _)).trans (bind_ok (enterBlock_state _ _))

theorem whileScope_state (asked : condition pos .while c d₁.state = .ok v d₂.state)
    (takes : d₂.Takes) (body : Lower Unit) :
    whileScope pos c d body d₁.state =
      (body >>= fun _ => terminate (.br (d.ahead 0))) (d.loopBody d₂ v).state := by
  refine (bind_ok asked).trans ?_
  exact (bind_ok (terminate_state takes _)).trans (bind_ok (enterBlock_state _ _))

theorem repeatLoop_state (takes : d.Takes) (body : Lower Unit) :
    repeatLoop pos body c d.state =
      (inNewScope (repeatScope pos c d body) >>= fun _ => enterBlock (d.ahead 1))
        d.againHead.state := by
  refine (addTwo_state d _).trans ?_
  exact (bind_ok (terminate_state (isOpen_addTwo takes) _)).trans (bind_ok (enterBlock_state _ _))

/-! ### The drafts on the way -/

theorem Draft.owns_ahead (d : Draft) (count : Nat) : d.owns (d.ahead count).index :=
  .inr (Nat.le_add_right _ _)

theorem Evolves.jump {own : Nat → Prop} {b : BlockId} (takes : d.Takes)
    (mine : own d.block.index) (target : own b.index) (t : Terminator) :
    Evolves own named d (d.jump t b) :=
  (Evolves.terminate t mine takes).trans (.enter _ target)

theorem evolves_addThree (d : Draft) :
    Evolves d.owns named d d.addBlock.addBlock.addBlock :=
  (Evolves.addBlock d).trans ((Evolves.addBlock _).trans (.addBlock _))

theorem evolves_addTwo (d : Draft) : Evolves d.owns named d d.addBlock.addBlock :=
  (Evolves.addBlock d).trans (.addBlock _)

theorem evolves_fork (d : Draft) : Evolves d.owns named d d.fork :=
  (evolves_addThree d).trans (.enter _ (d.owns_ahead 0))

theorem evolves_loopHead (takes : d.Takes) : Evolves d.owns named d d.loopHead :=
  (evolves_addThree d).trans (.jump (isOpen_addThree takes) d.owns_block (d.owns_ahead 0) _)

theorem evolves_againHead (takes : d.Takes) : Evolves d.owns named d d.againHead :=
  (evolves_addTwo d).trans (.jump (isOpen_addTwo takes) d.owns_block (d.owns_ahead 0) _)

/-- Behind the first body, which has led to `d'`. Both bodies leave the block with the condition
    open, and those that building goes on in. -/
theorem elseOnward_arrives (takes : d.Takes) (inFirst : Evolves d.fork.owns named d.fork d')
    (takes' : d'.Takes) (v : Value) {second : Lower Unit} (evolving : Evolving named second) :
    Arrives d.owns named Draft.Takes d' (elseOnward d v second d'.state) := by
  have old : d.block.index < d.blocks.length := lt_of_isOpen takes
  have upToFirst := (evolves_fork d).next inFirst
  have toSecond : Evolves d.owns named d' (d'.jump (.br (d.ahead 2)) (d.ahead 1)) :=
    .jump takes' (upToFirst.keeps.block d.owns_block) (d.owns_ahead 1) _
  have atSecond : (d'.jump (.br (d.ahead 2)) (d.ahead 1)).Takes :=
    inFirst.takes_jump (isOpen_ofThree d (by decide : 1 < 3)) (Nat.succ_ne_self _) _
  have origin₁ := inFirst.isOpen_endAt (isOpen_addThree takes) (Nat.ne_of_lt old) (.br (d.ahead 2))
  have next₁ := inFirst.isOpen_endAt (isOpen_ofThree d (by decide : 2 < 3))
    (by simp [Draft.fork, Draft.enter, Draft.ahead]) (.br (d.ahead 2))
  rw [elseOnward_state takes']
  refine .skip ?_ toSecond
  refine (evolving.inNewScope _ atSecond).bind (fun _ => (upToFirst.trans toSecond).keeps.owns)
    fun _ d₂ inSecond takes₂ => ?_
  have upToSecond := (upToFirst.trans toSecond).next inSecond
  have origin₂ := inSecond.isOpen_endAt origin₁ (Nat.ne_of_lt (Nat.lt_succ_of_lt old))
    (.br (d.ahead 2))
  have next₂ := inSecond.isOpen_endAt next₁ (Nat.succ_ne_self _) (.br (d.ahead 2))
  have ended : Evolves d.owns named d₂ _ :=
    (Evolves.terminate _ (upToSecond.keeps.block d.owns_block) takes₂).trans
      ((Evolves.terminate (.condBr v (d.ahead 0) (d.ahead 1)) d.owns_block origin₂).trans
        (.enter _ (d.owns_ahead 2)))
  exact .step ended (isOpen_endAt (Nat.ne_of_gt (Nat.lt_add_right 2 old)) next₂)
    ((bind_ok (terminate_state takes₂ _)).trans (bind_ok (terminateAt_state origin₂ _)))

theorem ifElse_evolving {first second : Lower Unit} (evolving₁ : Evolving named first)
    (evolving₂ : Evolving named second) : Evolving named (ifElse pos c first second) := by
  intro d takes
  obtain ⟨d₁, evolves, ⟨⟨v, asked⟩, takes₁⟩ | ⟨⟨e, failed⟩, takes₁⟩⟩ :=
    condition_evolving pos .if c d takes
  · rw [ifElse_state pos c asked]
    have toFirst : Evolves d₁.owns named d₁ d₁.fork := evolves_fork d₁
    have atFirst : d₁.fork.Takes := isOpen_branch d₁
    refine .skip (.mono ?_ fun _ => evolves.keeps.owns) (evolves.next toFirst)
    exact (evolving₁.inNewScope _ atFirst).bind (fun _ => toFirst.keeps.owns)
      fun _ d₂ inFirst takes₂ => elseOnward_arrives takes₁ inFirst takes₂ v evolving₂
  · exact .skip (.fail takes₁ (bind_error failed)) evolves

/-- The blocks of a loop are open behind its head. -/
theorem isOpen_loop_ahead (takes : d.Takes) {i : Nat} (h : i < 3) :
    Draft.IsOpen d.loop.blocks (d.ahead i) :=
  isOpen_endAt (Nat.ne_of_gt (Nat.lt_add_right i (lt_of_isOpen takes))) (isOpen_ofThree d h)

theorem isOpen_again_ahead (takes : d.Takes) {i : Nat} (h : i < 2) :
    Draft.IsOpen d.again.blocks (d.ahead i) :=
  isOpen_endAt (Nat.ne_of_gt (Nat.lt_add_right i (lt_of_isOpen takes))) (isOpen_ofTwo d h)

/-- In the scope of a loop. The last block there is ended, and the one that follows is open. -/
theorem whileScope_arrives (takes : d.Takes) {body : Lower Unit} (evolving : Evolving named body) :
    Arrives d.owns named (fun d' => Draft.IsOpen d'.blocks (d.ahead 2)) d.loop
      (whileScope pos c d body d.loop.state) := by
  have head : Evolves d.owns named d d.loopHead := evolves_loopHead takes
  have owns : ∀ i, d.loop.owns i → d.owns i := fun _ => head.keeps.owns
  obtain ⟨d₁, evolves, ⟨⟨v, asked⟩, takes₁⟩ | ⟨⟨e, failed⟩, takes₁⟩⟩ :=
    condition_evolving pos .while c d.loop (isOpen_loop takes)
  · have toBody : Evolves d.owns named d.loop (d.loopBody d₁ v) :=
      (evolves.mono owns).trans
        (.jump takes₁ (owns _ (evolves.keeps.block d.loop.owns_block)) (d.owns_ahead 1) _)
    have atBody : (d.loopBody d₁ v).Takes :=
      evolves.takes_jump (isOpen_loop_ahead takes (by decide : 1 < 3)) (Nat.succ_ne_self _) _
    have next : Draft.IsOpen (d.loopBody d₁ v).blocks (d.ahead 2) :=
      evolves.isOpen_endAt (isOpen_loop_ahead takes (by decide : 2 < 3))
        (Nat.ne_of_gt (Nat.lt_add_of_pos_right (by decide : 0 < 2))) _
    have length : d.blocks.length ≤ (d.loopBody d₁ v).blocks.length :=
      Nat.le_trans head.keeps.length_le toBody.keeps.length_le
    have ownsBody : ∀ i, (d.loopBody d₁ v).owns i → d.owns i := fun _ =>
      Draft.owns_of (d.owns_ahead 1) length
    rw [whileScope_state pos c asked takes₁]
    refine .skip ?_ toBody
    refine (evolving _ atBody).bind ownsBody fun _ d₂ inBody takes₂ => ?_
    exact .step (.terminate _ (ownsBody _ (inBody.keeps.block (Draft.owns_block _))) takes₂)
      (inBody.isOpen_endAt next (Nat.succ_ne_self _) _) (terminate_state takes₂ _)
  · exact .skip (.fail takes₁ (bind_error failed)) (evolves.mono owns)

theorem whileLoop_evolving {body : Lower Unit} (evolving : Evolving named body) :
    Evolving named (whileLoop pos c body) := by
  intro d takes
  rw [whileLoop_state pos c takes]
  refine .skip ?_ (evolves_loopHead takes)
  refine ((whileScope_arrives pos c takes evolving).scope fun _ isOpen => isOpen).bind
    (fun _ => id) fun _ d₁ evolves isOpen => ?_
  exact .step (.enter d₁ (d.owns_ahead 2)) isOpen rfl

/-- In the scope of a loop that asks its condition last. -/
theorem repeatScope_arrives (takes : d.Takes) {body : Lower Unit} (evolving : Evolving named body) :
    Arrives d.owns named (fun d' => Draft.IsOpen d'.blocks (d.ahead 1)) d.again
      (repeatScope pos c d body d.again.state) := by
  have head : Evolves d.owns named d d.againHead := evolves_againHead takes
  have owns : ∀ i, d.again.owns i → d.owns i := fun _ => head.keeps.owns
  have next := isOpen_again_ahead takes (by decide : 1 < 2)
  have both : Evolving named (body >>= fun _ => condition pos .repeat c) :=
    evolving.bind fun _ => condition_evolving pos .repeat c
  have whole : repeatScope pos c d body =
      ((body >>= fun _ => condition pos .repeat c) >>= fun v =>
        terminate (.condBr v (d.ahead 1) (d.ahead 0))) := by
    rw [bind_assoc]
    rfl
  rw [whole]
  refine (both d.again (isOpen_again takes)).bind owns fun v d₁ evolves takes₁ => ?_
  exact .step (.terminate _ (owns _ (evolves.keeps.block d.again.owns_block)) takes₁)
    (evolves.isOpen_endAt next (Nat.succ_ne_self _) _) (terminate_state takes₁ _)

theorem repeatLoop_evolving {body : Lower Unit} (evolving : Evolving named body) :
    Evolving named (repeatLoop pos body c) := by
  intro d takes
  rw [repeatLoop_state pos c takes]
  refine .skip ?_ (evolves_againHead takes)
  refine ((repeatScope_arrives pos c takes evolving).scope fun _ isOpen => isOpen).bind
    (fun _ => id) fun _ d₁ evolves isOpen => ?_
  exact .step (.enter d₁ (d.owns_ahead 1)) isOpen rfl

end

/-! ## Statements -/

section

variable {named : String → Prop}

mutual

/-- The lowering of a statement makes changes to its own blocks, wherever it stops. -/
theorem statement_evolving : (s : Statement) →
    (∀ x cell, .declared x cell ∈ items s → named x) → Evolving named (statement s)
  | .output pos e, _ => output_congr evolving_congruence pos pos e
  | .input _ k, _ => input_congr evolving_congruence k
  | .declare pos name type, admitted => declare_evolving pos name type (admitted name)
  | .assign _ k e, _ => assign_congr evolving_congruence k e
  | .printInt pos e, _ => printInt_congr evolving_congruence pos pos e
  | .printReal pos e, _ => printReal_congr evolving_congruence pos pos e
  | .ifElse pos c thenBranch none, admitted =>
    ifElse_evolving pos c
      (block_evolving thenBranch fun x cell member => admitted x cell (by simp [items, member]))
      (evolving_pure ())
  | .ifElse pos c thenBranch (some elseBranch), admitted =>
    ifElse_evolving pos c
      (block_evolving thenBranch fun x cell member => admitted x cell (by simp [items, member]))
      (block_evolving elseBranch fun x cell member =>
        admitted x cell (by simp [items, itemsElse, member]))
  | .while pos c body, admitted =>
    whileLoop_evolving pos c
      (block_evolving body fun x cell member => admitted x cell (by simp [items, member]))
  | .repeat pos body c, admitted =>
    repeatLoop_evolving pos c
      (block_evolving body fun x cell member => admitted x cell (by simp [items, member]))
  | .call _ pos name args, _ =>
    callStatement_congr evolving_congruence pos pos name args
  | .empty _, _ => evolving_pure ()

/-- So does that of statements in a row. -/
theorem block_evolving : (ss : List Statement) →
    (∀ x cell, .declared x cell ∈ itemsAll ss → named x) → Evolving named (block ss)
  | [], _ => evolving_pure ()
  | s :: rest, admitted =>
    (statement_evolving s fun x cell member => admitted x cell (by simp [itemsAll, member])).bind
      fun _ => block_evolving rest fun x cell member => admitted x cell (by simp [itemsAll, member])

end

end

end Pseudocode.Lowering
