import Pseudocode.Proofs.Lowering.Emission
import Pseudocode.Proofs.Lowering.Region

/-! # What a statement becomes

`Lowers d s d'` says that the statement `s` turns the draft `d` into the draft `d'`.

* A statement that does one thing adds instructions to the current block.
* A branch or a loop adds blocks of its own, the first of which gets the number
  `d.blocks.length`. Its bodies may add further blocks behind them, and building goes
  on in the last of its own.
* A variable is a global and nothing else: its declaration adds no instruction.
* `Lowers.region`: the blocks that a statement becomes are a region.
* `Lowers.length_eq`: how many of them it adds.
-/

namespace Pseudocode

mutual

/-- The branches and loops in the statement, each in front of those inside it. -/
def Statement.constructs : Statement → List Construct
  | .ifElse _ _ thenBranch elseBranch =>
    .if :: (Statement.constructsAll thenBranch ++
      match elseBranch with
      | some b => Statement.constructsAll b
      | none => [])
  | .while _ _ body => .while :: Statement.constructsAll body
  | .repeat _ body _ => .repeat :: Statement.constructsAll body
  | _ => []

def Statement.constructsAll : List Statement → List Construct
  | [] => []
  | s :: rest => s.constructs ++ Statement.constructsAll rest

end

/-- How many blocks branches and loops take. -/
def blockCount (cs : List Construct) : Nat :=
  3 * cs.count .if + 3 * cs.count .while + 2 * cs.count .repeat

theorem blockCount_append (cs cs' : List Construct) :
    blockCount (cs ++ cs') = blockCount cs + blockCount cs' := by
  simp only [blockCount, List.count_append]
  omega

theorem blockCount_cons (c : Construct) (cs : List Construct) :
    blockCount (c :: cs) = blockCount [c] + blockCount cs :=
  blockCount_append [c] cs

end Pseudocode

namespace Pseudocode.Lowering

open Assembly Typing

namespace Draft

/-- The current block is ended, and instructions go to another one from now on. -/
def jump (d : Draft) (t : Terminator) (b : BlockId) : Draft := (d.terminate d.block t).enter b

/-- The number of the block that comes so many behind the next one. -/
def ahead (d : Draft) (count : Nat) : BlockId := ⟨d.blocks.length + count⟩

def called (d : Draft) (f : Signature) (args : List Value) : Draft :=
  d.define .i32 fun dst => .call (some dst) f args

/-- A call of `printf` with the format that is stored at the address. -/
def printed (d : Draft) (format v : Value) : Draft :=
  (d.define .bytePtr (.cast · .bitcast format)).called ⟨printfName, .i32, [.bytePtr], true⟩
    [d.next .bytePtr, v]

/-! Stages of a branch, of which `d` has the condition. -/

/-- In front of the first body: there are blocks for both and for what follows. -/
def branch (d : Draft) : Draft := (d.addBlock.addBlock.addBlock.enter (d.ahead 0)).openScope

/-- In front of the second body. The first one has led to `d'`. -/
def otherwise (d d' : Draft) : Draft :=
  (d'.closeScope.jump (.br (d.ahead 2)) (d.ahead 1)).openScope

/-- Behind the second body, which has led to `d'` and goes on behind the branch. -/
def rejoin (d d' : Draft) : Draft := d'.closeScope.terminate d'.block (.br (d.ahead 2))

/-- Behind the branch. -/
def merge (d d' : Draft) (v : Value) : Draft :=
  ((d.rejoin d').terminate d.block (.condBr v (d.ahead 0) (d.ahead 1))).enter (d.ahead 2)

/-! Stages of a loop in front of which building has led to `d`. -/

/-- In front of the condition: there are blocks for it, for the body and for what follows. -/
def loop (d : Draft) : Draft :=
  (d.addBlock.addBlock.addBlock.jump (.br (d.ahead 0)) (d.ahead 0)).openScope

/-- In front of the body. The condition has led to `d'`. -/
def loopBody (d d' : Draft) (v : Value) : Draft :=
  d'.jump (.condBr v (d.ahead 1) (d.ahead 2)) (d.ahead 1)

/-- Behind the loop. The body has led to `d'`. -/
def endLoop (d d' : Draft) : Draft :=
  (d'.terminate d'.block (.br (d.ahead 0))).closeScope.enter (d.ahead 2)

/-! Stages of a loop that asks its condition last. -/

/-- In front of the body: there are blocks for it and for what follows. -/
def again (d : Draft) : Draft :=
  (d.addBlock.addBlock.jump (.br (d.ahead 0)) (d.ahead 0)).openScope

/-- Behind the loop. The condition has led to `d'`. -/
def endAgain (d d' : Draft) (v : Value) : Draft :=
  (d'.terminate d'.block (.condBr v (d.ahead 1) (d.ahead 0))).closeScope.enter (d.ahead 1)

end Draft

/-- The statement, which neither branches nor declares anything, is done by instructions
    in the current block. -/
inductive Performs : Draft → Statement → Draft → Prop where
  | output {d d₁ : Draft} {pos : Position} {e : Expression} {size : Nat} {v : Value}
      (text : Emits d e (.text size) v d₁) :
      Performs d (.output pos e) ((d₁.pass (.text size) v).called
        ⟨putsName, .i32, [.bytePtr], false⟩ [d₁.passed (.text size) v])
  | input {d : Draft} {pos : Position} {k : Key} {b : Binding}
      (found : d.bindings.lookup k.firstName = some b) (held : b.storage.type = .ptr .i32) :
      Performs d (.input pos k)
        ((d.called ⟨getcharName, .i32, [], false⟩ []).push (.store (d.next .i32) b.storage))
  | custom {d : Draft} {pos : Position} {name : String} {type : String} :
      Performs d (.declare pos name (.custom type)) (d.tell (.ignoredDeclaration name type))
  | assign {d d₁ : Draft} {pos : Position} {k : Key} {b : Binding} {e : Expression} {κ : Kind}
      {v : Value} (found : d.bindings.lookup k.firstName = some b)
      (held : b.storage.type = .ptr κ.ty) (scalar : κ.isText = false) (value : Emits d e κ v d₁) :
      Performs d (.assign pos k e) (d₁.push (.store v b.storage))
  | printInt {d d₁ : Draft} {pos : Position} {e : Expression} {κ : Kind} {v : Value}
      {format : Binding} (value : Emits d e κ v d₁) (whole : κ = .int ∨ κ = .bool)
      (found : d₁.bindings.lookup intFormatName = some format) :
      Performs d (.printInt pos e) ((d₁.pass κ v).printed format.storage (d₁.passed κ v))
  | printReal {d d₁ : Draft} {pos : Position} {e : Expression} {v : Value} {format : Binding}
      (value : Emits d e .real v d₁) (found : d₁.bindings.lookup realFormatName = some format) :
      Performs d (.printReal pos e) (d₁.printed format.storage v)
  | call {d d₁ : Draft} {pos callPos : Position} {name : String} {args : List Expression}
      {κ : Kind} {v : Value} (value : Emits d (.call callPos name args) κ v d₁) :
      Performs d (.call pos callPos name args) d₁
  | empty {d : Draft} {pos : Position} : Performs d (.empty pos) d

mutual

/-- The statement turns the one draft into the other. -/
inductive Lowers : Draft → Statement → Draft → Prop where
  | performs {d d' : Draft} {s : Statement} (done : Performs d s d') : Lowers d s d'
  | declare {d : Draft} {pos : Position} {name : String} {type : DeclaredType} {κ : Kind}
      {init : Initializer} (own : declaredKind? type = some κ)
      (initial : initializer? type = some init) (new : d.bindings.lookup name = none) :
      Lowers d (.declare pos name type) (d.declare pos name init)
  | ifElse {d d₁ d₂ d₃ : Draft} {pos : Position} {c : Expression} {v : Value}
      {thenBranch : List Statement} {elseBranch : Option (List Statement)}
      (condition : Emits d c .bool v d₁) (first : LowersAll d₁.branch thenBranch d₂)
      (second : LowersAll (d₁.otherwise d₂) (elseBranch.getD []) d₃) :
      Lowers d (.ifElse pos c thenBranch elseBranch) (d₁.merge d₃ v)
  | while {d d₁ d₂ : Draft} {pos : Position} {c : Expression} {v : Value}
      {body : List Statement} (condition : Emits d.loop c .bool v d₁)
      (inner : LowersAll (d.loopBody d₁ v) body d₂) :
      Lowers d (.while pos c body) (d.endLoop d₂)
  | repeat {d d₁ d₂ : Draft} {pos : Position} {c : Expression} {v : Value}
      {body : List Statement} (inner : LowersAll d.again body d₁)
      (condition : Emits d₁ c .bool v d₂) :
      Lowers d (.repeat pos body c) (d.endAgain d₂ v)

/-- The statements turn the one draft into the other, one after the other. -/
inductive LowersAll : Draft → List Statement → Draft → Prop where
  | nil {d : Draft} : LowersAll d [] d
  | cons {d d₁ d₂ : Draft} {s : Statement} {rest : List Statement} (head : Lowers d s d₁)
      (tail : LowersAll d₁ rest d₂) : LowersAll d (s :: rest) d₂

end

/-! ## Instructions in one block -/

namespace Straight

theorem push (d : Draft) (i : Instr) : Straight d [i] (d.push i) where
  bindings := rfl
  depth := rfl
  block := rfl
  blocks := rfl
  globals := ⟨[], by simp [Draft.push]⟩
  names := id
  temps := Nat.le_refl _

theorem called (d : Draft) (f : Signature) (args : List Value) :
    Straight d [.call (some (d.next .i32)) f args] (d.called f args) :=
  define d .i32 fun dst => .call (some dst) f args

theorem printed (d : Draft) (format v : Value) :
    ∃ code, Straight d code (d.printed format v) :=
  ⟨_, (define d .bytePtr (.cast · .bitcast format)).trans (called _ _ _)⟩

theorem tell (d : Draft) (e : Event) : Straight d [] (d.tell e) where
  bindings := rfl
  depth := rfl
  block := rfl
  blocks := by simp [Draft.tell, List.modify_id]
  globals := ⟨[], by simp [Draft.tell]⟩
  names := id
  temps := Nat.le_refl _

theorem region {d d' : Draft} {code : List Instr} (added : Straight d code d')
    (h : Draft.IsOpen d.blocks d.block) :
    Region d.blocks d.block.index d'.blocks d'.block.index := by
  rw [added.blocks, added.block]
  exact .extend h code

theorem length_eq {d d' : Draft} {code : List Instr} (added : Straight d code d') :
    d'.blocks.length = d.blocks.length := by
  rw [added.blocks, List.length_modify]

end Straight

/-- A statement that does one thing becomes straight-line code. -/
theorem Performs.straight {d d' : Draft} {s : Statement} (done : Performs d s d') :
    ∃ code, Straight d code d' := by
  cases done with
  | output text =>
    obtain ⟨_, value⟩ := text.straight
    obtain ⟨_, passed⟩ := Straight.pass _ _ _
    exact ⟨_, (value.trans passed).trans (.called _ _ _)⟩
  | input _ _ => exact ⟨_, (Straight.called d _ _).trans (.push _ _)⟩
  | custom => exact ⟨_, .tell d _⟩
  | assign _ _ _ value =>
    obtain ⟨_, value⟩ := value.straight
    exact ⟨_, value.trans (.push _ _)⟩
  | printInt value _ _ =>
    obtain ⟨_, value⟩ := value.straight
    obtain ⟨_, passed⟩ := Straight.pass _ _ _
    obtain ⟨_, printed⟩ := Straight.printed _ _ _
    exact ⟨_, (value.trans passed).trans printed⟩
  | printReal value _ =>
    obtain ⟨_, value⟩ := value.straight
    obtain ⟨_, printed⟩ := Straight.printed _ _ _
    exact ⟨_, value.trans printed⟩
  | call value => exact value.straight
  | empty => exact ⟨_, .refl d⟩

theorem Performs.constructs_eq {d d' : Draft} {s : Statement} (done : Performs d s d') :
    s.constructs = [] := by
  cases done <;> rfl

/-! ## The blocks of a statement -/

theorem Region.refl {blocks : List Block} {entry : Nat} (h : Draft.IsOpen blocks ⟨entry⟩) :
    Region blocks entry blocks entry := by
  have nothing := Region.extend h []
  rwa [Draft.extend_nil, List.modify_id] at nothing

theorem blocks_addThree (d : Draft) :
    d.addBlock.addBlock.addBlock.blocks = d.blocks ++ [.empty, .empty, .empty] := by
  simp [Draft.addBlock]

theorem blocks_addTwo (d : Draft) : d.addBlock.addBlock.blocks = d.blocks ++ [.empty, .empty] := by
  simp [Draft.addBlock]

theorem getElem?_ofThree (d : Draft) {i : Nat} (h : i < 3) :
    d.addBlock.addBlock.addBlock.blocks[(d.ahead i).index]? = some .empty := by
  rw [blocks_addThree, Draft.ahead, List.getElem?_append_right (Nat.le_add_right _ _),
    Nat.add_sub_cancel_left]
  match i, h with
  | 0, _ | 1, _ | 2, _ => rfl

theorem getElem?_ofTwo (d : Draft) {i : Nat} (h : i < 2) :
    d.addBlock.addBlock.blocks[(d.ahead i).index]? = some .empty := by
  rw [blocks_addTwo, Draft.ahead, List.getElem?_append_right (Nat.le_add_right _ _),
    Nat.add_sub_cancel_left]
  match i, h with
  | 0, _ | 1, _ => rfl

theorem isOpen_ofThree (d : Draft) {i : Nat} (h : i < 3) :
    Draft.IsOpen d.addBlock.addBlock.addBlock.blocks (d.ahead i) :=
  ⟨.empty, getElem?_ofThree d h, rfl⟩

theorem isOpen_ofTwo (d : Draft) {i : Nat} (h : i < 2) :
    Draft.IsOpen d.addBlock.addBlock.blocks (d.ahead i) :=
  ⟨.empty, getElem?_ofTwo d h, rfl⟩

theorem isOpen_addThree {d : Draft} (h : Draft.IsOpen d.blocks d.block) :
    Draft.IsOpen d.addBlock.addBlock.addBlock.blocks d.block := by
  rw [blocks_addThree]
  exact isOpen_of_eq (List.getElem?_append_left (lt_of_isOpen h)) h

theorem isOpen_addTwo {d : Draft} (h : Draft.IsOpen d.blocks d.block) :
    Draft.IsOpen d.addBlock.addBlock.blocks d.block := by
  rw [blocks_addTwo]
  exact isOpen_of_eq (List.getElem?_append_left (lt_of_isOpen h)) h

section Stages

variable {d d' d'' : Draft} {v : Value}

theorem blocks_branch (d : Draft) : d.branch.blocks = d.blocks ++ [.empty, .empty, .empty] :=
  blocks_addThree d

theorem blocks_loop (d : Draft) : d.loop.blocks =
    endAt (d.blocks ++ [.empty, .empty, .empty]) d.block.index (.br (d.ahead 0)) := by
  rw [← blocks_addThree]
  rfl

theorem blocks_again (d : Draft) : d.again.blocks =
    endAt (d.blocks ++ [.empty, .empty]) d.block.index (.br (d.ahead 0)) := by
  rw [← blocks_addTwo]
  rfl

theorem length_branch (d : Draft) : d.branch.blocks.length = d.blocks.length + 3 := by
  simp [blocks_branch]

theorem length_otherwise (d d' : Draft) : (d.otherwise d').blocks.length = d'.blocks.length :=
  length_endAt

theorem length_merge (d d' : Draft) (v : Value) :
    (d.merge d' v).blocks.length = d'.blocks.length :=
  length_endAt.trans length_endAt

theorem length_loop (d : Draft) : d.loop.blocks.length = d.blocks.length + 3 := by
  simp [blocks_loop]

theorem length_loopBody (d d' : Draft) (v : Value) :
    (d.loopBody d' v).blocks.length = d'.blocks.length :=
  length_endAt

theorem length_endLoop (d d' : Draft) : (d.endLoop d').blocks.length = d'.blocks.length :=
  length_endAt

theorem length_again (d : Draft) : d.again.blocks.length = d.blocks.length + 2 := by
  simp [blocks_again]

theorem length_endAgain (d d' : Draft) (v : Value) :
    (d.endAgain d' v).blocks.length = d'.blocks.length :=
  length_endAt

theorem isOpen_branch (d : Draft) : Draft.IsOpen d.branch.blocks d.branch.block :=
  isOpen_ofThree d (by decide : 0 < 3)

theorem isOpen_otherwise
    (first : Region d.branch.blocks d.branch.block.index d'.blocks d'.block.index) :
    Draft.IsOpen (d.otherwise d').blocks (d.otherwise d').block :=
  first.isOpen_other (isOpen_ofThree d (by decide : 1 < 3)) (Nat.succ_ne_self _)

/-- The block that has the condition is still open behind both bodies. -/
theorem isOpen_rejoin (h : Draft.IsOpen d.blocks d.block)
    (first : Region d.branch.blocks d.branch.block.index d'.blocks d'.block.index)
    (second : Region (d.otherwise d').blocks (d.otherwise d').block.index d''.blocks
      d''.block.index) :
    Draft.IsOpen (d.rejoin d'').blocks d.block := by
  have old := lt_of_isOpen h
  have behindFirst := first.isOpen_other (t := .br (d.ahead 2)) (isOpen_addThree h)
    (Nat.ne_of_lt old)
  exact second.isOpen_other behindFirst (Nat.ne_of_lt (Nat.lt_succ_of_lt old))

theorem isOpen_loop (h : Draft.IsOpen d.blocks d.block) :
    Draft.IsOpen d.loop.blocks d.loop.block :=
  isOpen_endAt (Nat.ne_of_gt (lt_of_isOpen h)) (isOpen_ofThree d (by decide : 0 < 3))

theorem isOpen_loopBody (h : Draft.IsOpen d.blocks d.block)
    (condition : Region d.loop.blocks d.loop.block.index d'.blocks d'.block.index) :
    Draft.IsOpen (d.loopBody d' v).blocks (d.loopBody d' v).block := by
  have old := lt_of_isOpen h
  have inFront := isOpen_endAt (t := .br (d.ahead 0)) (Nat.ne_of_gt (Nat.lt_succ_of_lt old))
    (isOpen_ofThree d (by decide : 1 < 3))
  exact condition.isOpen_other inFront (Nat.succ_ne_self _)

theorem isOpen_again (h : Draft.IsOpen d.blocks d.block) :
    Draft.IsOpen d.again.blocks d.again.block :=
  isOpen_endAt (Nat.ne_of_gt (lt_of_isOpen h)) (isOpen_ofTwo d (by decide : 0 < 2))

end Stages

mutual

/-- The blocks of a statement are a region. The bodies are regions by induction; `Region.ifElse`
    puts the edges around them. -/
theorem Lowers.region {d d' : Draft} {s : Statement} (h : Draft.IsOpen d.blocks d.block) :
    Lowers d s d' → Region d.blocks d.block.index d'.blocks d'.block.index
  | .performs done => by
    obtain ⟨_, added⟩ := done.straight
    exact added.region h
  | .declare _ _ _ => .refl h
  | .ifElse condition first second => by
    obtain ⟨_, added⟩ := condition.straight
    have first := first.region (isOpen_branch _)
    have second := second.region (isOpen_otherwise first)
    rw [blocks_branch] at first
    exact (added.region h).trans (.ifElse rfl (added.isOpen h) first second)
  | .while condition inner => by
    obtain ⟨_, added⟩ := condition.straight
    have head := added.region (isOpen_loop h)
    have inner := inner.region (isOpen_loopBody h head)
    rw [blocks_loop] at head
    exact .whileLoop rfl h head inner
  | .repeat inner condition => by
    have inner := inner.region (isOpen_again h)
    obtain ⟨_, added⟩ := condition.straight
    have whole := inner.trans (added.region inner.isOpen)
    rw [blocks_again] at whole
    exact .repeatLoop rfl h whole

theorem LowersAll.region {d d' : Draft} {ss : List Statement}
    (h : Draft.IsOpen d.blocks d.block) :
    LowersAll d ss d' → Region d.blocks d.block.index d'.blocks d'.block.index
  | .nil => .refl h
  | .cons head tail => by
    have first := head.region h
    exact first.trans (tail.region first.isOpen)

end

theorem constructs_ifElse {pos : Position} {c : Expression} {thenBranch : List Statement}
    {elseBranch : Option (List Statement)} :
    (Statement.ifElse pos c thenBranch elseBranch).constructs = .if ::
      (Statement.constructsAll thenBranch ++ Statement.constructsAll (elseBranch.getD [])) := by
  cases elseBranch <;> simp [Statement.constructs, Statement.constructsAll]

mutual

/-- A statement adds the blocks that the branches and loops in it take. The count goes back
    through the stages; only `branch` adds blocks by itself. -/
theorem Lowers.length_eq {d d' : Draft} {s : Statement} :
    Lowers d s d' → d'.blocks.length = d.blocks.length + blockCount s.constructs
  | .performs done => by
    obtain ⟨_, added⟩ := done.straight
    rw [added.length_eq, done.constructs_eq]
    rfl
  | .declare _ _ _ => rfl
  | .ifElse condition first second => by
    obtain ⟨_, added⟩ := condition.straight
    rw [length_merge, second.length_eq, length_otherwise, first.length_eq, length_branch,
      added.length_eq, constructs_ifElse, blockCount_cons, blockCount_append]
    simp [blockCount]
    omega
  | .while condition inner => by
    obtain ⟨_, added⟩ := condition.straight
    rw [length_endLoop, inner.length_eq, length_loopBody, added.length_eq, length_loop,
      Statement.constructs, blockCount_cons]
    simp [blockCount]
    omega
  | .repeat inner condition => by
    obtain ⟨_, added⟩ := condition.straight
    rw [length_endAgain, added.length_eq, inner.length_eq, length_again, Statement.constructs,
      blockCount_cons]
    simp [blockCount]
    omega

theorem LowersAll.length_eq {d d' : Draft} {ss : List Statement} :
    LowersAll d ss d' →
      d'.blocks.length = d.blocks.length + blockCount (Statement.constructsAll ss)
  | .nil => rfl
  | .cons head tail => by
    rw [tail.length_eq, head.length_eq, Statement.constructsAll, blockCount_append, Nat.add_assoc]

end

end Pseudocode.Lowering
