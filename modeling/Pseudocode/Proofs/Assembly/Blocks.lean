import Mathlib.Data.List.Nodup
import Pseudocode.Lowering.State
import Pseudocode.Proofs.Lowering.Names

/-! # How blocks come to be

A function gets its blocks by operations in any order. A block takes instructions until it has its
terminator; from then on, and while it does not exist yet, operations on it are refused.

* `BlockOperation`, `Function.perform`: what can be done, and a function after it.
* `Function.accepted`: the operations that are not refused when their turn comes.
* `Told os f`: the blocks of the function are what the operations say. Each operation that is not
  refused keeps that (`Told.step`), so the accepted ones tell the blocks (`Told.run`).
* `stays_performAll`: a block with a terminator stays as it is.
* `History`: a function from its first block on. `blocks_after_histories` says how it stands, and
  what a module of such functions lacks.
-/

namespace Pseudocode.Assembly

open Lowering (State label_injective)

/-! ## Operations -/

/-- What can be done to the blocks of a function. -/
inductive BlockOperation where
  | addBlock
  | push (b : BlockId) (i : Instr)
  | terminate (b : BlockId) (t : Terminator)

namespace BlockOperation

/-- The block that is changed. -/
def block? : BlockOperation → Option BlockId
  | addBlock => none
  | push b _ | terminate b _ => some b

def change : BlockOperation → Block → Block
  | addBlock, block => block
  | push _ i, block => { block with instrs := block.instrs ++ [i] }
  | terminate _ t, block => { block with terminator := some t }

/-! What operations say about the blocks that they lead to. -/

def isAddBlock : BlockOperation → Bool
  | addBlock => true
  | _ => false

def instr? (b : BlockId) : BlockOperation → Option Instr
  | push b' i => if b' = b then some i else none
  | _ => none

def terminator? (b : BlockId) : BlockOperation → Option Terminator
  | terminate b' t => if b' = b then some t else none
  | _ => none

/-- How many blocks the operations add. -/
def added (os : List BlockOperation) : Nat := os.countP isAddBlock

/-- The instructions that the operations put into the block, in their order, and the terminator
    that it is given first. -/
def blockOf (os : List BlockOperation) (b : BlockId) : Block :=
  ⟨os.filterMap (instr? b), os.findSome? (terminator? b)⟩

/-- All blocks that the operations add, by their number. -/
def blocksOf (os : List BlockOperation) : List Block :=
  (List.range (added os)).map fun k => blockOf os ⟨k⟩

end BlockOperation

open BlockOperation (added blockOf blocksOf)

namespace Function

def attempt (f : Function) : BlockOperation → Except Fault Function
  | .addBlock => .ok f.addBlock
  | .push b i => f.push b i
  | .terminate b t => f.terminate b t

/-- The function after an operation. One that is refused has no effect. -/
def perform (f : Function) (o : BlockOperation) : Function :=
  match f.attempt o with
  | .ok f' => f'
  | .error _ => f

def performAll (f : Function) (os : List BlockOperation) : Function := os.foldl perform f

/-- The operations that are not refused when their turn comes. -/
def accepted (f : Function) : List BlockOperation → List BlockOperation
  | [] => []
  | o :: os =>
    match f.attempt o with
    | .ok f' => o :: accepted f' os
    | .error _ => accepted f os

/-- An operation is refused if its block does not exist or has its terminator. -/
inductive Refuses (f : Function) : BlockOperation → Fault → Prop where
  | unknown {o : BlockOperation} {b : BlockId} (on : o.block? = some b)
      (missing : f.blocks.length ≤ b.index) : Refuses f o (.unknownBlock f.name b.index)
  | closed {o : BlockOperation} {b : BlockId} {block : Block} (on : o.block? = some b)
      (found : f.blocks[b.index]? = some block) (ended : block.terminator.isSome) :
      Refuses f o (.alreadyTerminated f.name b.label)

section Operations

variable {f f' : Function} {o : BlockOperation} {os : List BlockOperation} {b : BlockId}
  {block : Block} {e : Fault}

/-- An instruction and a terminator are put into a block in the same way. -/
theorem attempt_of_block (on : o.block? = some b) :
    f.attempt o = (f.openBlock b).map fun block => f.setBlock b (o.change block) := by
  cases o <;> cases on <;> rfl

theorem openBlock_eq_ok :
    f.openBlock b = .ok block ↔ f.blocks[b.index]? = some block ∧ block.terminator = none := by
  unfold openBlock
  split
  · next missing => simp [missing]
  · next block' found =>
    split
    · next ended =>
      simp only [found, Option.some.injEq, reduceCtorEq, false_iff, not_and]
      rintro rfl unended
      simp [unended] at ended
    · next unended =>
      simp only [found, Except.ok.injEq, Option.some.injEq]
      refine ⟨?_, And.left⟩
      rintro rfl
      exact ⟨rfl, by simpa using unended⟩

theorem attempt_eq_ok (done : f.attempt o = .ok f') :
    (o = .addBlock ∧ f' = f.addBlock) ∨ ∃ b block, o.block? = some b ∧
      f.blocks[b.index]? = some block ∧ block.terminator = none ∧
        f' = f.setBlock b (o.change block) := by
  cases on : o.block? with
  | none =>
    cases o <;> cases on
    exact .inl ⟨rfl, (Except.ok.inj done).symm⟩
  | some b =>
    rw [attempt_of_block on] at done
    cases opened : f.openBlock b with
    | error e => simp [opened, Except.map] at done
    | ok block =>
      obtain ⟨found, unended⟩ := openBlock_eq_ok.mp opened
      rw [opened] at done
      exact .inr ⟨b, block, rfl, found, unended, (Except.ok.inj done).symm⟩

theorem openBlock_eq_error (refused : f.openBlock b = .error e) (on : o.block? = some b) :
    f.Refuses o e := by
  unfold openBlock at refused
  split at refused
  · next missing =>
    cases refused
    exact .unknown on (List.getElem?_eq_none_iff.mp missing)
  · next block found =>
    split at refused
    · next ended =>
      cases refused
      exact .closed on found ended
    · cases refused

theorem attempt_eq_error : f.attempt o = .error e ↔ f.Refuses o e := by
  constructor
  · intro refused
    cases on : o.block? with
    | none =>
      cases o <;> cases on
      cases refused
    | some b =>
      rw [attempt_of_block on] at refused
      cases opened : f.openBlock b with
      | ok block => simp [opened, Except.map] at refused
      | error e' =>
        rw [opened] at refused
        cases refused
        exact openBlock_eq_error opened on
  · rintro (⟨on, missing⟩ | ⟨on, found, ended⟩)
    · rw [attempt_of_block on, openBlock, List.getElem?_eq_none missing]
      rfl
    · rw [attempt_of_block on, openBlock, found]
      simp [ended, Except.map]

/-! ## What stays -/

theorem signature_perform (f : Function) (o : BlockOperation) :
    (f.perform o).signature = f.signature := by
  unfold perform
  split
  · next done =>
    rcases attempt_eq_ok done with ⟨-, rfl⟩ | ⟨b, block, -, -, -, rfl⟩ <;> rfl
  · rfl

theorem signature_performAll (f : Function) (os : List BlockOperation) :
    (f.performAll os).signature = f.signature := by
  induction os generalizing f with
  | nil => rfl
  | cons o os ih => exact (ih (f.perform o)).trans (signature_perform f o)

/-- A block that has its terminator stays as it is: the one that is changed is open, so it is
    another. -/
theorem stays_perform (found : f.blocks[b.index]? = some block)
    (ended : block.terminator.isSome) (o : BlockOperation) :
    (f.perform o).blocks[b.index]? = some block := by
  unfold perform
  split
  · next done =>
    rcases attempt_eq_ok done with ⟨-, rfl⟩ | ⟨b', block', -, found', unended, rfl⟩
    · exact (List.getElem?_append_left (List.getElem?_eq_some_iff.mp found).1).trans found
    · have other : b'.index ≠ b.index := by
        intro same
        rw [same, found] at found'
        cases found'
        simp [unended] at ended
      exact (List.getElem?_set_ne other).trans found
  · exact found

/-- A block that has its terminator stays as it is. -/
theorem stays_performAll (found : f.blocks[b.index]? = some block)
    (ended : block.terminator.isSome) (os : List BlockOperation) :
    (f.performAll os).blocks[b.index]? = some block := by
  induction os generalizing f with
  | nil => exact found
  | cons o os ih => exact ih (stays_perform found ended o)

end Operations

end Function

/-! ## What operations tell -/

/-- The blocks of the function are what the operations say, and these do not say anything about
    blocks that do not exist. -/
structure Told (os : List BlockOperation) (f : Function) : Prop where
  blocks : f.blocks = blocksOf os
  beyond : ∀ b : BlockId, added os ≤ b.index → blockOf os b = .empty

namespace BlockOperation

variable {os : List BlockOperation} {o : BlockOperation} {b : BlockId}

theorem getElem?_blocksOf (os : List BlockOperation) (b : BlockId) : (blocksOf os)[b.index]? =
    if b.index < added os then some (blockOf os b) else none := by
  unfold blocksOf
  split <;> simp [*]

theorem blockOf_append_other (other : o.block? ≠ some b) :
    blockOf (os ++ [o]) b = blockOf os b := by
  cases o <;> simp_all [blockOf, instr?, terminator?, block?]

/-- A block that has no terminator is changed by one more operation on it. -/
theorem blockOf_append_same (on : o.block? = some b) (unended : (blockOf os b).terminator = none) :
    blockOf (os ++ [o]) b = o.change (blockOf os b) := by
  cases o with
  | addBlock => cases on
  | push b' i =>
    cases on
    simp [blockOf, instr?, terminator?, change]
  | terminate b' t =>
    cases on
    have none : os.findSome? (terminator? b) = .none := unended
    simp [blockOf, instr?, terminator?, change, none]

theorem added_append_block (on : o.block? = some b) : added (os ++ [o]) = added os := by
  cases o <;> cases on <;> simp [added, isAddBlock]

theorem isSome_terminator_blockOf :
    (blockOf os b).terminator.isSome ↔ ∃ t, .terminate b t ∈ os := by
  simp only [blockOf, List.findSome?_isSome_iff]
  constructor
  · rintro ⟨o, among, gives⟩
    cases o with
    | addBlock | push b' i => cases gives
    | terminate b' t =>
      by_cases same : b' = b
      · exact ⟨t, same ▸ among⟩
      · simp [terminator?, same] at gives
  · rintro ⟨t, among⟩
    exact ⟨_, among, by simp [terminator?]⟩

end BlockOperation

namespace Told

open BlockOperation

variable {os : List BlockOperation} {f f' : Function} {o : BlockOperation}

theorem declared (signature : Signature) : Told [] (.declared signature) := ⟨rfl, fun _ _ => rfl⟩

theorem addBlock (told : Told os f) : Told (os ++ [.addBlock]) f.addBlock := by
  have more : added (os ++ [.addBlock]) = added os + 1 := by simp [added, isAddBlock]
  have same (b : BlockId) : blockOf (os ++ [.addBlock]) b = blockOf os b :=
    blockOf_append_other nofun
  refine ⟨?_, fun b beyond => (same b).trans (told.beyond b (by omega))⟩
  simp only [Function.addBlock, told.blocks, blocksOf, more, List.range_succ, List.map_append,
    List.map_singleton, same, told.beyond ⟨added os⟩ (Nat.le_refl _)]

theorem setBlock {b : BlockId} {block : Block} (told : Told os f) (on : o.block? = some b)
    (found : f.blocks[b.index]? = some block) (unended : block.terminator = none) :
    Told (os ++ [o]) (f.setBlock b (o.change block)) := by
  rw [told.blocks, getElem?_blocksOf] at found
  obtain ⟨inside, ⟨⟩⟩ := Option.ite_none_right_eq_some.mp found
  have count : added (os ++ [o]) = added os := added_append_block on
  have here := blockOf_append_same on unended
  have elsewhere {b' : BlockId} (other : b ≠ b') : blockOf (os ++ [o]) b' = blockOf os b' :=
    blockOf_append_other fun on' => other (Option.some.inj (on.symm.trans on'))
  refine ⟨?_, fun b' beyond => ?_⟩
  · apply List.ext_getElem?
    intro k
    have said := getElem?_blocksOf (os ++ [o]) ⟨k⟩
    have said' := getElem?_blocksOf os ⟨k⟩
    simp only at said said'
    simp only [Function.setBlock, told.blocks, List.getElem?_set, said, said', count]
    by_cases same : b = ⟨k⟩
    · subst same
      simp [blocksOf, here, inside]
    · have other : b.index ≠ k := fun index => same (by cases b; simp_all)
      simp only [if_neg other, elsewhere same]
  · rw [count] at beyond
    have other : b ≠ b' := by
      rintro rfl
      exact Nat.not_le_of_lt inside beyond
    rw [elsewhere other, told.beyond b' beyond]

theorem step (told : Told os f) (done : f.attempt o = .ok f') : Told (os ++ [o]) f' := by
  rcases Function.attempt_eq_ok done with ⟨rfl, rfl⟩ | ⟨b, block, on, found, unended, rfl⟩
  · exact told.addBlock
  · exact told.setBlock on found unended

theorem run (told : Told os f) (more : List BlockOperation) :
    Told (os ++ f.accepted more) (f.performAll more) := by
  induction more generalizing os f with
  | nil => exact (List.append_nil os).symm ▸ told
  | cons o more ih =>
    rw [Function.accepted, Function.performAll, List.foldl_cons, Function.perform]
    split
    · next done =>
      have rest := ih (told.step done)
      rwa [List.append_assoc] at rest
    · exact ih told

end Told

/-! ## Missing terminators -/

namespace Function

variable {f : Function} {b : BlockId}

theorem firstOpen?_eq_some : f.firstOpen? = some b ↔
    (∃ block, f.blocks[b.index]? = some block ∧ block.terminator = none) ∧
      ∀ j < b.index, ∀ block : Block, f.blocks[j]? = some block → block.terminator.isSome := by
  cases b with
  | mk k =>
  simp only [firstOpen?, Option.map_eq_some_iff, BlockId.mk.injEq, exists_eq_right,
    List.findIdx?_eq_some_iff_getElem]
  constructor
  · rintro ⟨inside, unended, before⟩
    refine ⟨⟨_, List.getElem?_eq_getElem inside, by simpa using unended⟩, ?_⟩
    intro j less block found
    obtain ⟨_, rfl⟩ := List.getElem?_eq_some_iff.mp found
    simpa [Option.isSome_iff_ne_none] using before j less
  · rintro ⟨⟨block, found, unended⟩, before⟩
    obtain ⟨inside, rfl⟩ := List.getElem?_eq_some_iff.mp found
    refine ⟨inside, by simpa using unended, fun j less => ?_⟩
    have ended := before j less _ (List.getElem?_eq_getElem (by omega))
    simpa [Option.isSome_iff_ne_none] using ended

theorem firstOpen?_eq_none : f.firstOpen? = none ↔
    ∀ (j : Nat) (block : Block), f.blocks[j]? = some block → block.terminator.isSome := by
  simp only [firstOpen?, Option.map_eq_none_iff, List.findIdx?_eq_none_iff]
  constructor
  · intro all j block found
    simpa [Option.isSome_iff_ne_none] using all block (List.mem_of_getElem? found)
  · intro all block among
    obtain ⟨j, found⟩ := List.mem_iff_getElem?.mp among
    simpa [Option.isSome_iff_ne_none] using all j block found

end Function

/-! ## Histories -/

/-- A function that starts without blocks, and what is tried with it. -/
structure History where
  signature : Signature
  operations : List BlockOperation

namespace History

def function (h : History) : Function := (Function.declared h.signature).performAll h.operations

/-- What was not refused. -/
def taken (h : History) : List BlockOperation :=
  (Function.declared h.signature).accepted h.operations

/-- The block was given a terminator. -/
def Ended (h : History) (b : BlockId) : Prop := ∃ t, .terminate b t ∈ h.taken

def Complete (h : History) : Prop := ∀ k < added h.taken, h.Ended ⟨k⟩

/-- The block is the first one that was given none. -/
structure FirstOpen (h : History) (b : BlockId) : Prop where
  inside : b.index < added h.taken
  unended : ¬ h.Ended b
  before : ∀ j < b.index, h.Ended ⟨j⟩

variable {h : History} {b : BlockId}

theorem told (h : History) : Told h.taken h.function := (Told.declared h.signature).run h.operations

theorem blocks_eq (h : History) : h.function.blocks = blocksOf h.taken := h.told.blocks

theorem name_function (h : History) : h.function.name = h.signature.name :=
  congrArg Signature.name (Function.signature_performAll _ h.operations)

theorem length_blocks (h : History) : h.function.blocks.length = added h.taken := by
  simp [blocks_eq, blocksOf]

/-- A block exists if it was added, and has a terminator if it was given one. -/
theorem getElem?_eq_some {block : Block} (found : h.function.blocks[b.index]? = some block) :
    b.index < added h.taken ∧ (block.terminator.isSome ↔ h.Ended b) := by
  rw [blocks_eq, BlockOperation.getElem?_blocksOf] at found
  obtain ⟨inside, ⟨⟩⟩ := Option.ite_none_right_eq_some.mp found
  exact ⟨inside, BlockOperation.isSome_terminator_blockOf⟩

theorem exists_block (inside : b.index < added h.taken) :
    ∃ block, h.function.blocks[b.index]? = some block :=
  ⟨_, List.getElem?_eq_getElem (h.length_blocks.symm ▸ inside)⟩

theorem firstOpen?_eq_some : h.function.firstOpen? = some b ↔ h.FirstOpen b := by
  rw [Function.firstOpen?_eq_some]
  constructor
  · rintro ⟨⟨block, found, unended⟩, before⟩
    obtain ⟨inside, ended⟩ := getElem?_eq_some found
    refine ⟨inside, by simp [← ended, unended], fun j less => ?_⟩
    obtain ⟨block', found'⟩ := exists_block (h := h) (b := ⟨j⟩) (Nat.lt_trans less inside)
    exact (getElem?_eq_some (b := ⟨j⟩) found').2.mp (before j less block' found')
  · rintro ⟨inside, unended, before⟩
    obtain ⟨block, found⟩ := exists_block inside
    refine ⟨⟨block, found, ?_⟩, fun j less block' found' => ?_⟩
    · simpa [← (getElem?_eq_some found).2] using unended
    · exact (getElem?_eq_some (b := ⟨j⟩) found').2.mpr (before j less)

theorem firstOpen?_eq_none : h.function.firstOpen? = none ↔ h.Complete := by
  rw [Function.firstOpen?_eq_none]
  constructor
  · intro all k inside
    obtain ⟨block, found⟩ := exists_block (b := ⟨k⟩) inside
    exact (getElem?_eq_some (b := ⟨k⟩) found).2.mp (all k block found)
  · intro complete j block found
    have here := getElem?_eq_some (b := ⟨j⟩) found
    exact here.2.mpr (complete j here.1)

theorem openFault?_eq_some {e : Fault} : Module.openFault? h.function = some e ↔
    ∃ b, h.FirstOpen b ∧ e = .unterminated h.signature.name b.label := by
  simp only [Module.openFault?, Option.map_eq_some_iff, firstOpen?_eq_some, name_function,
    eq_comm (a := e)]

theorem openFault?_eq_none : Module.openFault? h.function = none ↔ h.Complete := by
  rw [Module.openFault?, Option.map_eq_none_iff, firstOpen?_eq_none]

end History

/-! ## In a compilation -/

section InPlace

variable {s : State} {f : Function}

/-- The state with another function in place of the one that is built, or a failure that leaves the
    state as it was. -/
def inPlace (s : State) : Except Fault Function → EStateM.Result Diagnostic State Unit
  | .ok f => .ok () { s with target := s.target.setFunction s.function f }
  | .error fault => .error (.consistency fault) s

theorem getFunction_eq (known : s.target.function s.function = .ok f) :
    Lowering.getFunction s = .ok f s := by
  unfold Lowering.getFunction
  rw [Lowering.get_bind, known]
  rfl

theorem ofFault_inPlace (r : Except Fault Function) :
    (Lowering.ofFault r >>= Lowering.setFunction) s = inPlace s r := by
  cases r <;> rfl

theorem emit_inPlace (known : s.target.function s.function = .ok f) (i : Instr) :
    Lowering.emit i s = inPlace s (f.attempt (.push s.block i)) := by
  unfold Lowering.emit
  rw [Lowering.get_bind, Lowering.bind_ok (getFunction_eq known)]
  exact ofFault_inPlace _

theorem terminateAt_inPlace (known : s.target.function s.function = .ok f) (b : BlockId)
    (t : Terminator) : Lowering.terminateAt b t s = inPlace s (f.attempt (.terminate b t)) := by
  unfold Lowering.terminateAt
  rw [Lowering.bind_ok (getFunction_eq known)]
  exact ofFault_inPlace _

theorem addBlock_inPlace (known : s.target.function s.function = .ok f) :
    ∃ s', Lowering.addBlock s = .ok f.nextBlock s' ∧
      s'.target = s.target.setFunction s.function f.addBlock := by
  unfold Lowering.addBlock
  rw [Lowering.bind_ok (getFunction_eq known)]
  exact ⟨_, rfl, rfl⟩

end InPlace

/-! ## After every history -/

/-- How a function stands after its history. -/
structure History.Kept (h : History) : Prop where
  signature : h.function.signature = h.signature
  /-- There are as many blocks as were added. Each has the instructions that were put into it, and
      the terminator that it was given. -/
  blocks : h.function.blocks = blocksOf h.taken
  labels : ((List.range (added h.taken)).map fun k => BlockId.label ⟨k⟩).Nodup
  /-- Nothing changes a block that has its terminator. -/
  settled : ∀ (b : BlockId) block, h.function.blocks[b.index]? = some block →
    block.terminator.isSome → ∀ more,
      (h.function.performAll more).blocks[b.index]? = some block
  refused : ∀ o e, h.function.attempt o = .error e ↔ h.function.Refuses o e
  /-- In a compilation, blocks are counted from zero, and what is refused changes nothing. -/
  compiled : ∀ s : State, s.target.function s.function = .ok h.function →
    (∃ s', Lowering.addBlock s = .ok ⟨added h.taken⟩ s' ∧
      s'.target = s.target.setFunction s.function h.function.addBlock) ∧
    (∀ i, Lowering.emit i s = inPlace s (h.function.attempt (.push s.block i))) ∧
    ∀ b t, Lowering.terminateAt b t s = inPlace s (h.function.attempt (.terminate b t))

theorem History.kept (h : History) : h.Kept where
  signature := Function.signature_performAll _ h.operations
  blocks := h.blocks_eq
  labels := List.Nodup.map (fun _ _ => label_injective) List.nodup_range
  settled _ _ found ended more := Function.stays_performAll found ended more
  refused _ _ := Function.attempt_eq_error
  compiled s known := by
    refine ⟨?_, emit_inPlace known, terminateAt_inPlace known⟩
    have number : h.function.nextBlock = ⟨added h.taken⟩ := congrArg BlockId.mk h.length_blocks
    exact number ▸ addBlock_inPlace known

/-- A module is complete if all of its functions are. Otherwise the first block of the first
    function that lacks its terminator is named. -/
structure Verified (m : Module) (hs : List History) : Prop where
  complete : m.verify = .ok () ↔ ∀ h ∈ hs, h.Complete
  fault : ∀ e, m.verify = .error e ↔ ∃ before h after b, hs = before ++ h :: after ∧
    (∀ h' ∈ before, h'.Complete) ∧ h.FirstOpen b ∧ e = .unterminated h.signature.name b.label

theorem verified (globals : List Global) (symbols : List String) (hs : List History) :
    Verified ⟨globals, hs.map History.function, symbols⟩ hs := by
  constructor
  · have none : hs.findSome? (Module.openFault? ∘ History.function) = none ↔
        ∀ h ∈ hs, h.Complete := by
      simp only [List.findSome?_eq_none_iff, Function.comp_apply, History.openFault?_eq_none]
    rw [Module.verify, List.findSome?_map, ← none]
    split <;> simp [*]
  · intro e
    have some : hs.findSome? (Module.openFault? ∘ History.function) = some e ↔
        ∃ before h after b, hs = before ++ h :: after ∧ (∀ h' ∈ before, h'.Complete) ∧
          h.FirstOpen b ∧ e = .unterminated h.signature.name b.label := by
      simp only [List.findSome?_eq_some_iff, Function.comp_apply, History.openFault?_eq_none,
        History.openFault?_eq_some]
      constructor
      · rintro ⟨before, h, after, split, ⟨b, first, same⟩, complete⟩
        exact ⟨before, h, after, b, split, complete, first, same⟩
      · rintro ⟨before, h, after, b, split, complete, first, same⟩
        exact ⟨before, h, after, split, ⟨b, first, same⟩, complete⟩
    rw [Module.verify, List.findSome?_map, ← some]
    split <;> simp [*]

/-- Whatever is tried with the blocks of a function, they are what the operations say that were not
    refused, and a module of such functions is complete if each block was given a terminator. -/
theorem blocks_after_histories :
    (∀ h : History, h.Kept) ∧
      ∀ globals symbols hs, Verified ⟨globals, hs.map History.function, symbols⟩ hs :=
  ⟨History.kept, verified⟩

/-- What comes too early or too late is refused, and has no effect. -/
example : (History.mk ⟨"f", .i32, [], false⟩ [.terminate ⟨0⟩ (.ret (.i32 1)), .addBlock, .addBlock,
    .terminate ⟨0⟩ (.br ⟨1⟩), .push ⟨0⟩ (.load (.i32 0) (.i32 0)), .terminate ⟨1⟩ (.ret (.i32 0)),
    .terminate ⟨1⟩ (.br ⟨0⟩)]).function.blocks =
      [⟨[], some (.br ⟨1⟩)⟩, ⟨[], some (.ret (.i32 0))⟩] :=
  rfl

end Pseudocode.Assembly
