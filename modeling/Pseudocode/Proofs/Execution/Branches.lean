import Pseudocode.Proofs.Execution.Steps

/-! # From block to block

Where a run goes at the end of each block that a branch or a loop has.

* `fresh_loop`, `fresh_again`: the blocks that a construct adds are empty until building
  goes on in them, so that they are entered at their start.
* `step_loop`, `step_endLoop`, ...: one lemma for each edge that a construct adds.
* `Decides fr v b`: a branch on the operand `v` goes the way of `b`.
-/

namespace Pseudocode.Execution

open Assembly Lowering Typing

/-- The operand is a truth value, by which branches go. -/
def Decides (fr : Frame) (v : Value) (b : Bool) : Prop :=
  ∀ thenBlock elseBlock, leave fr (.condBr v thenBlock elseBlock) =
    .ok ⟨if b then thenBlock else elseBlock, 0, fr⟩

theorem place_of_empty {d : Draft} (fresh : d.blocks[d.block.index]? = some .empty) (fr : Frame) :
    place d fr = ⟨d.block, 0, fr⟩ :=
  place_of_found fresh

section Edges

variable {env : Environment} {blocks : List Block} {d d' d'' : Draft} {v : Value} {b : Bool}

/-! ## Blocks that are still empty -/

theorem fresh_loop (h : Draft.IsOpen d.blocks d.block) {i : Nat} (less : i < 3) :
    d.loop.blocks[(d.ahead i).index]? = some .empty := by
  have old : d.block.index < d.blocks.length := lt_of_isOpen h
  have other : d.blocks.length + i ≠ d.block.index := by omega
  exact (endAt_of_ne other).trans (getElem?_ofThree d less)

theorem fresh_again (h : Draft.IsOpen d.blocks d.block) {i : Nat} (less : i < 2) :
    d.again.blocks[(d.ahead i).index]? = some .empty := by
  have old : d.block.index < d.blocks.length := lt_of_isOpen h
  have other : d.blocks.length + i ≠ d.block.index := by omega
  exact (endAt_of_ne other).trans (getElem?_ofTwo d less)

theorem fresh_otherwise
    (first : Region d.branch.blocks d.branch.block.index d'.blocks d'.block.index) {i : Nat}
    (positive : 0 < i) (less : i < 3) :
    (d.otherwise d').blocks[(d.ahead i).index]? = some .empty := by
  have old : (d.ahead i).index < d.branch.blocks.length := by
    rw [length_branch]
    exact Nat.add_lt_add_left less _
  have other : (d.ahead i).index ≠ d.branch.block.index := by
    show d.blocks.length + i ≠ d.blocks.length + 0
    omega
  exact (first.getElem?_other old other).trans (getElem?_ofThree d less)

theorem fresh_loopBody (h : Draft.IsOpen d.blocks d.block)
    (condition : Region d.loop.blocks d.loop.block.index d'.blocks d'.block.index) {i : Nat}
    (positive : 0 < i) (less : i < 3) :
    (d.loopBody d' v).blocks[(d.ahead i).index]? = some .empty := by
  have old : (d.ahead i).index < d.loop.blocks.length := by
    rw [length_loop]
    exact Nat.add_lt_add_left less _
  have other : (d.ahead i).index ≠ d.loop.block.index := by
    show d.blocks.length + i ≠ d.blocks.length + 0
    omega
  exact (condition.getElem?_other old other).trans (fresh_loop h less)

/-! ## Branches -/

theorem place_branch (d : Draft) (fr : Frame) : place d.branch fr = ⟨d.ahead 0, 0, fr⟩ :=
  place_of_empty (getElem?_ofThree d (by decide)) fr

theorem place_otherwise
    (first : Region d.branch.blocks d.branch.block.index d'.blocks d'.block.index) (fr : Frame) :
    place (d.otherwise d') fr = ⟨d.ahead 1, 0, fr⟩ :=
  place_of_empty (fresh_otherwise first (by decide) (by decide)) fr

theorem place_merge (h : Draft.IsOpen d.blocks d.block)
    (first : Region d.branch.blocks d.branch.block.index d'.blocks d'.block.index)
    (second : Region (d.otherwise d').blocks (d.otherwise d').block.index d''.blocks
      d''.block.index) (fr : Frame) :
    place (d.merge d'' v) fr = ⟨d.ahead 2, 0, fr⟩ := by
  have old : d.block.index < d.blocks.length := lt_of_isOpen h
  have grows := first.develops.length_le
  rw [length_branch] at grows
  refine place_of_empty ?_ fr
  have notOrigin : d.blocks.length + 2 ≠ d.block.index := by omega
  have there : d.blocks.length + 2 < (d.otherwise d').blocks.length := by
    rw [length_otherwise]
    omega
  have notElse : d.blocks.length + 2 ≠ d.blocks.length + 1 := by omega
  exact (endAt_of_ne notOrigin).trans ((second.getElem?_other there notElse).trans
    (fresh_otherwise first (by decide) (by decide)))

/-- The block that has the condition is what it was before the bodies. -/
theorem rejoin_origin (h : Draft.IsOpen d.blocks d.block)
    (first : Region d.branch.blocks d.branch.block.index d'.blocks d'.block.index)
    (second : Region (d.otherwise d').blocks (d.otherwise d').block.index d''.blocks
      d''.block.index) :
    (d.rejoin d'').blocks[d.block.index]? = d.blocks[d.block.index]? := by
  have old : d.block.index < d.blocks.length := lt_of_isOpen h
  have grows := first.develops.length_le
  rw [length_branch] at grows
  have there : d.block.index < d.branch.blocks.length := by
    rw [length_branch]
    omega
  have there₁ : d.block.index < (d.otherwise d').blocks.length := by
    rw [length_otherwise]
    omega
  have notThen : d.block.index ≠ d.blocks.length + 0 := by omega
  have notElse : d.block.index ≠ d.blocks.length + 1 := by omega
  have behindFirst := first.getElem?_other (t := .br (d.ahead 2)) there notThen
  have behindSecond := second.getElem?_other (t := .br (d.ahead 2)) there₁ notElse
  refine behindSecond.trans (behindFirst.trans ?_)
  rw [blocks_branch, List.getElem?_append_left old]

/-- From the condition to one of the bodies. -/
theorem step_branch (env : Environment) {fr : Frame} (h : Draft.IsOpen d.blocks d.block)
    (first : Region d.branch.blocks d.branch.block.index d'.blocks d'.block.index)
    (second : Region (d.otherwise d').blocks (d.otherwise d').block.index d''.blocks
      d''.block.index)
    (later : Develops (d.merge d'' v).blocks blocks) (decides : Decides fr v b) :
    step env blocks (place d fr) =
      .ok (if b then place d.branch fr else place (d.otherwise d') fr) := by
  rw [step_place (rejoin_origin h first second) h later fr, decides, place_branch,
    place_otherwise first]
  cases b <;> rfl

/-- From the end of the first body behind the branch. -/
theorem step_otherwise {fr : Frame} (h : Draft.IsOpen d.blocks d.block)
    (first : Region d.branch.blocks d.branch.block.index d'.blocks d'.block.index)
    (second : Region (d.otherwise d').blocks (d.otherwise d').block.index d''.blocks
      d''.block.index)
    (later : Develops (d.otherwise d').blocks blocks) :
    step env blocks (place d' fr) = .ok (place (d.merge d'' v) fr) := by
  rw [step_place rfl first.isOpen later fr, place_merge h first second]
  rfl

/-- From the end of the second body behind the branch. -/
theorem step_rejoin {fr : Frame} (h : Draft.IsOpen d.blocks d.block)
    (first : Region d.branch.blocks d.branch.block.index d'.blocks d'.block.index)
    (second : Region (d.otherwise d').blocks (d.otherwise d').block.index d''.blocks
      d''.block.index)
    (later : Develops (d.rejoin d'').blocks blocks) :
    step env blocks (place d'' fr) = .ok (place (d.merge d'' v) fr) := by
  rw [step_place rfl second.isOpen later fr, place_merge h first second]
  rfl

/-! ## Loops that ask first -/

theorem place_loop (h : Draft.IsOpen d.blocks d.block) (fr : Frame) :
    place d.loop fr = ⟨d.ahead 0, 0, fr⟩ :=
  place_of_empty (fresh_loop h (by decide)) fr

theorem place_loopBody (h : Draft.IsOpen d.blocks d.block)
    (condition : Region d.loop.blocks d.loop.block.index d'.blocks d'.block.index) (fr : Frame) :
    place (d.loopBody d' v) fr = ⟨d.ahead 1, 0, fr⟩ :=
  place_of_empty (fresh_loopBody h condition (by decide) (by decide)) fr

theorem place_endLoop (h : Draft.IsOpen d.blocks d.block)
    (condition : Region d.loop.blocks d.loop.block.index d'.blocks d'.block.index)
    (inner : Region (d.loopBody d' v).blocks (d.loopBody d' v).block.index d''.blocks
      d''.block.index) (fr : Frame) :
    place (d.endLoop d'') fr = ⟨d.ahead 2, 0, fr⟩ := by
  have grows := condition.develops.length_le
  rw [length_loop] at grows
  have there : d.blocks.length + 2 < (d.loopBody d' v).blocks.length := by
    rw [length_loopBody]
    omega
  have notBody : d.blocks.length + 2 ≠ d.blocks.length + 1 := by omega
  exact place_of_empty ((inner.getElem?_other there notBody).trans
    (fresh_loopBody h condition (by decide) (by decide))) fr

/-- Into the loop. -/
theorem step_loop (h : Draft.IsOpen d.blocks d.block) (later : Develops d.loop.blocks blocks)
    (fr : Frame) : step env blocks (place d fr) = .ok (place d.loop fr) := by
  have same : d.addBlock.addBlock.addBlock.blocks[d.block.index]? = d.blocks[d.block.index]? := by
    rw [blocks_addThree, List.getElem?_append_left (lt_of_isOpen h)]
  rw [step_place same h later fr, place_loop h]
  rfl

/-- From the condition into the body, or out of the loop. -/
theorem step_loopBody (env : Environment) {fr : Frame} (h : Draft.IsOpen d.blocks d.block)
    (condition : Region d.loop.blocks d.loop.block.index d'.blocks d'.block.index)
    (inner : Region (d.loopBody d' v).blocks (d.loopBody d' v).block.index d''.blocks
      d''.block.index)
    (later : Develops (d.loopBody d' v).blocks blocks) (decides : Decides fr v b) :
    step env blocks (place d' fr) =
      .ok (if b then place (d.loopBody d' v) fr else place (d.endLoop d'') fr) := by
  rw [step_place rfl condition.isOpen later fr, decides, place_loopBody h condition,
    place_endLoop h condition inner]
  cases b <;> rfl

/-- From the end of the body back to the condition. -/
theorem step_endLoop {fr : Frame} (h : Draft.IsOpen d.blocks d.block)
    (inner : Draft.IsOpen d'.blocks d'.block) (later : Develops (d.endLoop d').blocks blocks) :
    step env blocks (place d' fr) = .ok (place d.loop fr) := by
  rw [step_place rfl inner later fr, place_loop h]
  rfl

/-! ## Loops that ask last -/

theorem place_again (h : Draft.IsOpen d.blocks d.block) (fr : Frame) :
    place d.again fr = ⟨d.ahead 0, 0, fr⟩ :=
  place_of_empty (fresh_again h (by decide)) fr

theorem place_endAgain (h : Draft.IsOpen d.blocks d.block)
    (body : Region d.again.blocks d.again.block.index d'.blocks d'.block.index) (fr : Frame) :
    place (d.endAgain d' v) fr = ⟨d.ahead 1, 0, fr⟩ := by
  have there : d.blocks.length + 1 < d.again.blocks.length := by
    rw [length_again]
    omega
  have notBody : d.blocks.length + 1 ≠ d.blocks.length + 0 := by omega
  exact place_of_empty ((body.getElem?_other there notBody).trans (fresh_again h (by decide))) fr

/-- Into the loop. -/
theorem step_again (h : Draft.IsOpen d.blocks d.block) (later : Develops d.again.blocks blocks)
    (fr : Frame) : step env blocks (place d fr) = .ok (place d.again fr) := by
  have same : d.addBlock.addBlock.blocks[d.block.index]? = d.blocks[d.block.index]? := by
    rw [blocks_addTwo, List.getElem?_append_left (lt_of_isOpen h)]
  rw [step_place same h later fr, place_again h]
  rfl

/-- From the condition out of the loop, or back to the body. -/
theorem step_endAgain (env : Environment) {fr : Frame} (h : Draft.IsOpen d.blocks d.block)
    (body : Region d.again.blocks d.again.block.index d'.blocks d'.block.index)
    (later : Develops (d.endAgain d' v).blocks blocks) (decides : Decides fr v b) :
    step env blocks (place d' fr) =
      .ok (if b then place (d.endAgain d' v) fr else place d.again fr) := by
  rw [step_place rfl body.isOpen later fr, decides, place_again h, place_endAgain h body]
  cases b <;> rfl

end Edges

end Pseudocode.Execution
