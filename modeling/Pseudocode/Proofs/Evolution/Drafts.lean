import Pseudocode.Proofs.Lowering.Growth

/-! # What can become of a draft

The lowering of a statement may stop at any instruction in any scope. What it has done to the draft
by then is put together from a few changes, whether it succeeds or fails.

* `Evolves own named d d'`: such changes lead from `d` to `d'`. Only blocks that are `own` are
  written to, ended and entered, and only variables that are `named` get globals.
* `Keeps own d d'`: what the changes leave alone, `Evolves.keeps`.
* `Draft.owns`: what is done from a draft on is done to its current block and to new blocks.
-/

namespace Pseudocode.Lowering

open Assembly

/-- Changes to a draft that lowering makes, one after the other. A scope that is opened is closed
    again. -/
inductive Evolves (own : Nat → Prop) (named : String → Prop) : Draft → Draft → Prop where
  | refl (d : Draft) : Evolves own named d d
  | trans {d d₁ d₂ : Draft} (first : Evolves own named d d₁) (second : Evolves own named d₁ d₂) :
      Evolves own named d d₂
  | freshTemp (d : Draft) : Evolves own named d { d with temps := d.temps + 1 }
  | push {d : Draft} (i : Instr) (mine : own d.block.index)
      (isOpen : Draft.IsOpen d.blocks d.block) : Evolves own named d (d.push i)
  | addString (d : Draft) (text : String) : Evolves own named d (d.addString text)
  | declare (d : Draft) (pos : Position) {name : String} (init : Initializer)
      (admitted : named name) (new : d.bindings.lookup name = none) :
      Evolves own named d (d.declare pos name init)
  /-- A declaration is refused behind its global. -/
  | refuse (d : Draft) {name : String} {old : Binding} (init : Initializer)
      (admitted : named name) (taken : d.bindings.lookup name = some old) :
      Evolves own named d (d.addVariable name init)
  | ignore (d : Draft) (name type : String) :
      Evolves own named d (d.tell (.ignoredDeclaration name type))
  | addBlock (d : Draft) : Evolves own named d d.addBlock
  | terminate {d : Draft} {b : BlockId} (t : Terminator) (mine : own b.index)
      (isOpen : Draft.IsOpen d.blocks b) : Evolves own named d (d.terminate b t)
  | enter (d : Draft) {b : BlockId} (mine : own b.index) : Evolves own named d (d.enter b)
  | scope {d d' : Draft} (inner : Evolves own named d.openScope d') :
      Evolves own named d d'.closeScope

theorem Evolves.mono {own own' : Nat → Prop} {named : String → Prop} {d d' : Draft}
    (h : Evolves own named d d') (more : ∀ i, own i → own' i) : Evolves own' named d d' := by
  induction h with
  | refl d => exact .refl d
  | trans _ _ ih ih₁ => exact ih.trans ih₁
  | freshTemp d => exact .freshTemp d
  | push i mine isOpen => exact .push i (more _ mine) isOpen
  | addString d text => exact .addString d text
  | declare d pos init admitted new => exact .declare d pos init admitted new
  | refuse d init admitted taken => exact .refuse d init admitted taken
  | ignore d name type => exact .ignore d name type
  | addBlock d => exact .addBlock d
  | terminate t mine isOpen => exact .terminate t (more _ mine) isOpen
  | enter d mine => exact .enter d (more _ mine)
  | scope _ ih => exact .scope ih

/-! ## What stays -/

/-- The draft has grown, at the same depth, and only blocks that are own have changed. -/
structure Keeps (own : Nat → Prop) (d d' : Draft) : Prop extends Grows d d' where
  depth : d'.depth = d.depth
  others : ∀ i < d.blocks.length, ¬ own i → d'.blocks[i]? = d.blocks[i]?
  block : own d.block.index → own d'.block.index

namespace Keeps

variable {own : Nat → Prop} {d d₁ d₂ d' : Draft}

theorem refl (d : Draft) : Keeps own d d := ⟨.refl d, rfl, fun _ _ _ => rfl, id⟩

theorem trans (first : Keeps own d d₁) (second : Keeps own d₁ d₂) : Keeps own d d₂ where
  toGrows := first.toGrows.trans second.toGrows
  depth := second.depth.trans first.depth
  others i old other :=
    (second.others i (Nat.lt_of_lt_of_le old first.blocks.length_le) other).trans
      (first.others i old other)
  block := second.block ∘ first.block

theorem length_le (keeps : Keeps own d d') : d.blocks.length ≤ d'.blocks.length :=
  keeps.blocks.length_le

/-- Blocks are not touched. -/
theorem of_blocks (globals : d.globals <+: d'.globals) (bindings : d.bindings <+: d'.bindings)
    (depth : d'.depth = d.depth) (blocks : d'.blocks = d.blocks) (block : d'.block = d.block) :
    Keeps own d d' where
  globals := globals
  bindings := bindings
  blocks := blocks ▸ .refl _
  depth := depth
  others _ _ _ := by rw [blocks]
  block mine := block ▸ mine

/-- A change to one block that is own and open. -/
theorem modify {b : BlockId} {f : Block → Block} (mine : own b.index)
    (isOpen : Draft.IsOpen d.blocks b) (grows : ∀ block, block.instrs <+: (f block).instrs) :
    Keeps own d { d with blocks := d.blocks.modify b.index f } := by
  refine ⟨⟨List.prefix_rfl, List.prefix_rfl, .modify isOpen grows⟩, rfl, fun i _ other => ?_, id⟩
  have apart : b.index ≠ i := fun same => other (same ▸ mine)
  simp [apart]

theorem addBlock (d : Draft) : Keeps own d d.addBlock := by
  refine ⟨⟨List.prefix_rfl, List.prefix_rfl, .append _ _⟩, rfl, fun i old _ => ?_, id⟩
  exact List.getElem?_append_left old

/-- A scope that was opened is closed. -/
theorem scope (inner : Keeps own d.openScope d') : Keeps own d d'.closeScope where
  globals := inner.globals
  bindings := inner.bindings
  blocks := inner.blocks
  depth := by
    show d'.depth - 1 = d.depth
    rw [inner.depth]
    rfl
  others := inner.others
  block := inner.block

/-- A block that is not own stays open. -/
theorem isOpen_other {i : Nat} (keeps : Keeps own d d') (other : ¬ own i)
    (isOpen : Draft.IsOpen d.blocks ⟨i⟩) : Draft.IsOpen d'.blocks ⟨i⟩ :=
  isOpen_of_eq (keeps.others i (lt_of_isOpen isOpen) other) isOpen

end Keeps

/-- Whatever lowering does leaves blocks alone that are not own. -/
theorem Evolves.keeps {own : Nat → Prop} {named : String → Prop} {d d' : Draft}
    (h : Evolves own named d d') : Keeps own d d' := by
  induction h with
  | refl d => exact .refl d
  | trans _ _ ih ih₁ => exact ih.trans ih₁
  | freshTemp d => exact .of_blocks List.prefix_rfl List.prefix_rfl rfl rfl rfl
  | push i mine isOpen => exact .modify mine isOpen fun block => List.prefix_append _ _
  | addString d text => exact .of_blocks (List.prefix_append _ _) List.prefix_rfl rfl rfl rfl
  | declare d pos init _ _ =>
    exact .of_blocks (List.prefix_append _ _) (List.prefix_append _ _) rfl rfl rfl
  | refuse d init _ _ => exact .of_blocks (List.prefix_append _ _) List.prefix_rfl rfl rfl rfl
  | ignore d name type => exact .of_blocks List.prefix_rfl List.prefix_rfl rfl rfl rfl
  | addBlock d => exact .addBlock d
  | terminate t mine isOpen => exact .modify mine isOpen fun block => List.prefix_rfl
  | enter d mine =>
    exact ⟨⟨List.prefix_rfl, List.prefix_rfl, .refl _⟩, rfl, fun _ _ _ => rfl, fun _ => mine⟩
  | scope _ ih => exact ih.scope

/-! ## The blocks of a draft -/

/-- The current block, and all that are added from here on. -/
def Draft.owns (d : Draft) (i : Nat) : Prop := i = d.block.index ∨ d.blocks.length ≤ i

theorem Draft.owns_block (d : Draft) : d.owns d.block.index := .inl rfl

/-- What is done in a block of a draft that has more blocks is done to blocks of the first one. -/
theorem Draft.owns_of {d d' : Draft} (block : d.owns d'.block.index)
    (length : d.blocks.length ≤ d'.blocks.length) {i : Nat} (mine : d'.owns i) : d.owns i := by
  obtain rfl | new := mine
  · exact block
  · exact .inr (Nat.le_trans length new)

theorem Keeps.owns {d d' : Draft} (keeps : Keeps d.owns d d') {i : Nat} (mine : d'.owns i) :
    d.owns i :=
  Draft.owns_of (keeps.block d.owns_block) keeps.length_le mine

theorem Evolves.next {named : String → Prop} {d d₁ d₂ : Draft} (first : Evolves d.owns named d d₁)
    (second : Evolves d₁.owns named d₁ d₂) : Evolves d.owns named d d₂ :=
  first.trans (second.mono fun _ mine => first.keeps.owns mine)

end Pseudocode.Lowering
