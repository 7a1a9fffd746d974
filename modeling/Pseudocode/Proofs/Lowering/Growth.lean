import Pseudocode.Proofs.Lowering.Building

/-! # Drafts only grow

Nothing that a draft has is lost or changed later on, but for the blocks that are still
open, and these only get more instructions.

* `Grows d d'`: the draft `d'` has all that `d` has.
* `Lowers.grows`: a statement makes a draft grow, and so does each of the stages that a
  branch or a loop goes through.
-/

namespace Pseudocode.Lowering

open Assembly

/-- The one draft has become the other. -/
structure Grows (d d' : Draft) : Prop where
  globals : d.globals <+: d'.globals
  bindings : d.bindings <+: d'.bindings
  blocks : Develops d.blocks d'.blocks

namespace Grows

theorem refl (d : Draft) : Grows d d where
  globals := List.prefix_rfl
  bindings := List.prefix_rfl
  blocks := .refl _

theorem trans {d d₁ d₂ : Draft} (first : Grows d d₁) (second : Grows d₁ d₂) : Grows d d₂ where
  globals := first.globals.trans second.globals
  bindings := first.bindings.trans second.bindings
  blocks := first.blocks.trans second.blocks

/-- Only the blocks have changed. -/
theorem of_develops {d d' : Draft} (globals : d'.globals = d.globals)
    (bindings : d'.bindings = d.bindings) (blocks : Develops d.blocks d'.blocks) :
    Grows d d' where
  globals := globals ▸ List.prefix_rfl
  bindings := bindings ▸ List.prefix_rfl
  blocks := blocks

theorem terminate {d : Draft} {b : BlockId} (h : Draft.IsOpen d.blocks b) (t : Terminator) :
    Grows d (d.terminate b t) :=
  of_develops rfl rfl (develops_endAt h)

/-- A name that is bound stays bound to the same. -/
theorem lookup {d d' : Draft} (grows : Grows d d') {name : String} {b : Binding}
    (found : d.bindings.lookup name = some b) : d'.bindings.lookup name = some b := by
  obtain ⟨more, same⟩ := grows.bindings
  rw [← same, List.lookup_append, found]
  rfl

end Grows

theorem Straight.grows {d d' : Draft} {code : List Instr} (added : Straight d code d')
    (h : Draft.IsOpen d.blocks d.block) : Grows d d' where
  globals := added.globals_prefix
  bindings := added.bindings ▸ List.prefix_rfl
  blocks := (added.region h).develops

/-! ## Stages of branches and loops -/

section Stages

variable {d d' d'' : Draft} {v : Value}

theorem grows_branch (d : Draft) : Grows d d.branch :=
  .of_develops rfl rfl (blocks_branch d ▸ .append _ _)

theorem grows_otherwise (h : Draft.IsOpen d'.blocks d'.block) : Grows d' (d.otherwise d') :=
  .of_develops rfl rfl (develops_endAt h)

theorem grows_rejoin (h : Draft.IsOpen d'.blocks d'.block) : Grows d' (d.rejoin d') :=
  .of_develops rfl rfl (develops_endAt h)

theorem grows_merge (h : Draft.IsOpen (d.rejoin d').blocks d.block) :
    Grows (d.rejoin d') (d.merge d' v) :=
  .of_develops rfl rfl (develops_endAt h)

theorem grows_loop (h : Draft.IsOpen d.blocks d.block) : Grows d d.loop :=
  .of_develops rfl rfl ((blocks_addThree d ▸ Develops.append _ _).trans
    (develops_endAt (isOpen_addThree h)))

theorem grows_loopBody (h : Draft.IsOpen d'.blocks d'.block) : Grows d' (d.loopBody d' v) :=
  .of_develops rfl rfl (develops_endAt h)

theorem grows_endLoop (h : Draft.IsOpen d'.blocks d'.block) : Grows d' (d.endLoop d') :=
  .of_develops rfl rfl (develops_endAt h)

theorem grows_again (h : Draft.IsOpen d.blocks d.block) : Grows d d.again :=
  .of_develops rfl rfl ((blocks_addTwo d ▸ Develops.append _ _).trans
    (develops_endAt (isOpen_addTwo h)))

theorem grows_endAgain (h : Draft.IsOpen d'.blocks d'.block) : Grows d' (d.endAgain d' v) :=
  .of_develops rfl rfl (develops_endAt h)

theorem grows_declare (d : Draft) (pos : Position) (name : String) (init : Initializer) :
    Grows d (d.declare pos name init) where
  globals := List.prefix_append _ _
  bindings := List.prefix_append _ _
  blocks := .refl _

end Stages

/-! ## Statements -/

mutual

/-- A statement makes a draft grow. -/
theorem Lowers.grows {d d' : Draft} {s : Statement} (h : Draft.IsOpen d.blocks d.block) :
    Lowers d s d' → Grows d d'
  | .performs done => by
    obtain ⟨_, added⟩ := done.straight
    exact added.grows h
  | .declare _ _ _ => grows_declare d _ _ _
  | .ifElse condition first second => by
    obtain ⟨_, added⟩ := condition.straight
    have region₁ := first.region (isOpen_branch _)
    have open₁ := isOpen_otherwise region₁
    have region₂ := second.region open₁
    have upToFirst := ((added.grows h).trans (grows_branch _)).trans (first.grows (isOpen_branch _))
    have upToSecond := (upToFirst.trans (grows_otherwise region₁.isOpen)).trans (second.grows open₁)
    have origin := isOpen_rejoin (added.isOpen h) region₁ region₂
    exact (upToSecond.trans (grows_rejoin region₂.isOpen)).trans (grows_merge origin)
  | .while condition inner => by
    obtain ⟨_, added⟩ := condition.straight
    have head := added.region (isOpen_loop h)
    have upToBody := (grows_loop h).trans (added.grows (isOpen_loop h))
    have region := inner.region (isOpen_loopBody h head)
    have body := inner.grows (isOpen_loopBody h head)
    exact (upToBody.trans (grows_loopBody head.isOpen)).trans
      (body.trans (grows_endLoop region.isOpen))
  | .repeat inner condition => by
    obtain ⟨_, added⟩ := condition.straight
    have open₁ := (inner.region (isOpen_again h)).isOpen
    have upToBody := (grows_again h).trans (inner.grows (isOpen_again h))
    exact (upToBody.trans (added.grows open₁)).trans (grows_endAgain (added.isOpen open₁))

/-- Statements in a row make a draft grow. -/
theorem LowersAll.grows {d d' : Draft} {ss : List Statement}
    (h : Draft.IsOpen d.blocks d.block) : LowersAll d ss d' → Grows d d'
  | .nil => .refl d
  | .cons head tail => (head.grows h).trans (tail.grows (head.region h).isOpen)

end

end Pseudocode.Lowering
