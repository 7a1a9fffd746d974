import Pseudocode.Proofs.Evolution.Lowering

/-! # The lowering of statements is local

* `RunsIn`: the state in which a branch or a loop begins to lower a body.
* `Reached s`: in the course of a compilation statements may have to be lowered in `s`.
* `Reached.exists_draft`: such a state is that of a draft which takes instructions.
* `Local s s'`: only new blocks, globals and variables and more instructions in the current block
  tell `s'` from `s`.
* `block_local`: statements lead from each state that is reached to one like that, also when they
  fail.
-/

namespace Pseudocode.Lowering

open Assembly

/-! ## States that are reached -/

/-- Run in the state `s`, the construct runs its body in `s'`: the outcome is not the same for two
    bodies that do the same in all other states. -/
def RunsIn (construct : Lower Unit → Lower Unit) (s s' : State) : Prop :=
  ∃ body body' : Lower Unit, (∀ t, t ≠ s' → body t = body' t) ∧ construct body s ≠ construct body' s

/-- Branches and loops, with one of their bodies left out. -/
inductive HasBody : (Lower Unit → Lower Unit) → Prop where
  | thenBranch (pos : Position) (c : Expression) (elseBranch : List Statement) :
      HasBody fun body => ifElse pos c body (block elseBranch)
  | elseBranch (pos : Position) (c : Expression) (thenBranch : List Statement) :
      HasBody fun body => ifElse pos c (block thenBranch) body
  | while (pos : Position) (c : Expression) : HasBody fun body => whileLoop pos c body
  | repeat (pos : Position) (c : Expression) : HasBody fun body => repeatLoop pos body c

/-- A compilation may come to statements in the state. -/
inductive Reached : State → Prop where
  | start {s : State} (started : start .empty = .ok () s) : Reached s
  | done {s s' : State} {ss : List Statement} (before : Reached s)
      (lowered : block ss s = .ok () s') : Reached s'
  | failed {s s' : State} {ss : List Statement} {e : Diagnostic} (before : Reached s)
      (lowered : block ss s = .error e s') : Reached s'
  | body {s s' : State} {construct : Lower Unit → Lower Unit} (before : Reached s)
      (hasBody : HasBody construct) (runs : RunsIn construct s s') : Reached s'

/-- What the construct makes of its body in the draft depends on what this does in one state only,
    which is that of a draft. -/
def Pinned (construct : Lower Unit → Lower Unit) (d : Draft) : Prop :=
  ∃ d' : Draft, d'.Takes ∧ ∀ body body' : Lower Unit,
    body d'.state = body' d'.state → construct body d.state = construct body' d.state

/-- Variables of any name may be declared. -/
def anyName (_ : String) : Prop := True

section

variable {α β : Type} {d d' : Draft}

theorem bind_congr_left {x y : Lower α} {f : α → Lower β} {s : State} (same : x s = y s) :
    (x >>= f) s = (y >>= f) s := by
  show EStateM.bind x f s = EStateM.bind y f s
  simp only [EStateM.bind, same]

theorem inNewScope_congr {x y : Lower α} (same : x d.openScope.state = y d.openScope.state) :
    inNewScope x d.state = inNewScope y d.state := by
  simp only [inNewScope, enterScope_state, same]

variable {construct : Lower Unit → Lower Unit} (pos : Position) (c : Expression)

theorem Pinned.exists_draft {s : State} (pinned : Pinned construct d)
    (runs : RunsIn construct d.state s) : ∃ d' : Draft, d'.Takes ∧ s = d'.state := by
  obtain ⟨body, body', same, differ⟩ := runs
  obtain ⟨d', takes, determined⟩ := pinned
  refine ⟨d', takes, Classical.byContradiction fun other => ?_⟩
  exact differ (determined body body' (same _ (Ne.symm other)))

/-- A construct that fails in front of its body. -/
theorem Pinned.of_error {e : Diagnostic} (takes : d.Takes)
    (failed : ∀ body, construct body d.state = .error e d'.state) : Pinned construct d :=
  ⟨d, takes, fun body body' _ => (failed body).trans (failed body').symm⟩

theorem thenBranch_pinned (takes : d.Takes) (second : Lower Unit) :
    Pinned (fun body => ifElse pos c body second) d := by
  have run : Arrives d.owns anyName Draft.Takes d (condition pos .if c d.state) :=
    condition_evolving pos .if c d takes
  obtain ⟨d₁, _, ⟨⟨v, asked⟩, _⟩ | ⟨⟨e, failed⟩, _⟩⟩ := run
  · refine ⟨d₁.branch, isOpen_branch d₁, fun body body' same => ?_⟩
    have fork : inNewScope body d₁.fork.state = inNewScope body' d₁.fork.state :=
      inNewScope_congr same
    exact (ifElse_state pos c asked body second).trans
      ((bind_congr_left fork).trans (ifElse_state pos c asked body' second).symm)
  · exact .of_error takes fun _ => bind_error failed

/-- The first body decides whether the second one is run at all. -/
theorem elseBranch_pinned (takes : d.Takes) {first : Lower Unit}
    (evolving : Evolving anyName first) : Pinned (fun body => ifElse pos c first body) d := by
  have run : Arrives d.owns anyName Draft.Takes d (condition pos .if c d.state) :=
    condition_evolving pos .if c d takes
  obtain ⟨d₁, _, ⟨⟨v, asked⟩, _⟩ | ⟨⟨e, failed⟩, _⟩⟩ := run
  · have state := ifElse_state pos c asked first
    obtain ⟨d₂, inFirst, ⟨⟨_, done⟩, takes₂⟩ | ⟨⟨e, failed⟩, _⟩⟩ :=
      evolving.inNewScope d₁.fork (isOpen_branch d₁)
    · have atSecond : (d₂.jump (.br (d₁.ahead 2)) (d₁.ahead 1)).Takes :=
        inFirst.takes_jump (isOpen_ofThree d₁ (by decide : 1 < 3)) (Nat.succ_ne_self _) _
      refine ⟨(d₂.jump (.br (d₁.ahead 2)) (d₁.ahead 1)).openScope, atSecond,
        fun body body' same => ?_⟩
      have after (body : Lower Unit) :=
        ((state body).trans (bind_ok done)).trans (elseOnward_state takes₂ body)
      exact (after body).trans ((bind_congr_left (inNewScope_congr same)).trans (after body').symm)
    · exact .of_error takes fun body => (state body).trans (bind_error failed)
  · exact .of_error takes fun _ => bind_error failed

theorem while_pinned (takes : d.Takes) : Pinned (fun body => whileLoop pos c body) d := by
  have state := whileLoop_state pos c takes
  have run : Arrives d.loop.owns anyName Draft.Takes d.loop (condition pos .while c d.loop.state) :=
    condition_evolving pos .while c _ (isOpen_loop takes)
  obtain ⟨d₁, evolves, ⟨⟨v, asked⟩, takes₁⟩ | ⟨⟨e, failed⟩, _⟩⟩ := run
  · have atBody : (d.loopBody d₁ v).Takes :=
      evolves.takes_jump (isOpen_loop_ahead takes (by decide : 1 < 3)) (Nat.succ_ne_self _) _
    refine ⟨d.loopBody d₁ v, atBody, fun body body' same => ?_⟩
    have inScope (body : Lower Unit) := whileScope_state pos c (d := d) asked takes₁ body
    have scopes : inNewScope (whileScope pos c d body) d.loopHead.state =
        inNewScope (whileScope pos c d body') d.loopHead.state :=
      inNewScope_congr ((inScope body).trans ((bind_congr_left same).trans (inScope body').symm))
    exact (state body).trans ((bind_congr_left scopes).trans (state body').symm)
  · have depth : d₁.depth = d.loopHead.depth + 1 := evolves.keeps.depth
    exact .of_error takes fun body => (state body).trans
      (bind_error (inNewScope_error (bind_error failed) depth))

theorem repeat_pinned (takes : d.Takes) : Pinned (fun body => repeatLoop pos body c) d := by
  refine ⟨d.again, isOpen_again takes, fun body body' same => ?_⟩
  have scopes : inNewScope (repeatScope pos c d body) d.againHead.state =
      inNewScope (repeatScope pos c d body') d.againHead.state :=
    inNewScope_congr (bind_congr_left same)
  exact (repeatLoop_state pos c takes body).trans
    ((bind_congr_left scopes).trans (repeatLoop_state pos c takes body').symm)

end

theorem block_evolving_any (ss : List Statement) : Evolving anyName (block ss) :=
  block_evolving ss fun _ _ _ => trivial

theorem HasBody.pinned {construct : Lower Unit → Lower Unit} {d : Draft} (takes : d.Takes) :
    HasBody construct → Pinned construct d
  | .thenBranch pos c _ => thenBranch_pinned pos c takes _
  | .elseBranch pos c first => elseBranch_pinned pos c takes (block_evolving_any first)
  | .while pos c => while_pinned pos c takes
  | .repeat pos c => repeat_pinned pos c takes

/-- A state that is reached is that of a draft, and instructions can be added. -/
theorem Reached.exists_draft {s : State} (reached : Reached s) :
    ∃ d : Draft, d.Takes ∧ s = d.state := by
  induction reached with
  | start started =>
    rw [start_empty] at started
    cases started
    exact ⟨.initial, ready_initial.isOpen, rfl⟩
  | done _ lowered ih | failed _ lowered ih =>
    obtain ⟨d, takes, rfl⟩ := ih
    obtain ⟨d', _, ⟨⟨_, same⟩, takes'⟩ | ⟨⟨_, same⟩, takes'⟩⟩ := block_evolving_any _ d takes <;>
      cases lowered.symm.trans same
    exact ⟨d', takes', rfl⟩
  | body _ hasBody runs ih =>
    obtain ⟨d, takes, rfl⟩ := ih
    exact (hasBody.pinned takes).exists_draft runs

/-! ## What stays -/

/-- The function has new blocks, and instructions and a terminator at the end of the block, which
    was open. -/
structure GrowsAt (b : BlockId) (f f' : Function) : Prop where
  signature : f'.signature = f.signature
  others : ∀ i < f.blocks.length, i ≠ b.index → f'.blocks[i]? = f.blocks[i]?
  current : ∃ block block', f.blocks[b.index]? = some block ∧ block.terminator = none ∧
    f'.blocks[b.index]? = some block' ∧ block.instrs <+: block'.instrs

/-- There are new globals, variables at the root, and blocks of the function, and the current block
    has grown. All else is as it was. -/
structure Local (s s' : State) : Prop where
  scope : s'.scope = s.scope
  depth : s'.scopes.depth = s.scopes.depth
  inner : ∀ id, id ≠ Scopes.root → s'.scopes.scope? id = s.scopes.scope? id
  root : ∃ r r', s.scopes.scope? Scopes.root = some r ∧ s'.scopes.scope? Scopes.root = some r' ∧
    r'.parent = r.parent ∧ r.bindings <+: r'.bindings
  known : s'.scopes.functions = s.scopes.functions
  globals : s.target.globals <+: s'.target.globals
  function : s'.function = s.function
  functions : ∀ id, id ≠ s.function → s'.target.function id = s.target.function id
  blocks : ∃ f f', s.target.function s.function = .ok f ∧ s'.target.function s.function = .ok f' ∧
    GrowsAt s.block f f'

/-- The current block exists and takes instructions. -/
def State.Takes (s : State) : Prop :=
  ∃ f block, s.target.function s.function = .ok f ∧ f.blocks[s.block.index]? = some block ∧
    block.terminator = none

section

variable {d d' : Draft}

theorem Draft.Takes.state (takes : d.Takes) : d.state.Takes := by
  obtain ⟨block, found, isOpen⟩ := takes
  exact ⟨d.main, block, rfl, found, isOpen⟩

theorem function_of_ne (d d' : Draft) {id : FunctionId} (other : id ≠ d.state.function) :
    d'.target.function id = d.target.function id :=
  match id with
  | ⟨0⟩ | ⟨1⟩ | ⟨2⟩ | ⟨_ + 4⟩ => rfl
  | ⟨3⟩ => absurd rfl other

theorem Keeps.local (keeps : Keeps d.owns d d') (takes : d.Takes) : Local d.state d'.state where
  scope := congrArg ScopeId.mk keeps.depth
  depth := by simp [Draft.state, Scopes.depth, length_chain, keeps.depth]
  inner
    | ⟨0⟩, other => absurd rfl other
    | ⟨i + 1⟩, _ => by simp [Draft.state, Draft.chain, Scopes.scope?, keeps.depth]
  root := ⟨_, _, rfl, rfl, rfl, keeps.bindings⟩
  known := rfl
  globals := keeps.globals
  function := rfl
  functions id other := function_of_ne d d' other
  blocks := by
    obtain ⟨block, found, isOpen⟩ := takes
    obtain ⟨block', found', grown, _⟩ := keeps.blocks _ _ found
    refine ⟨d.main, d'.main, rfl, rfl, rfl, fun i old other => ?_, block, block', found, isOpen,
      found', grown⟩
    refine keeps.others i old ?_
    rintro (same | new)
    · exact other same
    · exact absurd old (Nat.not_lt.mpr new)

end

/-- Statements that are lowered in a state that is reached change nothing but what is their own,
    whether all of them are lowered or one of them fails. If all are lowered, building can go on. -/
theorem block_local {s : State} (reached : Reached s) (ss : List Statement) :
    ∃ s', (block ss s = .ok () s' ∧ s'.Takes ∨ ∃ e, block ss s = .error e s') ∧ Local s s' := by
  obtain ⟨d, takes, rfl⟩ := reached.exists_draft
  obtain ⟨d', evolves, ends⟩ := block_evolving_any ss d takes
  refine ⟨d'.state, ?_, evolves.keeps.local takes⟩
  obtain ⟨⟨_, done⟩, takes'⟩ | ⟨failed, _⟩ := ends
  · exact .inl ⟨done, takes'.state⟩
  · exact .inr failed

/-- A loop whose body fails inside a branch, behind a literal and a variable. -/
def unfinished : List Statement :=
  [.repeat .nowhere
    [.ifElse .nowhere (.constant (.bool true))
      [.declare .nowhere "n" .int, .output .nowhere (.constant (.string "a")),
        .input .nowhere ⟨.nowhere, [⟨"m", none⟩]⟩] none]
    (.constant (.bool true))]

open Classical in
/-- The body of a loop that asks its condition last is lowered right behind the head. -/
theorem repeat_runsIn {d : Draft} (takes : d.Takes) (pos : Position) (c : Expression) :
    RunsIn (fun body => repeatLoop pos body c) d.state d.again.state := by
  have depth : d.again.depth = d.againHead.depth + 1 := rfl
  have fails (n : Nat) (body : Lower Unit) (failing : body d.again.state =
      .error (.consistency (.unknownFunction n)) d.again.state) :
      repeatLoop pos body c d.state =
        .error (.consistency (.unknownFunction n)) d.again.closeScope.state :=
    (repeatLoop_state pos c takes body).trans
      (bind_error (inNewScope_error (bind_error failing) depth))
  refine ⟨fun t => .error (.consistency (.unknownFunction 0)) t,
    fun t => .error (.consistency (.unknownFunction (if t = d.again.state then 1 else 0))) t,
    fun t other => by simp [other], fun same => ?_⟩
  have equal := (fails 0 _ rfl).symm.trans (same.trans (fails 1 _ (by simp)))
  simp at equal

theorem reached_again : Reached Draft.initial.again.state := by
  have takes : Draft.initial.Takes := ready_initial.isOpen
  have runs := repeat_runsIn takes .nowhere (.constant (.bool true))
  exact .body (.start start_empty) (.repeat _ _) runs

/-- In the body of a loop. -/
theorem unfinished_local : Reached Draft.initial.again.state ∧
    ∃ e s', block unfinished Draft.initial.again.state = .error e s' ∧
      Local Draft.initial.again.state s' := by
  have ready : Ready Draft.initial.again Typing.Env.initial :=
    ready_initial.elsewhere rfl (isOpen_again ready_initial.isOpen)
  have checked : Typing.checkAll Typing.Env.initial unfinished =
      .error (.resolution .nowhere (.undefinedVariable "m")) := rfl
  have follows := block_follows unfinished ready
  rw [checked] at follows
  obtain ⟨d, failed, _⟩ := follows
  obtain ⟨s', outcome, unchanged⟩ := block_local reached_again unfinished
  rw [failed] at outcome
  obtain ⟨succeeded, _⟩ | ⟨e, failed'⟩ := outcome
  · cases succeeded
  · exact ⟨reached_again, e, s', failed.trans failed', unchanged⟩

end Pseudocode.Lowering
