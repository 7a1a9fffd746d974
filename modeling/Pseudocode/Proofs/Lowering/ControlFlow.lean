import Pseudocode.Proofs.Lowering.Acceptance

/-! # The control flow of a lowered program

* `WellFormed`: what the blocks of a main function have to be like.
* `lower_wellFormed`: they are, for every program that is lowered, and no program makes
  the lowering break its own rules for building a module.
-/

namespace Pseudocode.Lowering

open Assembly Typing

/-- The one block may run next after the other. -/
def Precedes (f : Function) (b b' : BlockId) : Prop := b' ∈ f.successors b

/-- Every block is ended and goes on in blocks that exist. None goes on in the first one,
    from which all are reached. One block alone returns, and it does so with zero and is
    reached from all. -/
structure WellFormed (f : Function) : Prop where
  ended : ∀ block ∈ f.blocks, block.terminator.isSome
  exist : ∀ b b', Precedes f b b' → b'.index < f.blocks.length
  entered : ∀ b, ¬ Precedes f b ⟨0⟩
  reached : ∀ i < f.blocks.length, Relation.ReflTransGen (Precedes f) ⟨0⟩ ⟨i⟩
  returns : ∃ exit : BlockId,
    (∃ block, f.blocks[exit.index]? = some block ∧ block.terminator = some (.ret (.i32 0))) ∧
    (∀ i block v, f.blocks[i]? = some block → block.terminator = some (.ret v) →
      i = exit.index) ∧
    ∀ i < f.blocks.length, Relation.ReflTransGen (Precedes f) ⟨i⟩ exit

theorem precedes_iff {signature : Signature} {blocks : List Block} {b b' : BlockId} :
    Precedes ⟨signature, blocks⟩ b b' ↔ Leads blocks b.index b'.index := by
  unfold Precedes Leads Function.successors
  cases found : blocks[b.index]? with
  | none => simp
  | some block =>
    obtain ⟨instrs, terminator⟩ := block
    cases terminator <;> simp

theorem reflTransGen_of_reaches {signature : Signature} {blocks : List Block} {i j : Nat}
    (h : Reaches blocks i j) :
    Relation.ReflTransGen (Precedes ⟨signature, blocks⟩) ⟨i⟩ ⟨j⟩ :=
  h.lift BlockId.mk fun _ _ leads => precedes_iff.mpr leads

/-- A region from the first block on, once its exit returns. All edges lead behind the first
    block, since those of the exit are none. -/
theorem wellFormed_of_region {d : Draft} (region : Region [.empty] 0 d.blocks d.block.index) :
    WellFormed d.finished.main := by
  have count : d.finished.blocks.length = d.blocks.length := length_endAt
  have later : Develops d.blocks d.finished.blocks := develops_endAt region.isOpen
  have between : ∀ i < d.finished.main.blocks.length,
      Between d.blocks 1 0 d.block.index i := by
    intro i below
    refine region.between i ?_
    simp only [Draft.main, count] at below
    simp [Inside]
    omega
  have target : ∀ b b', Precedes d.finished.main b b' →
      1 ≤ b'.index ∧ b'.index < d.finished.main.blocks.length := by
    intro b b' precedes
    obtain ⟨block, t, found, ended, next⟩ := precedes_iff.mp precedes
    simp only [Draft.main, count]
    rcases block_finished region found with ⟨_, returns⟩ | ⟨_, t', ended', _, within⟩
    · rw [returns] at ended
      cases ended
      cases next
    · rw [ended'] at ended
      cases ended
      exact within b' next
  refine ⟨?_, fun b b' precedes => (target b b' precedes).2, ?_, ?_, d.block, ?_, ?_, ?_⟩
  · exact ended_finished region
  · intro b precedes
    exact absurd (target b ⟨0⟩ precedes).1 (by decide)
  · intro i below
    exact reflTransGen_of_reaches (later.reaches (between i below).reached)
  · obtain ⟨block, found, _⟩ := later d.block.index _
      (List.getElem?_eq_getElem (lt_of_isOpen region.isOpen))
    rcases block_finished region found with ⟨_, returns⟩ | ⟨other, _⟩
    · exact ⟨block, found, returns⟩
    · exact absurd rfl other
  · intro i block v found returns
    rcases block_finished region found with ⟨same, _⟩ | ⟨_, t, ended, goesOn, _⟩
    · exact same
    · rw [returns] at ended
      cases ended
      exact absurd rfl goesOn
  · intro i below
    exact reflTransGen_of_reaches (later.reaches (between i below).leaves)

/-- Every program is lowered or breaks a static rule; the lowering never breaks its own. The
    main function of a program that is lowered is well formed, and it has a block to begin
    with, three for each IF, three for each WHILE and two for each REPEAT. -/
theorem lower_wellFormed (p : Program) :
    ((∃ m, (lower p).result = .ok m) ∨
      (∃ pos fault, (lower p).result = .error (.resolution pos fault)) ∨
      ∃ pos fault, (lower p).result = .error (.type pos fault)) ∧
    ∀ m, (lower p).result = .ok m → ∃ main, m.functionNamed? "main" = some main ∧
      WellFormed main ∧
      main.blocks.length = 1 + 3 * (Statement.constructsAll p).count .if +
        3 * (Statement.constructsAll p).count .while +
        2 * (Statement.constructsAll p).count .repeat := by
  constructor
  · cases result : (lower p).result with
    | ok m => exact .inl ⟨m, rfl⟩
    | error x =>
      have checked := lower_eq_error.mp result
      rcases Breaches.checkAll Env.initial p x checked with ⟨pos, fault, rfl⟩ | ⟨pos, fault, rfl⟩
      · exact .inr (.inl ⟨pos, fault, rfl⟩)
      · exact .inr (.inr ⟨pos, fault, rfl⟩)
  · intro m succeeded
    obtain ⟨d, lowered, rfl⟩ := exists_draft succeeded
    refine ⟨d.finished.main, rfl, wellFormed_of_region lowered.region_initial, ?_⟩
    refine (length_endAt.trans lowered.length_eq).trans ?_
    simp only [blockCount]
    rw [← Nat.add_assoc, ← Nat.add_assoc]
    rfl

/-- An endless loop around a branch, with a loop that runs once in it. -/
def nested : Program :=
  [.while .nowhere (.constant (.bool true))
    [.ifElse .nowhere (.constant (.bool false))
      [.repeat .nowhere [.output .nowhere (.constant (.string "a"))] (.constant (.bool true))]
      none]]

theorem nested_wellFormed : ∃ m, (lower nested).result = .ok m ∧ ∃ main,
    m.functionNamed? "main" = some main ∧ WellFormed main ∧ main.blocks.length = 9 := by
  have result := lower_result nested
  rw [show checkAll Env.initial nested = .ok Env.initial from rfl] at result
  obtain ⟨d, _, succeeded⟩ := result
  obtain ⟨main, found, wellFormed, count⟩ := (lower_wellFormed nested).2 _ succeeded
  exact ⟨_, succeeded, main, found, wellFormed, count⟩

end Pseudocode.Lowering
