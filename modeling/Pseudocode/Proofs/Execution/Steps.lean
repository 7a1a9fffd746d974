import Mathlib.Data.Nat.Init
import Pseudocode.Proofs.Execution.Machine
import Pseudocode.Proofs.Lowering.Growth

/-! # Steps of a machine

* `executeAll` runs instructions in a row, as they stand in one block.
* `Goes n c c'`: so many steps lead from the one place to the other.
* `Halts c ending trace`: the run from there ends so.
* `place d fr`: a draft says where a run is, behind the instructions that its current block
  has so far. From one draft to the next the machine runs the instructions that were added
  (`goes_of_straight`), and at the end of a block its terminator (`step_place`).
-/

namespace Pseudocode.Execution

open Assembly Lowering Typing

/-! ## More time -/

section Time

variable {env : Environment} {blocks : List Block}

theorem trace_define {fr fr' : Frame} {dst : Value} {w : Word}
    (h : fr.define dst w = .ok fr') : fr.log.trace <+: fr'.log.trace := by
  cases dst <;> cases h
  exact List.prefix_rfl

/-- An instruction adds to what was seen. -/
theorem trace_execute {fr fr' : Frame} {i : Instr} (h : execute env fr i = .ok fr') :
    fr.log.trace <+: fr'.log.trace := by
  cases i with
  | load dst src =>
    obtain ⟨w, _, defined⟩ := bind_eq_ok.mp h
    exact trace_define defined
  | store v dst =>
    simp only [execute, Frame.stored] at h
    split at h
    · split at h
      · split at h
        · cases h
          exact List.prefix_append _ _
        · cases h
      · cases h
    · cases h
  | binary dst op lhs rhs | icmp dst c lhs rhs | fcmp dst c lhs rhs =>
    obtain ⟨l, _, h⟩ := bind_eq_ok.mp h
    obtain ⟨r, _, h⟩ := bind_eq_ok.mp h
    obtain ⟨w, _, defined⟩ := bind_eq_ok.mp h
    exact trace_define defined
  | cast dst op v =>
    obtain ⟨w, _, h⟩ := bind_eq_ok.mp h
    obtain ⟨w', _, defined⟩ := bind_eq_ok.mp h
    exact trace_define defined
  | call dst callee args =>
    obtain ⟨ds, _, h⟩ := bind_eq_ok.mp h
    cases dst with
    | none =>
      cases h
      exact List.prefix_append _ _
    | some dst => exact (List.prefix_append _ _).trans (trace_define h)

theorem leave_log {fr : Frame} {t : Terminator} {c : Config} (h : leave fr t = .ok c) :
    c.frame = fr := by
  cases t with
  | br target =>
    cases h
    rfl
  | condBr cond thenBlock elseBlock =>
    simp only [leave] at h
    split at h
    · cases h
      rfl
    · cases h
  | ret v =>
    simp only [leave] at h
    split at h <;> cases h

theorem trace_step {c c' : Config} (h : step env blocks c = .ok c') :
    c.frame.log.trace <+: c'.frame.log.trace := by
  obtain ⟨block, _, h⟩ := bind_eq_ok.mp h
  split at h
  · obtain ⟨fr, executed, h⟩ := bind_eq_ok.mp h
    cases h
    exact trace_execute executed
  · obtain ⟨t, _, left⟩ := bind_eq_ok.mp h
    exact leave_log left ▸ List.prefix_rfl

theorem trace_run (n : Nat) (c : Config) :
    c.frame.log.trace <+: (run env blocks n c).2 := by
  induction n generalizing c with
  | zero => exact List.prefix_rfl
  | succ n ih =>
    rw [run]
    split
    · exact (trace_step ‹_›).trans (ih _)
    · exact List.prefix_rfl

/-- In more time at least as much is seen. -/
theorem run_prefix_of_le (env : Environment) (blocks : List Block) {m n : Nat} (less : m ≤ n)
    (c : Config) :
    (run env blocks m c).2 <+: (run env blocks n c).2 := by
  induction m generalizing n c with
  | zero => exact trace_run n c
  | succ m ih =>
    obtain ⟨n, rfl⟩ := Nat.exists_eq_add_of_le' less
    rw [run, ← Nat.add_assoc, run]
    split
    · exact ih (by omega) _
    · exact List.prefix_rfl

/-- A run that has ended stays as it is. -/
theorem run_eq_of_le {m n : Nat} {c : Config} (ended : (run env blocks m c).1 ≠ .unfinished)
    (less : m ≤ n) : run env blocks n c = run env blocks m c := by
  induction m generalizing n c with
  | zero => exact absurd rfl ended
  | succ m ih =>
    obtain ⟨n, rfl⟩ := Nat.exists_eq_add_of_le' less
    rw [run] at ended
    rw [run, ← Nat.add_assoc, run]
    split
    · rename_i c' stepped
      rw [stepped] at ended
      exact ih ended (by omega)
    · rfl

end Time

/-! ## Several steps -/

/-- So many steps lead from the one place to the other. -/
inductive Goes (env : Environment) (blocks : List Block) : Nat → Config → Config → Prop where
  | refl {c : Config} : Goes env blocks 0 c c
  | head {n : Nat} {c c₁ c₂ : Config} (first : step env blocks c = .ok c₁)
      (rest : Goes env blocks n c₁ c₂) : Goes env blocks (n + 1) c c₂

/-- The run from the place ends, with all these observations up to then. -/
def Halts (env : Environment) (blocks : List Block) (c : Config) (ending : Ending)
    (trace : List Observation) : Prop :=
  ∃ n, run env blocks n c = (ending, trace)

section Several

variable {env : Environment} {blocks : List Block}

theorem Goes.trans {m n : Nat} {c c₁ c₂ : Config} (first : Goes env blocks m c c₁)
    (second : Goes env blocks n c₁ c₂) : Goes env blocks (m + n) c c₂ := by
  induction first with
  | refl => rwa [Nat.zero_add]
  | head stepped _ ih =>
    rw [Nat.add_right_comm]
    exact .head stepped (ih second)

theorem Goes.run_eq {n : Nat} {c c' : Config} (goes : Goes env blocks n c c') (k : Nat) :
    run env blocks (n + k) c = run env blocks k c' := by
  induction goes with
  | refl => rw [Nat.zero_add]
  | head stepped _ ih =>
    rw [Nat.add_right_comm, run, stepped]
    exact ih

theorem Goes.halts {n : Nat} {c c' : Config} {ending : Ending} {trace : List Observation}
    (goes : Goes env blocks n c c') :
    Halts env blocks c' ending trace → Halts env blocks c ending trace := by
  rintro ⟨k, ends⟩
  exact ⟨n + k, (goes.run_eq k).trans ends⟩

/-- In just so many steps the run has come to the place, and goes on there. -/
theorem Goes.run_self {n : Nat} {c c' : Config} (goes : Goes env blocks n c c') :
    run env blocks n c = (.unfinished, c'.frame.log.trace) :=
  goes.run_eq 0

/-- While a run goes on it has not ended. -/
theorem Goes.unfinished {m n : Nat} {c c' : Config} (goes : Goes env blocks n c c')
    (less : m ≤ n) : (run env blocks m c).1 = .unfinished := by
  refine Classical.byContradiction fun ended => ?_
  have same := run_eq_of_le ended less
  rw [goes.run_self] at same
  exact ended (same ▸ rfl)

end Several

/-! ## Instructions in a row -/

/-- Runs instructions one after the other. If one fails, the frame in front of it is what
    remains. -/
def executeAll (env : Environment) : Frame → List Instr → Except (Ending × Frame) Frame
  | fr, [] => .ok fr
  | fr, i :: code =>
    match execute env fr i with
    | .ok fr' => executeAll env fr' code
    | .error e => .error (e, fr)

section Row

variable {env : Environment} {blocks : List Block}

theorem executeAll_append (fr : Frame) (code code' : List Instr) :
    executeAll env fr (code ++ code') =
      executeAll env fr code >>= fun fr' => executeAll env fr' code' := by
  induction code generalizing fr with
  | nil => rfl
  | cons i code ih =>
    simp only [List.cons_append, executeAll]
    cases execute env fr i with
    | ok fr' => exact ih fr'
    | error e => rfl

theorem executeAll_single {fr fr' : Frame} {i : Instr} (h : execute env fr i = .ok fr') :
    executeAll env fr [i] = .ok fr' := by
  simp only [executeAll, h]

theorem step_instr (env : Environment) {b : BlockId} {block : Block} {before code : List Instr} {i : Instr}
    (found : blocks[b.index]? = some block) (there : before ++ i :: code <+: block.instrs)
    (fr : Frame) :
    step env blocks ⟨b, before.length, fr⟩ =
      (execute env fr i).map fun fr' => ⟨b, (before ++ [i]).length, fr'⟩ := by
  have next : block.instrs[before.length]? = some i := by
    obtain ⟨rest, same⟩ := there
    rw [← same, List.append_assoc, List.getElem?_append_right (Nat.le_refl _), Nat.sub_self]
    rfl
  simp only [step, found, orStuck, next, bind, Except.bind, pure, Except.pure,
    List.length_append, List.length_singleton]
  cases execute env fr i <;> rfl

/-- The instructions of a block from some point on are run. -/
theorem goes_of_executeAll {b : BlockId} {block : Block} {before code : List Instr}
    {fr fr' : Frame} (found : blocks[b.index]? = some block)
    (there : before ++ code <+: block.instrs) (executed : executeAll env fr code = .ok fr') :
    Goes env blocks code.length ⟨b, before.length, fr⟩ ⟨b, (before ++ code).length, fr'⟩ := by
  induction code generalizing before fr with
  | nil =>
    cases executed
    rw [List.append_nil]
    exact .refl
  | cons i code ih =>
    rw [executeAll] at executed
    cases first : execute env fr i with
    | error e => simp [first] at executed
    | ok fr₁ =>
      rw [first] at executed
      have stepped := step_instr env found there fr
      rw [first] at stepped
      rw [List.append_cons] at there ⊢
      exact .head stepped (ih there executed)

/-- One of the instructions of a block from some point on fails. -/
theorem halts_of_executeAll {b : BlockId} {block : Block} {before code : List Instr}
    {fr fr' : Frame} {ending : Ending} (found : blocks[b.index]? = some block)
    (there : before ++ code <+: block.instrs)
    (executed : executeAll env fr code = .error (ending, fr')) :
    Halts env blocks ⟨b, before.length, fr⟩ ending fr'.log.trace := by
  induction code generalizing before fr with
  | nil => cases executed
  | cons i code ih =>
    rw [executeAll] at executed
    have stepped := step_instr env found there fr
    cases first : execute env fr i with
    | error e =>
      rw [first] at executed stepped
      cases executed
      exact ⟨1, by rw [run, stepped]; rfl⟩
    | ok fr₁ =>
      rw [first] at executed stepped
      rw [List.append_cons] at there
      exact (Goes.head stepped .refl).halts (ih there executed)

end Row

/-! ## Places in a draft -/

/-- Behind the instructions that the current block has so far. -/
def place (d : Draft) (fr : Frame) : Config :=
  ⟨d.block, ((d.blocks[d.block.index]?).map (·.instrs.length)).getD 0, fr⟩

section Place

variable {env : Environment} {blocks : List Block} {d d' : Draft} {code : List Instr}
  {fr fr' : Frame}

theorem place_of_found {block : Block} (found : d.blocks[d.block.index]? = some block) :
    place d fr = ⟨d.block, block.instrs.length, fr⟩ := by
  rw [place, found]
  rfl

/-- The instructions that were added are among those that are run in the end. -/
theorem exists_block (added : Straight d code d') (h : Draft.IsOpen d.blocks d.block)
    (later : Develops d'.blocks blocks) : ∃ before block,
    place d = (⟨d.block, before.length, ·⟩) ∧ place d' = (⟨d.block, (before ++ code).length, ·⟩) ∧
      blocks[d.block.index]? = some block ∧ before ++ code <+: block.instrs := by
  obtain ⟨start, found, _⟩ := h
  have found' : d'.blocks[d'.block.index]? = some (Draft.extend code start) := by
    rw [added.block, added.blocks, List.getElem?_modify_eq, found]
    rfl
  obtain ⟨block, there, grown, _⟩ := later _ _ found'
  refine ⟨start.instrs, block, ?_, ?_, added.block ▸ there, grown⟩
  · funext fr
    exact place_of_found found
  · funext fr
    rw [place_of_found found', added.block]
    rfl

theorem goes_of_straight (added : Straight d code d') (h : Draft.IsOpen d.blocks d.block)
    (later : Develops d'.blocks blocks) (executed : executeAll env fr code = .ok fr') :
    Goes env blocks code.length (place d fr) (place d' fr') := by
  obtain ⟨before, block, start, stop, found, there⟩ := exists_block added h later
  rw [start, stop]
  exact goes_of_executeAll found there executed

theorem halts_of_straight {ending : Ending} (added : Straight d code d')
    (h : Draft.IsOpen d.blocks d.block) (later : Develops d'.blocks blocks)
    (executed : executeAll env fr code = .error (ending, fr')) :
    Halts env blocks (place d fr) ending fr'.log.trace := by
  obtain ⟨before, block, start, _, found, there⟩ := exists_block added h later
  rw [start]
  exact halts_of_executeAll found there executed

/-- At the end of a block its terminator is run. The block may be ended after other blocks
    have changed. -/
theorem step_place {between : List Block} {t : Terminator}
    (same : between[d.block.index]? = d.blocks[d.block.index]?)
    (h : Draft.IsOpen d.blocks d.block) (later : Develops (endAt between d.block.index t) blocks)
    (fr : Frame) : step env blocks (place d fr) = leave fr t := by
  obtain ⟨block, found, _⟩ := h
  have ended : (endAt between d.block.index t)[d.block.index]? =
      some { block with terminator := some t } := by
    rw [endAt, List.getElem?_modify_eq, same, found]
    rfl
  obtain ⟨last, there, _, kept⟩ := later _ _ ended
  obtain rfl := kept rfl
  rw [place_of_found found]
  have behind : block.instrs[block.instrs.length]? = none :=
    List.getElem?_eq_none (Nat.le_refl _)
  simp only [step, there, orStuck, behind, bind, Except.bind]

end Place

end Pseudocode.Execution
