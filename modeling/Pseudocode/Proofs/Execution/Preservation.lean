import Pseudocode.Proofs.Execution.Statements
import Pseudocode.Proofs.Lowering.Acceptance

/-! # A lowered program behaves as the program

* `sameBehavior`: a run that is simulated for every bound on its loops cannot be told apart
  from the run of the machine, whether it ends or not.
* `lower_preserves`: the main function of a program that is lowered behaves as the program.
-/

namespace Pseudocode.Execution

open Assembly Lowering Typing

/-! ## Runs for any bound -/

/-- Either the machine has ended as the run has, or the run was cut off and the machine, which
    has seen the same, takes at least as many steps as the run was given rounds. -/
def Accounts (env : Environment) (blocks : List Block) (c : Config) (r : Behavior) : Prop :=
  ∀ fuel,
    ((r fuel).1 = .unfinished ∧ ∃ n c', fuel ≤ n ∧ Goes env blocks n c c' ∧
      c'.frame.log.trace = (r fuel).2) ∨
    ((r fuel).1 ≠ .unfinished ∧ (r fuel).1 ≠ .stuck ∧ Halts env blocks c (r fuel).1 (r fuel).2)

section Runs

variable {env : Environment} {blocks : List Block} {c : Config} {r : Behavior}

/-- A run ends in one way only. -/
theorem run_eq_of_ended {m n : Nat} (ended : (run env blocks m c).1 ≠ .unfinished)
    (ended' : (run env blocks n c).1 ≠ .unfinished) :
    run env blocks m c = run env blocks n c := by
  rw [← run_eq_of_le ended (Nat.le_max_left m n), ← run_eq_of_le ended' (Nat.le_max_right m n)]

theorem shows_iff (accounts : Accounts env blocks c r) (trace : List Observation) :
    r.Shows trace ↔ Behavior.Shows (run env blocks · c) trace := by
  constructor
  · rintro ⟨fuel, seen⟩
    rcases accounts fuel with ⟨_, n, c', _, goes, same⟩ | ⟨_, _, n, ends⟩
    · refine ⟨n, ?_⟩
      show trace <+: (run env blocks n c).2
      rwa [goes.run_self, same]
    · refine ⟨n, ?_⟩
      show trace <+: (run env blocks n c).2
      rwa [ends]
  · rintro ⟨n, seen⟩
    refine ⟨n, seen.trans ?_⟩
    rcases accounts n with ⟨_, m, c', enough, goes, same⟩ | ⟨going, _, m, ends⟩
    · have longer := run_prefix_of_le env blocks enough c
      rwa [goes.run_self, same] at longer
    · have ended : (run env blocks m c).1 ≠ .unfinished := by rwa [ends]
      have whole := run_eq_of_le ended (Nat.le_max_right n m)
      have longer := run_prefix_of_le env blocks (Nat.le_max_left n m) c
      rwa [whole, ends] at longer

theorem ends_iff (accounts : Accounts env blocks c r) (ending : Ending)
    (trace : List Observation) :
    r.Ends ending trace ↔ Behavior.Ends (run env blocks · c) ending trace := by
  constructor
  · rintro ⟨ended, fuel, result⟩
    have here := accounts fuel
    rw [result] at here
    rcases here with ⟨cut, _⟩ | ⟨_, _, halts⟩
    · exact absurd cut ended
    · exact ⟨ended, halts⟩
  · rintro ⟨ended, n, result⟩
    have here : (run env blocks n c).1 ≠ .unfinished := by simpa only [result] using ended
    refine ⟨ended, n, ?_⟩
    rcases accounts n with ⟨_, m, c', enough, goes, _⟩ | ⟨going, _, m, ends⟩
    · exact absurd (goes.unfinished enough) here
    · have there : (run env blocks m c).1 ≠ .unfinished := by rwa [ends]
      exact (ends.symm.trans (run_eq_of_ended there here)).trans result

/-- A run that the machine accounts for cannot be told apart from that of the machine. -/
theorem sameBehavior (accounts : Accounts env blocks c r) :
    SameBehavior r (run env blocks · c) where
  shows := shows_iff accounts
  ends := ends_iff accounts

theorem not_stuck (accounts : Accounts env blocks c r) (trace : List Observation) :
    ¬ Behavior.Ends (run env blocks · c) .stuck trace := by
  intro stuck
  obtain ⟨_, fuel, result⟩ := (ends_iff accounts .stuck trace).mpr stuck
  have here := accounts fuel
  rw [result] at here
  rcases here with ⟨cut, _⟩ | ⟨_, going, _⟩
  · cases cut
  · exact going rfl

end Runs

/-! ## Programs -/

section Endings

variable {env : Environment} {p : Program} {fuel : Nat} {st : State} (ρ : String → String)

theorem rename_source_of_ok {u : Unit}
    (ran : execAll env fuel p ⟨fun name => (initialVariables p).lookup name, .empty⟩ = .ok u st) :
    (source env p).rename ρ fuel = (.finished 0, (st.log.rename ρ).trace) := by
  simp only [Behavior.rename, source]
  rw [ran]
  rfl

theorem rename_source_of_error {e : Ending}
    (ran : execAll env fuel p ⟨fun name => (initialVariables p).lookup name, .empty⟩ =
      .error e st) : (source env p).rename ρ fuel = (e, (st.log.rename ρ).trace) := by
  simp only [Behavior.rename, source]
  rw [ran]
  rfl

end Endings

/-- The machine accounts for every run of a program that is lowered. -/
theorem accounts_of_lowers {p : Program} {d : Draft} {rows : List Row}
    (inventory : Inventory d.globals d.bindings rows)
    (declares : rows.map (fun r => (r.1, initial r.2.init)) = declaredAll p)
    (lowered : LowersAll .initial p d) (env : Environment) :
    Accounts env d.finished.blocks ⟨⟨0⟩, 0, ⟨fun _ => none, initialMemory d.globals, .empty⟩⟩
      ((source env p).rename (nameOf rows)) := by
  intro fuel
  let L : Layout := ⟨d.globals, d.bindings, rows, inventory⟩
  let start : State := ⟨fun name => (initialVariables p).lookup name, .empty⟩
  let fr : Frame := ⟨fun _ => none, initialMemory d.globals, .empty⟩
  have region := lowered.region_initial
  have later : Develops (endAt d.blocks d.block.index (.ret (.i32 0))) d.finished.blocks := .refl _
  have within : Within L d.finished.blocks d :=
    ⟨⟨List.prefix_rfl, List.prefix_rfl⟩, develops_endAt region.isOpen⟩
  have matching : Matches L start fr := ⟨Mirrors.initial declares, rfl⟩
  have simulated := simulatesAll env fuel ready_initial.isOpen within lowered
    fr start matching
  cases ran : execAll env fuel p start with
  | ok _ st =>
    rw [ran] at simulated
    obtain ⟨n, c', goes, matching', there, _⟩ := simulated
    have returns : step env d.finished.blocks c' = .error (.finished 0) :=
      (congrArg _ there).trans (step_place rfl region.isOpen later c'.frame)
    rw [rename_source_of_ok (nameOf rows) ran]
    refine .inr ⟨Ending.noConfusion, Ending.noConfusion, goes.halts ⟨1, ?_⟩⟩
    rw [run, returns, matching'.log]
    rfl
  | error e st =>
    rw [ran] at simulated
    rw [rename_source_of_error (nameOf rows) ran]
    rcases simulated with ⟨rfl, n, c', enough, goes, same⟩ | ⟨rfl, halts⟩
    · exact .inl ⟨rfl, n, c', enough, goes, congrArg Log.trace same⟩
    · exact .inr ⟨Ending.noConfusion, Ending.noConfusion, halts⟩

/-- The main function of a program that is lowered behaves as the program does, up to the names of
    its variables. -/
theorem sameBehavior_of_lower {p : Program} {m : Assembly.Module} (h : (lower p).result = .ok m) :
    ∃ main, m.functionNamed? "main" = some main ∧ ∃ ρ : String → String,
      ∀ env, SameBehavior ((source env p).rename ρ) (machine env m main) := by
  obtain ⟨d, lowered, rfl⟩ := exists_draft h
  obtain ⟨rows, inventory, declares⟩ := Inventory.lowersAll lowered .initial
  rw [List.nil_append] at inventory
  exact ⟨d.finished.main, rfl, nameOf rows, fun env =>
    sameBehavior (accounts_of_lowers inventory declares lowered env)⟩

/-- The main function of a program that is lowered behaves as the program does, whatever
    calls answer and however doubles are calculated with: the same calls and the same changes
    of variables are seen in the same order, for ever or up to the same end. Its variables are
    the globals that are no constants, each with a name of its own, and are zero at the start.
    It is never stuck. -/
theorem lower_preserves (p : Program) (m : Assembly.Module) (h : (lower p).result = .ok m) :
    ∃ main, m.functionNamed? "main" = some main ∧ ∃ ρ : String → String,
      ((declaredAll p).map fun v => ρ v.1).Nodup ∧
      (m.globals.filter (!·.constant)).map (fun g => (g.name, initial g.init)) =
        (declaredAll p).map (fun v => (ρ v.1, v.2)) ∧
      ∀ env, SameBehavior ((source env p).rename ρ) (machine env m main) ∧
        ∀ trace, ¬ (machine env m main).Ends .stuck trace := by
  obtain ⟨d, lowered, rfl⟩ := exists_draft h
  obtain ⟨rows, inventory, declares⟩ := Inventory.lowersAll lowered .initial
  rw [List.nil_append] at inventory
  have named : (d.globals.filter (!·.constant)).map (fun g => (g.name, initial g.init)) =
      (declaredAll p).map fun v => (nameOf rows v.1, v.2) := by
    rw [inventory.map_changing, ← declares, List.map_map]
    rfl
  refine ⟨d.finished.main, rfl, nameOf rows, ?_, named, fun env => ?_⟩
  · have names := congrArg (List.map Prod.fst) named
    rw [List.map_map, List.map_map] at names
    exact names ▸ (List.filter_sublist.map Global.name).nodup inventory.names
  · have accounts := accounts_of_lowers inventory declares lowered env
    exact ⟨sameBehavior accounts, not_stuck accounts⟩

/-- The variable `main`, the global of which has to get another name. -/
def counter : Expression := .key ⟨.nowhere, [⟨"main", none⟩]⟩

/-- Reads a number and counts it down in a loop inside another, telling odd from even. -/
def countdown : Program :=
  [.declare .nowhere "main" .int,
    .input .nowhere ⟨.nowhere, [⟨"main", none⟩]⟩,
    .while .nowhere (.binary (.compare .gt) .nowhere counter (.constant (.integer 0)))
      [.ifElse .nowhere (.binary (.compare .eq) .nowhere counter (.constant (.bool true)))
          [.output .nowhere (.constant (.string "last"))]
          (some [.printInt .nowhere (.negate .nowhere counter)]),
        .repeat .nowhere
          [.assign .nowhere ⟨.nowhere, [⟨"main", none⟩]⟩
            (.binary (.arithmetic .sub) .nowhere counter (.constant (.integer 1)))]
          (.constant (.bool true))]]

theorem countdown_preserved : ∃ m, (lower countdown).result = .ok m ∧
    ∃ main, m.functionNamed? "main" = some main ∧ ∃ ρ : String → String,
      (m.globals.filter (!·.constant)).map (fun g => (g.name, initial g.init)) =
        [(ρ "main", .int 32 0)] ∧
      ∀ env, SameBehavior ((source env countdown).rename ρ) (machine env m main) ∧
        ∀ trace, ¬ (machine env m main).Ends .stuck trace := by
  have result := lower_result countdown
  rw [show checkAll Env.initial countdown = .ok
    (Env.initial ++ [("main", ⟨.int, some .nowhere⟩)]) from rfl] at result
  obtain ⟨d, _, succeeded⟩ := result
  obtain ⟨main, found, ρ, _, named, same⟩ := lower_preserves countdown _ succeeded
  exact ⟨_, succeeded, main, found, ρ, named, same⟩

end Pseudocode.Execution
