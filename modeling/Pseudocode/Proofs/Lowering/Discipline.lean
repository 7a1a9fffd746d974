import Pseudocode.Proofs.Execution.Inventory
import Pseudocode.Proofs.Lowering.Instructions

/-! # The instructions of a lowered program

* `lower_wellTyped`: every instruction of the main function is well typed, uses globals and
  functions that are there, and writes to no constant.
* `lower_singleAssignment`: every temporary has one instruction that defines it, and is used
  behind it in the same block only.
-/

namespace Pseudocode.Lowering

open Assembly Typing Execution

/-- A draft in which variables have globals with names of their own. -/
theorem wellTyped_of_lawful {d : Draft} (lawful : d.Lawful)
    (names : (d.globals.map Global.name).Nodup) : Assembly.WellTyped d.target d.main where
  instrs block member i among := by
    obtain ⟨_, fits⟩ := (lawful.code block member).fits among
    exact fits.typed
  ends block member t ended := (lawful.ends block member t ended).1
  globals name t used := by
    obtain ⟨block, member, used⟩ := List.mem_flatMap.mp used
    rcases List.mem_append.mp used with used | used
    · obtain ⟨i, among, operand⟩ := List.mem_flatMap.mp used
      obtain ⟨_, fits⟩ := (lawful.code block member).fits among
      exact fits.operands _ operand
    · cases ended : block.terminator with
      | none => simp [ended] at used
      | some e =>
        rw [ended] at used
        exact (lawful.ends block member e ended).2 _ used
  callees block member dst callee args among := by
    obtain ⟨_, fits⟩ := (lawful.code block member).fits among
    have known := fits.callee dst callee args rfl
    simp only [builtins, List.mem_cons, List.not_mem_nil, or_false] at known
    rcases known with rfl | rfl | rfl <;> rfl
  stores block member value dst among := by
    obtain ⟨_, fits⟩ := (lawful.code block member).fits among
    obtain ⟨g, exist, changing, rfl⟩ := fits.target value dst rfl
    refine ⟨g.name, _, rfl, fun g' exist' same => ?_⟩
    rw [List.inj_on_of_nodup_map names exist' exist same]
    exact changing

theorem singleAssignment_of_lawful {d : Draft} (lawful : d.Lawful) : SingleAssignment d.main where
  results block member i among := by
    obtain ⟨_, fits⟩ := (lawful.code block member).fits among
    exact fits.result
  distinct := by
    refine lawful.distinct.append ?_ ?_
    · exact List.Nodup.map (fun _ _ => label_injective) List.nodup_range
    · intro name temp label
      obtain ⟨i, _, rfl⟩ := lawful.numbered name temp
      obtain ⟨j, _, same⟩ := List.mem_map.mp label
      exact tempName_ne_label i j same.symm
  operands block member before i after same name t used :=
    (lawful.code block member before i after same).operands _ used
  ends block member e ended name t used := (lawful.ends block member e ended).2 _ used

/-- The main function of a program that is lowered is well typed in its module, and the formats
    are constants of the module, so that none of its instructions changes them. -/
theorem lower_wellTyped (p : Program) (m : Assembly.Module) (h : (lower p).result = .ok m) :
    (∃ main, m.functionNamed? "main" = some main ∧ Assembly.WellTyped m main) ∧
      ∀ name text, (name, text) ∈ formats → ⟨name, .ofText text, true⟩ ∈ m.globals := by
  obtain ⟨d, lowered, rfl⟩ := exists_draft h
  obtain ⟨_, inventory, _⟩ := Inventory.lowersAll lowered .initial
  constructor
  · exact ⟨d.finished.main, rfl, wellTyped_of_lawful lowered.lawful_finished inventory.names⟩
  · intro name text member
    have kept := (lowered.grows ready_initial.isOpen).globals.subset
    exact kept (List.mem_map.mpr ⟨(name, text), member, rfl⟩)

theorem exists_module {p : Program} (admitted : ∃ Γ, checkAll Env.initial p = .ok Γ) :
    ∃ m, (lower p).result = .ok m := by
  obtain ⟨_, checked⟩ := admitted
  have result := lower_result p
  rw [checked] at result
  obtain ⟨_, _, succeeded⟩ := result
  exact ⟨_, succeeded⟩

def valueOf (name : String) : Expression := .key ⟨.nowhere, [⟨name, none⟩]⟩

/-- Values of all types meet: a truth value is compared with a whole number, added to one, and
    passed together with texts and a real number. -/
def mixed : Program :=
  [.declare .nowhere "n" .int, .declare .nowhere "b" .bool, .declare .nowhere "x" .real,
    .while .nowhere (.binary (.compare .lt) .nowhere (valueOf "b") (valueOf "n"))
      [.assign .nowhere ⟨.nowhere, [⟨"n", none⟩]⟩
        (.binary (.arithmetic .add) .nowhere (valueOf "n") (valueOf "b"))],
    .call .nowhere .nowhere "printf" [.constant (.string "%d %f %s"), .not .nowhere (valueOf "b"),
      .negate .nowhere (valueOf "x"), valueOf intFormatName],
    .printInt .nowhere (valueOf "b"), .input .nowhere ⟨.nowhere, [⟨"n", none⟩]⟩]

theorem mixed_wellTyped : ∃ m, (lower mixed).result = .ok m ∧
    (∃ main, m.functionNamed? "main" = some main ∧ Assembly.WellTyped m main) ∧
      ∀ name text, (name, text) ∈ formats → ⟨name, .ofText text, true⟩ ∈ m.globals := by
  have admitted : ∃ Γ, checkAll Env.initial mixed = .ok Γ := ⟨_, rfl⟩
  obtain ⟨m, succeeded⟩ := exists_module admitted
  exact ⟨m, succeeded, lower_wellTyped mixed m succeeded⟩

/-- The main function of a program that is lowered gives each temporary once and uses it only
    behind that. No temporary has the name of another or of a block. -/
theorem lower_singleAssignment (p : Program) (m : Assembly.Module)
    (h : (lower p).result = .ok m) :
    ∃ main, m.functionNamed? "main" = some main ∧ SingleAssignment main := by
  obtain ⟨d, lowered, rfl⟩ := exists_draft h
  exact ⟨d.finished.main, rfl, singleAssignment_of_lawful lowered.lawful_finished⟩

/-- The condition of the outer branch is computed before both arms are lowered, and is used after
    that; one of the arms has a loop in it. -/
def guardedLoop : Program :=
  [.declare .nowhere "b" .bool,
    .ifElse .nowhere (.not .nowhere (valueOf "b"))
      [.repeat .nowhere [.printInt .nowhere (valueOf "b")] (valueOf "b")]
      (some [.output .nowhere (.constant (.string "set"))]),
    .output .nowhere (.constant (.string "done"))]

theorem guardedLoop_singleAssignment : ∃ m, (lower guardedLoop).result = .ok m ∧
    ∃ main, m.functionNamed? "main" = some main ∧ SingleAssignment main := by
  have admitted : ∃ Γ, checkAll Env.initial guardedLoop = .ok Γ := ⟨_, rfl⟩
  obtain ⟨m, succeeded⟩ := exists_module admitted
  exact ⟨m, succeeded, lower_singleAssignment guardedLoop m succeeded⟩

end Pseudocode.Lowering
