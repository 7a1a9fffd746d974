import Mathlib.Data.Set.Function
import Mathlib.Logic.Equiv.Basic
import Pseudocode.Proofs.Globals.Visits
import Pseudocode.Proofs.Lowering.Discipline
import Pseudocode.Proofs.Renaming.Siblings

/-! # Names of variables do not matter

A program and the same program with other names of variables become one module but for the names
of globals, or are refused for one reason at one place.

* `SameButNames σ m m'`: the modules are the same up to the names of globals.
* `lower_rename`: renamed programs are lowered to such modules.
* `lower_renameFirst_unlike`: it matters that a path without components is renamed as well.
-/

namespace Pseudocode

open Assembly Typing

namespace Lowering

/-! ## Modules but for names -/

def globalNames (m : Assembly.Module) : Set String := {name | name ∈ m.globals.map Global.name}

/-- The one module is the other with other names of globals. Different globals keep different
    names, the formats keep theirs, and no name is given twice, to globals or to functions. -/
structure SameButNames (σ : String → String) (m m' : Assembly.Module) : Prop where
  renamed : m' = m.rename σ
  bijective : Set.BijOn σ (globalNames m) (globalNames m')
  intFormat : σ intFormatName = intFormatName
  realFormat : σ realFormatName = realFormatName
  distinct : m.names.Nodup
  distinct' : m'.names.Nodup

theorem globalNames_rename (σ : String → String) (m : Assembly.Module) :
    (m.rename σ).globals.map Global.name = (m.globals.map Global.name).map σ := by
  simp [Assembly.Module.rename, Assembly.Module.ofLists, Global.rename]

/-- Names that differ in the renamed module differ before, and are taken to each other. -/
theorem bijOn_globalNames {σ : String → String} {m : Assembly.Module}
    (distinct : (m.rename σ).names.Nodup) :
    Set.BijOn σ (globalNames m) (globalNames (m.rename σ)) := by
  have names : ((m.globals.map Global.name).map σ).Nodup :=
    globalNames_rename σ m ▸ distinct.of_append_left
  refine ⟨fun name member => ?_, List.inj_on_of_nodup_map names, fun name member => ?_⟩
  · show σ name ∈ (m.rename σ).globals.map Global.name
    rw [globalNames_rename]
    exact List.mem_map_of_mem member
  · replace member : name ∈ (m.rename σ).globals.map Global.name := member
    rw [globalNames_rename] at member
    exact List.mem_map.mp member

/-! ## Whole programs -/

/-- A renaming that takes the formats to themselves does so with what is bound to them. -/
theorem Carries.formats {σ : String → String} (carries : Carries σ .initial .initial) :
    σ intFormatName = intFormatName ∧ σ realFormatName = realFormatName := by
  have names : [intFormatName, realFormatName] = [σ intFormatName, σ realFormatName] := carries
  simp only [List.cons.injEq, and_true] at names
  exact ⟨names.1.symm, names.2.symm⟩

section

variable {r : String → String}

theorem siblings_initial (fixesInt : r intFormatName = intFormatName)
    (fixesReal : r realFormatName = realFormatName) : Siblings r .initial .initial where
  carries := ⟨id, rfl⟩
  same := fun σ carries => by
    obtain ⟨int, real⟩ := carries.formats
    simp [Draft.initial, Draft.rename, formats, Global.rename, Binding.rename, Value.rename,
      Block.rename, Block.empty, Event.rename, int, real, fixesInt, fixesReal]

theorem Env.rename_initial (fixesInt : r intFormatName = intFormatName)
    (fixesReal : r realFormatName = realFormatName) : Env.initial.rename r = Env.initial := by
  have int : r "printfd_fmt" = "printfd_fmt" := fixesInt
  have real : r "printff_fmt" = "printff_fmt" := fixesReal
  simp [Env.initial, Env.rename, int, real]

theorem LowersAll.nodup_names {d : Draft} {p : Program} (lowered : LowersAll .initial p d) :
    d.finished.target.names.Nodup := by
  obtain ⟨_, step, _⟩ := Globals.LowersAll.step ready_initial.isOpen Globals.Stocked.initial lowered
  exact step.stocked.distinct

/-- What a program and its renamed one become is the same but for names. -/
theorem Siblings.sameButNames {d d' : Draft} {p p' : Program} (siblings : Siblings r d d')
    (lowered : LowersAll .initial p d) (lowered' : LowersAll .initial p' d')
    (start : Siblings r .initial .initial) :
    ∃ σ, SameButNames σ d.finished.target d'.finished.target := by
  obtain ⟨σ, carries⟩ := siblings.carries
  have formats := (start.carries_of_later lowered.globals_prefix lowered'.globals_prefix
    carries).formats
  have renamed : d'.finished.target = d.finished.target.rename σ := by
    rw [siblings.same σ carries, ← Draft.rename_finished, Draft.rename_target]
  exact ⟨σ, renamed, renamed ▸ bijOn_globalNames (renamed ▸ lowered'.nodup_names), formats.1,
    formats.2, lowered.nodup_names, lowered'.nodup_names⟩

/-- Names of variables do not matter. A program and the program with other names, different ones
    for different variables and the same ones for the formats, are both lowered, to modules that
    are the same but for names, or are both refused, with errors of one sort at one place. A path
    without components stands for the variable whose name is empty, and is renamed with it. -/
theorem lower_rename (p : Program) (r : String → String) (injective : Function.Injective r)
    (fixesInt : r intFormatName = intFormatName) (fixesReal : r realFormatName = realFormatName) :
    (∃ m m' σ, (lower p).result = .ok m ∧
        (lower (Program.rename r (Key.rename r) p)).result = .ok m' ∧ SameButNames σ m m') ∨
      ∃ e e', (lower p).result = .error e ∧
        (lower (Program.rename r (Key.rename r) p)).result = .error e' ∧ e.Like e' := by
  have renames := Key.renames injective
  have echoes := checkAll_rename renames Env.initial p
  rw [Env.rename_initial fixesInt fixesReal] at echoes
  have first := lower_result p
  have second := lower_result (Program.rename r (Key.rename r) p)
  cases checked : checkAll Env.initial p with
  | ok Γ =>
    rw [checked] at echoes first
    cases checked' : checkAll Env.initial (Program.rename r (Key.rename r) p) with
    | error x =>
      rw [checked'] at echoes
      cases echoes
    | ok Γ' =>
      rw [checked'] at second
      obtain ⟨d, lowered, result⟩ := first
      obtain ⟨d', lowered', result'⟩ := second
      have start := siblings_initial fixesInt fixesReal
      have siblings := lowered.siblings renames fixesInt fixesReal lowered' start
      obtain ⟨σ, same⟩ := siblings.sameButNames lowered lowered' start
      exact .inl ⟨_, _, σ, result, result', same⟩
  | error x =>
    rw [checked] at echoes first
    cases checked' : checkAll Env.initial (Program.rename r (Key.rename r) p) with
    | ok Γ' =>
      rw [checked'] at echoes
      cases echoes
    | error x' =>
      rw [checked'] at echoes second
      cases echoes with
      | error like => exact .inr ⟨x, x', first, second, like⟩

end

/-! ## Names that are taken -/

def variableKey (name : String) : Key := ⟨.nowhere, [⟨name, none⟩]⟩

/-- The names are exchanged. -/
def exchange (pairs : List (String × String)) : Equiv.Perm String :=
  pairs.foldr (fun pair rest => rest.trans (Equiv.swap pair.1 pair.2)) (Equiv.refl String)

/-- A program with the names from the list. Its texts are hoisted before, between and behind
    declarations. -/
def gathered (a b c d e f g : String) : Program :=
  [.output .nowhere (.constant (.string "first")), .declare .nowhere a .int,
    .declare .nowhere b .bool, .declare .nowhere c .real,
    .while .nowhere (valueOf b)
      [.declare .nowhere d .int, .input .nowhere (variableKey d),
        .assign .nowhere (variableKey a)
          (.binary (.arithmetic .add) .nowhere (valueOf a) (valueOf d)),
        .output .nowhere (.constant (.string "second"))],
    .declare .nowhere e .bool,
    .ifElse .nowhere (.not .nowhere (valueOf e)) [.printInt .nowhere (valueOf a)]
      (some [.declare .nowhere f .real, .printReal .nowhere (valueOf f)]),
    .declare .nowhere g .int,
    .call .nowhere .nowhere "printf" [.constant (.string "%d %d"), valueOf g, valueOf a]]

def harmless : Program := gathered "a" "b" "c" "d" "e" "f" "g"

/-- The names of functions, of a temporary and a block, of a hoisted text and one with a number. -/
def taken : Program := gathered "main" "puts" "t0" "getchar" "bb1" ".str.1" "puts.1"

def toTaken : Equiv.Perm String :=
  exchange [("a", "main"), ("b", "puts"), ("c", "t0"), ("d", "getchar"), ("e", "bb1"),
    ("f", ".str.1"), ("g", "puts.1")]

theorem taken_sameButNames : Program.rename toTaken (Key.rename toTaken) harmless = taken ∧
    ∃ m m' σ, (lower harmless).result = .ok m ∧ (lower taken).result = .ok m' ∧
      SameButNames σ m m' := by
  have same : Program.rename toTaken (Key.rename toTaken) harmless = taken := rfl
  refine ⟨same, ?_⟩
  rcases lower_rename harmless toTaken toTaken.injective (by decide +kernel) (by decide +kernel)
    with lowered | ⟨e, _, refused, _⟩
  · rwa [same] at lowered
  · obtain ⟨m, lowered⟩ := exists_module (p := harmless) ⟨_, rfl⟩
    cases lowered.symm.trans refused

/-! ## Paths without components -/

/-- The variable has no name, and neither has the path that stands for it. -/
def nameless : Program := [.declare .nowhere "" .int, .input .nowhere ⟨.nowhere, []⟩]

def toNamed : Equiv.Perm String := Equiv.swap "" "x"

/-- If a path is renamed only where it has a component, then a variable without a name gets one
    and is no longer found by the path without components. -/
theorem lower_renameFirst_unlike : Function.Injective toNamed ∧
    toNamed intFormatName = intFormatName ∧ toNamed realFormatName = realFormatName ∧
    (∃ m, (lower nameless).result = .ok m) ∧
    (lower (Program.rename toNamed (Key.renameFirst toNamed) nameless)).result =
      .error (.resolution .nowhere (.undefinedVariable "")) := by
  refine ⟨toNamed.injective, by decide +kernel, by decide +kernel, ?_, ?_⟩
  · exact exists_module (p := nameless) ⟨_, rfl⟩
  · exact lower_eq_error.mpr (by decide +kernel)

end Lowering

end Pseudocode
