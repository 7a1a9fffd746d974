import Mathlib.Data.List.Nodup
import Mathlib.Data.List.Perm.Subperm
import Mathlib.Order.Bounds.Basic
import Pseudocode.Proofs.Lowering.Draft

/-! # Names that are new

* `freshName_of_notMem`, `freshName_of_mem`: the name that is made from a base is the base, or has
  the least number that makes it new.
* `tempName_injective`: temporaries with different numbers have different names.
* `label_injective`, `tempName_ne_label`: so have blocks, and no temporary has the name of one.
-/

namespace Pseudocode.Lowering

open Assembly

theorem toString_nat_injective {m n : Nat} (same : toString m = toString n) : m = n := by
  have digits : Nat.toDigits 10 m = Nat.toDigits 10 n := by
    rw [← Nat.toList_repr, ← Nat.toList_repr]
    exact congrArg String.toList same
  have read := congrArg (Nat.ofDigitChars 10 · 0) digits
  simpa [Nat.ofDigitChars_ten_toDigits] using read

def tempName (i : Nat) : String := s!"t{i}"

theorem tempName_injective {i j : Nat} (same : tempName i = tempName j) : i = j := by
  have chars := congrArg String.toList same
  simp only [tempName, toString, String.toList_append] at chars
  refine toString_nat_injective (String.toList_inj.mp ?_)
  simpa using chars

theorem label_of_pos {i : Nat} (positive : i ≠ 0) :
    (BlockId.label ⟨i⟩).toList = 'b' :: 'b' :: (toString i).toList := by
  simp [BlockId.label, positive, toString]

theorem label_injective {i j : Nat} (same : BlockId.label ⟨i⟩ = BlockId.label ⟨j⟩) : i = j := by
  have chars := congrArg String.toList same
  by_cases first : i = 0 <;> by_cases second : j = 0
  · rw [first, second]
  · rw [label_of_pos second, first] at chars
    cases chars
  · rw [label_of_pos first, second] at chars
    cases chars
  · rw [label_of_pos first, label_of_pos second] at chars
    injection chars with _ chars
    injection chars with _ chars
    exact toString_nat_injective (String.toList_inj.mp chars)

/-- Temporaries and blocks are told apart by the first letters of their names. -/
theorem tempName_ne_label (i j : Nat) : tempName i ≠ BlockId.label ⟨j⟩ := by
  intro same
  have temp : (tempName i).toList = 't' :: (toString i).toList := by
    simp [tempName, toString]
  have chars := congrArg String.toList same
  rw [temp] at chars
  by_cases first : j = 0
  · rw [first] at chars
    cases chars
  · rw [label_of_pos first] at chars
    cases chars

theorem numbered_injective {base : String} {m n : Nat}
    (same : Module.numbered base m = Module.numbered base n) : m = n := by
  have chars := congrArg String.toList same
  simp only [Module.numbered, toString, String.toList_append] at chars
  refine toString_nat_injective (String.toList_inj.mp ?_)
  simpa using chars

/-- There are more numbers to try than there are names. -/
theorem exists_numbered_notMem (names : List String) (base : String) :
    ∃ n ∈ List.range' 1 (names.length + 1), Module.numbered base n ∉ names := by
  refine Classical.byContradiction fun none => ?_
  have taken : (List.range' 1 (names.length + 1)).map (Module.numbered base) ⊆ names := by
    intro name member
    obtain ⟨n, tried, rfl⟩ := List.mem_map.mp member
    exact Classical.not_not.mp fun free => none ⟨n, tried, free⟩
  have distinct : ((List.range' 1 (names.length + 1)).map (Module.numbered base)).Nodup :=
    List.Pairwise.map _ (fun _ _ other same => other (numbered_injective same)) (List.nodup_range' 1)
  have fewer := (List.subperm_of_subset distinct taken).length_le
  rw [List.length_map, List.length_range'] at fewer
  exact Nat.not_succ_le_self _ fewer

/-! ## Names that are made -/

section Made

variable {names : List String} {base : String}

theorem freshName_of_notMem (new : base ∉ names) : Module.freshName names base = base := if_neg new

/-- The numbers are tried from one on, so those that are smaller were tried before. -/
theorem freshName_of_mem (taken : base ∈ names) :
    ∃ n, Module.freshName names base = Module.numbered base n ∧
      IsLeast {n | 1 ≤ n ∧ Module.numbered base n ∉ names} n := by
  obtain ⟨k, tried, free⟩ := exists_numbered_notMem names base
  have some : ((List.range' 1 (names.length + 1)).find?
      fun n => Module.numbered base n ∉ names).isSome :=
    List.find?_isSome.mpr ⟨k, tried, decide_eq_true free⟩
  obtain ⟨n, found⟩ := Option.isSome_iff_exists.mp some
  obtain ⟨new, among, smaller⟩ := List.find?_range'_eq_some.mp found
  refine ⟨n, ?_, ⟨(List.mem_range'_1.mp among).1, of_decide_eq_true new⟩, fun j other => ?_⟩
  · rw [Module.freshName, if_pos taken, found]
  · by_contra less
    have fails := smaller j other.1 (Nat.lt_of_not_le less)
    simp [other.2] at fails

/-- The first number is taken if it makes the name new. -/
theorem freshName_eq_numbered_one (taken : base ∈ names)
    (new : Module.numbered base 1 ∉ names) :
    Module.freshName names base = Module.numbered base 1 := by
  obtain ⟨n, made, least⟩ := freshName_of_mem taken
  obtain rfl : n = 1 := Nat.le_antisymm (least.2 ⟨Nat.le_refl 1, new⟩) least.1.1
  exact made

/-- A name that is made for a global is new. -/
theorem freshName_notMem (names : List String) (base : String) :
    Module.freshName names base ∉ names := by
  by_cases taken : base ∈ names
  · obtain ⟨n, made, least⟩ := freshName_of_mem taken
    exact made ▸ least.1.2
  · rwa [freshName_of_notMem taken]

/-- It matters only which names are taken, not how often or in which order they are told. -/
theorem freshName_congr {names' : List String} (same : ∀ name, name ∈ names ↔ name ∈ names') :
    Module.freshName names base = Module.freshName names' base := by
  by_cases taken : base ∈ names
  · obtain ⟨n, made, least⟩ := freshName_of_mem taken
    obtain ⟨n', made', least'⟩ := freshName_of_mem ((same base).mp taken)
    simp only [same] at least
    rw [made, made', least.unique least']
  · rw [freshName_of_notMem taken, freshName_of_notMem (mt (same base).mpr taken)]

end Made

/-- The names that a draft gives depend on its globals only. -/
theorem name_newGlobal (d : Draft) (base : String) (init : Initializer) (constant : Bool) :
    (d.newGlobal base init constant).name = Module.freshName d.target.names base :=
  freshName_congr fun _ => Module.mem_symbols_ofLists

theorem newGlobal_notMem (d : Draft) (base : String) (init : Initializer) (constant : Bool) :
    (d.newGlobal base init constant).name ∉ d.target.names :=
  name_newGlobal d base init constant ▸ freshName_notMem d.target.names base

/-- Globals of different names stay so when one is added. -/
theorem nodup_addGlobal (d : Draft) (base : String) (init : Initializer) (constant : Bool)
    (distinct : (d.globals.map Global.name).Nodup) :
    ((d.globals ++ [d.newGlobal base init constant]).map Global.name).Nodup := by
  have new : (d.newGlobal base init constant).name ∉ d.globals.map Global.name :=
    fun member => newGlobal_notMem d base init constant (List.mem_append_left _ member)
  rw [List.map_append, List.map_singleton, ← List.concat_eq_append]
  exact .concat new distinct

end Pseudocode.Lowering
