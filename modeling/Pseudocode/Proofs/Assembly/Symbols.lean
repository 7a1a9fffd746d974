import Mathlib.Data.List.Nodup
import Pseudocode.Lowering.State
import Pseudocode.Proofs.Lowering.Names

/-! # The names of a module

Globals and functions are added to a module in any order. A function keeps the name that it comes
with, which others may have. A global gets a name that is new.

* `Addition`, `Module.addAll`: what can be added to a module, one after the other.
* `Module.Named`: a global or a function has the name.
* `Module.Tidy`: the names that were given are those that there are. Each addition keeps it so
  (`Tidy.add`), and only adds (`Tidy.grown_add`).
* `wellNamed_after_additions` puts this together.
-/

namespace Pseudocode.Assembly

open Lowering (freshName_of_notMem freshName_of_mem freshName_notMem)

/-! ## Additions -/

/-- What can be added to a module. The name of a global is made from a base. -/
inductive Addition where
  | global (base : String) (init : Initializer) (constant : Bool)
  | function (f : Function)

namespace Module

def add (m : Module) : Addition → Module
  | .global base init constant => m.addGlobal base init constant
  | .function f => m.addFunction f

def addAll (m : Module) (as : List Addition) : Module := as.foldl add m

/-- A global or a function has the name. -/
def Named (m : Module) (name : String) : Prop :=
  (∃ g ∈ m.globals, g.name = name) ∨ ∃ f ∈ m.functions, f.name = name

/-- What was added stays, and the globals that come behind it have names that were not taken. -/
structure Grown (m m' : Module) : Prop where
  functions : m.functions <+: m'.functions
  globals : ∃ added, m'.globals = m.globals ++ added ∧ ∀ g ∈ added, ¬ m.Named g.name

section Names

variable {m m₁ m₂ : Module} {name : String}

/-! ## Modules that grow -/

theorem Grown.refl (m : Module) : Grown m m where
  functions := List.prefix_rfl
  globals := ⟨[], by simp⟩

theorem Grown.named (grown : Grown m m₁) (named : m.Named name) : m₁.Named name := by
  obtain ⟨added, globals, -⟩ := grown.globals
  refine named.imp ?_ ?_
  · rintro ⟨g, among, rfl⟩
    exact ⟨g, by simp [globals, among], rfl⟩
  · rintro ⟨f, among, rfl⟩
    exact ⟨f, grown.functions.subset among, rfl⟩

theorem Grown.trans (first : Grown m m₁) (second : Grown m₁ m₂) : Grown m m₂ where
  functions := first.functions.trans second.functions
  globals := by
    obtain ⟨added, globals, new⟩ := first.globals
    obtain ⟨added₁, globals₁, new₁⟩ := second.globals
    refine ⟨added ++ added₁, by rw [globals₁, globals, List.append_assoc], fun g among => ?_⟩
    exact (List.mem_append.mp among).elim (new g) fun later => mt first.named (new₁ g later)

/-! ## Names that are given -/

/-- The names that were given are those of the globals and the functions, and no two globals have
    the same. -/
structure Tidy (m : Module) : Prop where
  symbols : ∀ name, name ∈ m.symbols ↔ m.Named name
  distinct : (m.globals.map Global.name).Nodup

namespace Tidy

theorem empty : Tidy .empty where
  symbols name := by simp [Module.empty, Named]
  distinct := List.nodup_nil

theorem not_named_freshSymbol (tidy : m.Tidy) (base : String) : ¬ m.Named (m.freshSymbol base) :=
  mt (tidy.symbols _).mpr (freshName_notMem m.symbols base)

theorem addGlobal (tidy : m.Tidy) (base : String) (init : Initializer) (constant : Bool) :
    (m.addGlobal base init constant).Tidy where
  symbols name := by
    simp only [Module.addGlobal, Named, List.mem_cons, List.mem_append, List.not_mem_nil, or_false,
      tidy.symbols, or_and_right, exists_or, exists_eq_left, eq_comm (a := name)]
    exact or_left_comm.trans or_assoc.symm
  distinct := by
    show ((m.globals ++ [m.newGlobal base init constant]).map Global.name).Nodup
    rw [List.map_append, List.map_singleton, ← List.concat_eq_append]
    refine .concat (fun old => ?_) tidy.distinct
    obtain ⟨g, among, same⟩ := List.mem_map.mp old
    exact tidy.not_named_freshSymbol base (.inl ⟨g, among, same⟩)

theorem addFunction (tidy : m.Tidy) (f : Function) : (m.addFunction f).Tidy where
  symbols name := by
    simp only [Module.addFunction, Named, List.mem_append, List.mem_singleton, tidy.symbols,
      or_and_right, exists_or, exists_eq_left, eq_comm (a := name)]
    exact or_assoc
  distinct := tidy.distinct

theorem add (tidy : m.Tidy) (a : Addition) : (m.add a).Tidy := by
  cases a with
  | global base init constant => exact tidy.addGlobal base init constant
  | function f => exact tidy.addFunction f

theorem addAll (tidy : m.Tidy) (as : List Addition) : (m.addAll as).Tidy := by
  induction as generalizing m with
  | nil => exact tidy
  | cons a as ih => exact ih (tidy.add a)

theorem grown_add (tidy : m.Tidy) (a : Addition) : Grown m (m.add a) := by
  cases a with
  | global base init constant =>
    refine ⟨List.prefix_rfl, _, rfl, fun g among => ?_⟩
    rw [List.mem_singleton.mp among]
    exact tidy.not_named_freshSymbol base
  | function f => exact ⟨List.prefix_append _ _, [], by simp [Module.add, Module.addFunction]⟩

theorem grown_addAll (tidy : m.Tidy) (as : List Addition) : Grown m (m.addAll as) := by
  induction as generalizing m with
  | nil => exact .refl m
  | cons a as ih => exact (tidy.grown_add a).trans (ih (tidy.add a))

/-- A global is found by its name. -/
theorem globalNamed?_of_mem (tidy : m.Tidy) {g : Global} (among : g ∈ m.globals) :
    m.globalNamed? g.name = some g := by
  have some : (m.globalNamed? g.name).isSome :=
    List.find?_isSome.mpr ⟨g, among, decide_eq_true rfl⟩
  obtain ⟨g', found⟩ := Option.isSome_iff_exists.mp some
  have named : g'.name = g.name := by simpa using List.find?_some found
  rw [found, List.inj_on_of_nodup_map tidy.distinct (List.mem_of_find?_eq_some found) among named]

end Tidy

end Names

/-! ## After every run -/

/-- What is expected of the names in a module. -/
structure WellNamed (m : Module) : Prop where
  /-- The names that were given are those that globals and functions have. -/
  symbols : ∀ name, name ∈ m.symbols ↔ m.Named name
  /-- A name that nothing has can be given as it is. -/
  itself : ∀ base, ¬ m.Named base → m.freshSymbol base = base
  /-- Otherwise it gets the least number that makes it new. -/
  numbered : ∀ base, m.Named base → ∃ n, m.freshSymbol base = Module.numbered base n ∧
    IsLeast {n | 1 ≤ n ∧ ¬ m.Named (Module.numbered base n)} n
  distinct : (m.globals.map Global.name).Nodup
  /-- A global that is added later takes no name that a global or a function has. -/
  later : ∀ more, ∃ added, (m.addAll more).globals = m.globals ++ added ∧
    ∀ g ∈ added, ¬ m.Named g.name
  /-- The address of a new global leads to it, whatever is added later. -/
  address : ∀ (s : Lowering.State) base init constant, s.target = m → ∃ name s',
    Lowering.addGlobal base init constant s = .ok (.global name (.ptr init.type)) s' ∧
      ∀ more, (s'.target.addAll more).globalNamed? name = some ⟨name, init, constant⟩

/-- A new global is never taken away, and no other one comes to have its name. -/
theorem Tidy.wellNamed {m : Module} (tidy : m.Tidy) : m.WellNamed where
  symbols := tidy.symbols
  itself base free := freshName_of_notMem (mt (tidy.symbols base).mp free)
  numbered base taken := by
    simpa only [freshSymbol, tidy.symbols] using freshName_of_mem ((tidy.symbols base).mpr taken)
  distinct := tidy.distinct
  later more := (tidy.grown_addAll more).globals
  address := by
    rintro s base init constant rfl
    refine ⟨_, _, rfl, fun more => ?_⟩
    have added := tidy.addGlobal base init constant
    obtain ⟨further, globals, -⟩ := (added.grown_addAll more).globals
    refine (added.addAll more).globalNamed?_of_mem (g := s.target.newGlobal base init constant) ?_
    rw [globals]
    simp [Module.addGlobal]

end Module

/-- Whatever is added to a module and in whichever order, the names that were given are those that
    it has, its globals have names of their own that no earlier function has, a name is new by the
    least number, and an address leads to its global. -/
theorem wellNamed_after_additions (as : List Addition) : (Module.empty.addAll as).WellNamed :=
  (Module.Tidy.empty.addAll as).wellNamed

/-- A number is left out if a function has the name that it would give. -/
example : (Module.empty.addAll [.global "x" (.int 32 0) false,
    .function (.declared ⟨"x.1", .i32, [], false⟩), .global "x" (.int 1 0) false]).names =
      ["x", "x.2", "x.1"] := by
  decide +kernel

end Pseudocode.Assembly
