import Mathlib.Data.List.Nodup
import Pseudocode.Proofs.Execution.Machine
import Pseudocode.Proofs.Execution.Source
import Pseudocode.Proofs.Lowering.Growth

/-! # Variables and their globals

Each variable of a program has a global of its own, which may have another name.

* `Inventory globals bindings rows`: the rows name all variables, each with its global;
  the other globals are constants.
* `Lowers.inventory`: a statement adds the rows of the variables that it declares.
* `nameOf rows`: what the global of a variable is called. Different variables have globals
  of different names (`Inventory.nameOf_injective`).
-/

namespace Pseudocode.Execution

open Assembly Lowering Typing

/-- A variable, by the name that the program has for it, and its global. -/
abbrev Row := String × Global

/-- The formats, which are variables of every program. -/
def formatRows : List Row := formats.map fun (name, text) => (name, ⟨name, .ofText text, true⟩)

/-- The rows are those of the variables besides the formats. -/
structure Inventory (globals : List Global) (bindings : List (String × Binding))
    (rows : List Row) : Prop where
  bound : bindings.map (fun b => (b.1, b.2.storage)) =
    (formatRows ++ rows).map fun r => (r.1, r.2.address)
  homes : ((formatRows ++ rows).map Prod.snd).Sublist globals
  keys : ((formatRows ++ rows).map Prod.fst).Nodup
  names : (globals.map Global.name).Nodup
  changing : globals.filter (!·.constant) = rows.map Prod.snd

def nameOf (rows : List Row) (name : String) : String :=
  (((formatRows ++ rows).lookup name).map Global.name).getD name

namespace Inventory

/-! ## Looking up -/

section Lookup

variable {globals : List Global} {bindings : List (String × Binding)} {rows : List Row}

theorem keys_eq (inventory : Inventory globals bindings rows) :
    (formatRows ++ rows).map Prod.fst = bindings.map Prod.fst := by
  have same := congrArg (List.map Prod.fst) inventory.bound
  simp only [List.map_map] at same
  exact same.symm

theorem lookup_map {α β : Type} (f : α → β) (l : List (String × α)) (name : String) :
    (l.map fun x => (x.1, f x.2)).lookup name = (l.lookup name).map f := by
  induction l with
  | nil => rfl
  | cons x l ih =>
    rw [List.map_cons, List.lookup_cons, List.lookup_cons, ih]
    cases name == x.1 <;> rfl

theorem mem_of_lookup {α : Type} {l : List (String × α)} {name : String} {a : α}
    (found : l.lookup name = some a) : (name, a) ∈ l := by
  obtain ⟨before, after, rfl, _⟩ := List.lookup_eq_some_iff.mp found
  simp

theorem lookup_of_mem {α : Type} {l : List (String × α)} {name : String} {a : α}
    (distinct : (l.map Prod.fst).Nodup) (member : (name, a) ∈ l) : l.lookup name = some a := by
  cases found : l.lookup name with
  | none => exact absurd (List.lookup_eq_none_iff.mp found _ member) (by simp)
  | some a' =>
    have same := List.inj_on_of_nodup_map distinct (mem_of_lookup found) member rfl
    exact congrArg (some ∘ Prod.snd) same

/-- What is bound to a name is the address of the global in its row. -/
theorem lookup (inventory : Inventory globals bindings rows) {name : String} {b : Binding}
    (found : bindings.lookup name = some b) :
    ∃ g, (formatRows ++ rows).lookup name = some g ∧ b.storage = g.address := by
  have same := congrArg (List.lookup name) inventory.bound
  rw [lookup_map Binding.storage, lookup_map Global.address, found] at same
  cases row : (formatRows ++ rows).lookup name with
  | none => simp [row] at same
  | some g => exact ⟨g, rfl, by simpa [row] using same⟩

theorem nameOf_eq {name : String} {g : Global}
    (found : (formatRows ++ rows).lookup name = some g) : nameOf rows name = g.name := by
  rw [nameOf, found]
  rfl

/-- The global in a row is one of all. -/
theorem mem_globals (inventory : Inventory globals bindings rows) {name : String} {g : Global}
    (found : (formatRows ++ rows).lookup name = some g) : g ∈ globals :=
  inventory.homes.subset (List.mem_map.mpr ⟨_, mem_of_lookup found, rfl⟩)

theorem homes_nodup (inventory : Inventory globals bindings rows) :
    ((formatRows ++ rows).map fun r => r.2.name).Nodup := by
  have some := (inventory.homes.map Global.name).nodup inventory.names
  rwa [List.map_map] at some

/-- Different variables have different globals. -/
theorem eq_of_name_eq (inventory : Inventory globals bindings rows) {name name' : String}
    {g g' : Global} (found : (formatRows ++ rows).lookup name = some g)
    (found' : (formatRows ++ rows).lookup name' = some g') (same : g.name = g'.name) :
    name = name' := by
  have rowsSame := List.inj_on_of_nodup_map inventory.homes_nodup (mem_of_lookup found)
    (mem_of_lookup found') same
  exact congrArg Prod.fst rowsSame

/-- A global is a constant, or it is in one of the rows behind the formats. -/
theorem not_constant (inventory : Inventory globals bindings rows) {r : Row} (member : r ∈ rows) :
    r.2.constant = false := by
  have among : r.2 ∈ globals.filter (!·.constant) := by
    rw [inventory.changing]
    exact List.mem_map.mpr ⟨r, member, rfl⟩
  simpa using (List.mem_filter.mp among).2

theorem eq_of_mem (inventory : Inventory globals bindings rows) {g g' : Global}
    (member : g ∈ globals) (member' : g' ∈ globals) (same : g.name = g'.name) : g = g' :=
  List.inj_on_of_nodup_map inventory.names member member' same

theorem lookup_row (inventory : Inventory globals bindings rows) {r : Row} (member : r ∈ rows) :
    (formatRows ++ rows).lookup r.1 = some r.2 :=
  lookup_of_mem inventory.keys (List.mem_append_right _ member)

/-- The globals that change are those of the variables, by the names that they get. -/
theorem map_changing (inventory : Inventory globals bindings rows) :
    (globals.filter (!·.constant)).map (fun g => (g.name, initial g.init)) =
      rows.map fun r => (nameOf rows r.1, initial r.2.init) := by
  rw [inventory.changing, List.map_map]
  refine List.map_congr_left fun r member => ?_
  rw [nameOf_eq (inventory.lookup_row member)]
  rfl

end Lookup

/-! ## Building -/

theorem initial : Inventory Draft.initial.globals Draft.initial.bindings [] where
  bound := rfl
  homes := List.Sublist.refl _
  keys := by decide
  names := by decide
  changing := rfl

theorem straight {d d' : Draft} {code : List Instr} {rows : List Row}
    (added : Straight d code d') (inventory : Inventory d.globals d.bindings rows) :
    Inventory d'.globals d'.bindings rows := by
  obtain ⟨more, same, constant⟩ := added.globals
  have nothing : more.filter (!·.constant) = [] := by
    simpa [List.filter_eq_nil_iff] using constant
  refine ⟨added.bindings ▸ inventory.bound, ?_, inventory.keys, added.names inventory.names, ?_⟩
  · rw [same]
    exact inventory.homes.trans (List.sublist_append_left _ _)
  · rw [same, List.filter_append, nothing, List.append_nil, inventory.changing]

theorem declare {d : Draft} {rows : List Row} {name : String} (pos : Position)
    (init : Initializer) (inventory : Inventory d.globals d.bindings rows)
    (new : d.bindings.lookup name = none) :
    Inventory (d.declare pos name init).globals (d.declare pos name init).bindings
      (rows ++ [(name, d.newGlobal name init false)]) where
  bound := by
    rw [← List.append_assoc, List.map_append, ← inventory.bound]
    simp [Draft.declare, Draft.newBinding]
  homes := by
    rw [← List.append_assoc, List.map_append]
    exact inventory.homes.append_right _
  keys := by
    rw [← List.append_assoc, List.map_append]
    refine inventory.keys.append (List.nodup_singleton _) ?_
    intro name' old same
    rw [List.mem_singleton.mp same, inventory.keys_eq] at old
    obtain ⟨b, member, rfl⟩ := List.mem_map.mp old
    exact absurd (List.lookup_eq_none_iff.mp new b member) (by simp)
  names := nodup_addGlobal d name init false inventory.names
  changing := by
    show (d.globals ++ [_]).filter _ = _
    rw [List.filter_append, inventory.changing, List.map_append]
    rfl

/-- A variable starts with what its declaration says. -/
theorem initial_declared {type : DeclaredType} {init : Initializer}
    (known : initializer? type = some init) :
    initialDatum? type = some (Execution.initial init) := by
  cases type <;> cases known <;> rfl

theorem declared_ifElse {pos : Position} {c : Expression} {thenBranch : List Statement}
    {elseBranch : Option (List Statement)} :
    declared (.ifElse pos c thenBranch elseBranch) =
      declaredAll thenBranch ++ declaredAll (elseBranch.getD []) := by
  cases elseBranch <;> simp [declared, declaredAll]

mutual

/-- A statement adds the variables that it declares. -/
theorem lowers {d d' : Draft} {s : Statement} {rows : List Row} :
    Lowers d s d' → Inventory d.globals d.bindings rows →
      ∃ more, Inventory d'.globals d'.bindings (rows ++ more) ∧
        more.map (fun r => (r.1, Execution.initial r.2.init)) = declared s
  | .performs done, inventory => by
    obtain ⟨_, added⟩ := done.straight
    refine ⟨[], (List.append_nil rows).symm ▸ inventory.straight added, ?_⟩
    cases done <;> rfl
  | .declare _ initial new, inventory => by
    refine ⟨_, inventory.declare _ _ new, ?_⟩
    rw [declared, initial_declared initial]
    rfl
  | .ifElse condition first second, inventory => by
    obtain ⟨_, added⟩ := condition.straight
    have inFront := inventory.straight added
    obtain ⟨more, inventory₁, declares₁⟩ := lowersAll first inFront
    obtain ⟨more₁, inventory₂, declares₂⟩ := lowersAll second inventory₁
    refine ⟨more ++ more₁, List.append_assoc rows more more₁ ▸ inventory₂, ?_⟩
    rw [List.map_append, declares₁, declares₂, declared_ifElse]
  | .while condition inner, inventory => by
    obtain ⟨_, added⟩ := condition.straight
    have inFront := inventory.straight (d := d.loop) added
    obtain ⟨more, inventory₁, declares⟩ := lowersAll inner inFront
    exact ⟨more, inventory₁, declares⟩
  | .repeat inner condition, inventory => by
    obtain ⟨more, inventory₁, declares⟩ := lowersAll inner inventory
    obtain ⟨_, added⟩ := condition.straight
    have behind := inventory₁.straight added
    exact ⟨more, behind, declares⟩

/-- Statements in a row add the variables that they declare. -/
theorem lowersAll {d d' : Draft} {ss : List Statement} {rows : List Row} :
    LowersAll d ss d' → Inventory d.globals d.bindings rows →
      ∃ more, Inventory d'.globals d'.bindings (rows ++ more) ∧
        more.map (fun r => (r.1, Execution.initial r.2.init)) = declaredAll ss
  | .nil, inventory => ⟨[], (List.append_nil rows).symm ▸ inventory, rfl⟩
  | .cons head tail, inventory => by
    obtain ⟨more, inventory₁, declares₁⟩ := lowers head inventory
    obtain ⟨more₁, inventory₂, declares₂⟩ := lowersAll tail inventory₁
    refine ⟨more ++ more₁, List.append_assoc rows more more₁ ▸ inventory₂, ?_⟩
    rw [List.map_append, declares₁, declares₂]
    rfl

end

end Inventory

end Pseudocode.Execution
