import Mathlib.Data.List.Nodup
import Pseudocode.Proofs.Execution.Inventory
import Pseudocode.Proofs.Globals.Items
import Pseudocode.Proofs.Lowering.Names

/-! # Items and their globals

* `Stocked d T`: the globals of the draft are the formats and those of the table, with names of
  their own, and variables are bound to theirs.
* `Stocked.addString`, `Stocked.declare`: a literal and a variable add a row to the table.
* `Stocked.lookup`: what is bound to a name is a format or the global of its row.
-/

namespace Pseudocode.Globals

open Assembly Lowering

/-! ## Names of globals -/

/-- The functions that every module has. -/
def functionNames : List String := [putsName, printfName, getcharName, mainSignature.name]

theorem names_target (d : Draft) :
    d.target.names = d.globals.map Global.name ++ functionNames := rfl

/-- What the global of a variable is called if no name is strange. -/
def variableSymbol (name : String) : String :=
  if name ∈ functionNames then Module.numbered name 1 else name

def literalSymbol (number : Nat) : String := s!".str.{number}"

/-- What the globals are called, when so many literals come in front of them. -/
def itemSymbols (before : Nat) : List Item → List String
  | [] => []
  | .declared name _ :: rest => variableSymbol name :: itemSymbols before rest
  | .literal _ :: rest => literalSymbol before :: itemSymbols (before + 1) rest

/-- The name has no dot in it. -/
def Plain (name : String) : Prop := '.' ∉ name.toList

theorem itemSymbols_append (before : Nat) (items more : List Item) :
    itemSymbols before (items ++ more) =
      itemSymbols before items ++ itemSymbols (before + items.countP Item.isLiteral) more := by
  induction items generalizing before with
  | nil => rfl
  | cons item items ih =>
    cases item with
    | declared name cell => simp [itemSymbols, ih]
    | literal text => simp [itemSymbols, ih, List.countP_cons, Nat.add_assoc, Nat.add_comm 1]

theorem toList_numbered (base : String) (n : Nat) :
    (Module.numbered base n).toList = base.toList ++ '.' :: (toString n).toList := by
  simp [Module.numbered, toString]

theorem toList_literalSymbol (n : Nat) :
    (literalSymbol n).toList = ['.', 's', 't', 'r', '.'] ++ (toString n).toList := by
  simp [literalSymbol, toString]

theorem numbered_not_plain (base : String) (n : Nat) : ¬ Plain (Module.numbered base n) := by
  simp [Plain, toList_numbered]

theorem literalSymbol_not_plain (n : Nat) : ¬ Plain (literalSymbol n) := by
  simp [Plain, toList_literalSymbol]

/-- The names that every module has are plain. -/
theorem plain_of_given {name : String} (given : name ∈ formats.map Prod.fst ++ functionNames) :
    Plain name := by
  have all : ∀ name ∈ formats.map Prod.fst ++ functionNames, '.' ∉ name.toList := by decide
  exact all name given

/-- There are two dots in the name of a literal. -/
theorem literalSymbol_ne_numbered {base : String} (plain : Plain base) (m n : Nat) :
    literalSymbol m ≠ Module.numbered base n := by
  intro same
  have chars := congrArg String.toList same
  rw [toList_literalSymbol, toList_numbered] at chars
  cases shape : base.toList with
  | nil =>
    rw [shape] at chars
    have letter : 's' ∈ Nat.toDigits 10 n := by
      rw [← Nat.toList_repr]
      exact (List.cons.inj chars).2 ▸ List.mem_cons_self
    exact absurd (Nat.isDigit_of_mem_toDigits (by decide) (by decide) letter) (by decide)
  | cons c rest =>
    rw [shape] at chars
    obtain ⟨rfl, _⟩ := List.cons.inj chars
    exact plain (by simp [shape])

theorem numbered_one_injective {x y : String}
    (same : Module.numbered x 1 = Module.numbered y 1) : x = y := by
  have chars := congrArg String.toList same
  rw [toList_numbered, toList_numbered] at chars
  exact String.toList_inj.mp (List.append_cancel_right chars)

theorem literalSymbol_injective {m n : Nat} (same : literalSymbol m = literalSymbol n) :
    m = n := by
  have chars := congrArg String.toList same
  rw [toList_literalSymbol, toList_literalSymbol] at chars
  exact toString_nat_injective (String.toList_inj.mp (List.append_cancel_left chars))

theorem mem_itemSymbols {before : Nat} {items : List Item} {name : String}
    (member : name ∈ itemSymbols before items) :
    (∃ x cell, .declared x cell ∈ items ∧ name = variableSymbol x) ∨
      ∃ n < before + items.countP Item.isLiteral, name = literalSymbol n := by
  induction items generalizing before with
  | nil => cases member
  | cons item items ih =>
    cases item with
    | declared x cell =>
      rcases List.mem_cons.mp member with rfl | member
      · exact .inl ⟨x, cell, by simp, rfl⟩
      · rcases ih member with ⟨y, cell', among, rfl⟩ | ⟨n, less, rfl⟩
        · exact .inl ⟨y, cell', by simp [among], rfl⟩
        · exact .inr ⟨n, by simpa [List.countP_cons] using less, rfl⟩
    | literal text =>
      rcases List.mem_cons.mp member with rfl | member
      · exact .inr ⟨before, by simp [List.countP_cons], rfl⟩
      · rcases ih member with ⟨y, cell', among, rfl⟩ | ⟨n, less, rfl⟩
        · exact .inl ⟨y, cell', by simp [among], rfl⟩
        · exact .inr ⟨n, by simp [List.countP_cons]; omega, rfl⟩

/-- The names that are taken when the items have theirs. -/
def taken (items : List Item) : List String :=
  formats.map Prod.fst ++ itemSymbols 0 items ++ functionNames

theorem mem_taken {items : List Item} {name : String} (member : name ∈ taken items) :
    name ∈ formats.map Prod.fst ++ functionNames ∨
      (∃ x cell, .declared x cell ∈ items ∧ name = variableSymbol x) ∨
      ∃ n < items.countP Item.isLiteral, name = literalSymbol n := by
  simp only [taken, List.mem_append] at member ⊢
  rcases member with (given | made) | given
  · exact .inl (.inl given)
  · have made := mem_itemSymbols made
    rw [Nat.zero_add] at made
    exact .inr made
  · exact .inl (.inr given)

section

variable {items : List Item} (plain : ∀ x cell, .declared x cell ∈ items → Plain x)

include plain

/-- A literal gets the next number. -/
theorem freshName_literal : Module.freshName (taken items)
    (literalSymbol (items.countP Item.isLiteral)) = literalSymbol (items.countP Item.isLiteral) := by
  refine freshName_of_notMem fun member => ?_
  rcases mem_taken member with given | ⟨x, cell, among, same⟩ | ⟨n, less, same⟩
  · exact literalSymbol_not_plain _ (plain_of_given given)
  · rw [variableSymbol] at same
    split at same
    · exact literalSymbol_ne_numbered (plain x cell among) _ 1 same
    · exact literalSymbol_not_plain _ (same ▸ plain x cell among)
  · exact Nat.ne_of_gt less (literalSymbol_injective same)

/-- A variable keeps its name unless it is that of a function. -/
theorem freshName_variable {name : String} (itself : Plain name)
    (notFormat : name ∉ formats.map Prod.fst) (new : ∀ cell, .declared name cell ∉ items) :
    Module.freshName (taken items) name = variableSymbol name := by
  unfold variableSymbol
  split
  case isTrue function =>
    refine freshName_eq_numbered_one (List.mem_append_right _ function) fun member => ?_
    rcases mem_taken member with given | ⟨x, cell, among, same⟩ | ⟨n, _, same⟩
    · exact numbered_not_plain name 1 (plain_of_given given)
    · rw [variableSymbol] at same
      split at same
      · exact new cell (numbered_one_injective same ▸ among)
      · exact numbered_not_plain name 1 (same ▸ plain x cell among)
    · exact literalSymbol_ne_numbered itself n 1 same.symm
  case isFalse free =>
    refine freshName_of_notMem fun member => ?_
    rcases mem_taken member with given | ⟨x, cell, among, same⟩ | ⟨n, _, same⟩
    · exact (List.mem_append.mp given).elim notFormat free
    · rw [variableSymbol] at same
      split at same
      · exact numbered_not_plain x 1 (same ▸ itself)
      · exact new cell (same ▸ among)
    · exact literalSymbol_not_plain n (same ▸ itself)

end

/-! ## Drafts -/

/-- What a row binds: the name of a variable to its global. -/
def rowBinding? (row : Item × Global) : Option (String × Value) :=
  row.1.name?.map (·, row.2.address)

@[simp] theorem rowBinding?_declared (name : String) (cell : Cell) (g : Global) :
    rowBinding? (.declared name cell, g) = some (name, g.address) := rfl

@[simp] theorem rowBinding?_literal (text : String) (g : Global) :
    rowBinding? (.literal text, g) = none := rfl

/-- The globals of the draft are the formats and behind them those in the table, and each
    variable is bound to the global in its row. -/
structure Stocked (d : Draft) (T : Table) : Prop where
  globals : d.globals = formatGlobals ++ T.map Prod.snd
  kept : ∀ row ∈ T, row.1.Kept row.2
  bound : d.bindings.map (fun b => (b.1, b.2.storage)) =
    formatGlobals.map (fun g => (g.name, g.address)) ++ T.filterMap rowBinding?
  keys : (d.bindings.map Prod.fst).Nodup
  strings : d.strings = (T.map Prod.fst).countP Item.isLiteral
  distinct : d.target.names.Nodup
  /-- Names are told in advance unless one has a dot in it. -/
  names : (∀ x cell, .declared x cell ∈ T.map Prod.fst → Plain x) →
    T.map (·.2.name) = itemSymbols 0 (T.map Prod.fst)

theorem nodup_names (d : Draft) (base : String) (init : Initializer) (constant : Bool)
    (distinct : d.target.names.Nodup) :
    ((d.globals ++ [d.newGlobal base init constant]).map Global.name ++ functionNames).Nodup := by
  have new : (d.newGlobal base init constant).name ∉ d.target.names :=
    newGlobal_notMem d base init constant
  rw [List.map_append, List.append_assoc]
  exact List.nodup_middle.mpr (List.nodup_cons.mpr ⟨new, distinct⟩)

namespace Stocked

variable {d d' : Draft} {T : Table}

theorem initial : Stocked .initial [] where
  globals := rfl
  kept := nofun
  bound := rfl
  keys := by decide
  strings := rfl
  distinct := by decide
  names := fun _ => rfl

/-- Only globals, bindings and the number of literals matter. -/
theorem same (stocked : Stocked d T) (globals : d'.globals = d.globals)
    (bindings : d'.bindings = d.bindings) (strings : d'.strings = d.strings) : Stocked d' T where
  globals := globals ▸ stocked.globals
  kept := stocked.kept
  bound := bindings ▸ stocked.bound
  keys := bindings ▸ stocked.keys
  strings := strings.trans stocked.strings
  distinct := by
    rw [names_target, globals]
    exact stocked.distinct
  names := stocked.names

/-- The names that are taken are told in advance as well. -/
theorem names_eq (stocked : Stocked d T)
    (plain : ∀ x cell, .declared x cell ∈ T.map Prod.fst → Plain x) :
    d.target.names = taken (T.map Prod.fst) := by
  rw [names_target, stocked.globals, List.map_append, List.map_map, taken]
  refine congrArg (· ++ functionNames) (congrArg₂ (· ++ ·) rfl ?_)
  exact stocked.names plain

theorem bound_keys (stocked : Stocked d T) :
    d.bindings.map Prod.fst =
      formats.map Prod.fst ++ T.filterMap fun row => row.1.name? := by
  have keys := congrArg (List.map Prod.fst) stocked.bound
  simp only [List.map_map, List.map_append, List.map_filterMap] at keys
  refine keys.trans (congrArg₂ (· ++ ·) rfl (List.filterMap_congr fun row _ => ?_))
  simp [rowBinding?, Option.map_map, Function.comp_def]

/-- A name that is new is neither that of a format nor of a variable. -/
theorem new_name (stocked : Stocked d T) {name : String} (new : d.bindings.lookup name = none) :
    name ∉ formats.map Prod.fst ∧ ∀ cell, .declared name cell ∉ T.map Prod.fst := by
  have unbound : name ∉ d.bindings.map Prod.fst := by
    intro member
    obtain ⟨b, among, rfl⟩ := List.mem_map.mp member
    simpa using List.lookup_eq_none_iff.mp new b among
  rw [stocked.bound_keys, List.mem_append, not_or] at unbound
  refine ⟨unbound.1, fun cell member => unbound.2 ?_⟩
  obtain ⟨row, among, item⟩ := List.mem_map.mp member
  exact List.mem_filterMap.mpr ⟨row, among, by rw [item]; rfl⟩

/-- A row is added for a new global. What is left to say is what the draft makes of the item. -/
theorem addRow (stocked : Stocked d T) {item : Item} {base : String} {init : Initializer}
    {constant : Bool} (added : d'.globals = d.globals ++ [d.newGlobal base init constant])
    (kept : item.Kept (d.newGlobal base init constant))
    (bound : d'.bindings.map (fun b => (b.1, b.2.storage)) =
      d.bindings.map (fun b => (b.1, b.2.storage)) ++
        [(item, d.newGlobal base init constant)].filterMap rowBinding?)
    (keys : (d'.bindings.map Prod.fst).Nodup)
    (strings : d'.strings = d.strings + [item].countP Item.isLiteral)
    (symbol : (∀ x cell, .declared x cell ∈ T.map Prod.fst ++ [item] → Plain x) →
      [Module.freshName (taken (T.map Prod.fst)) base] = itemSymbols d.strings [item]) :
    Stocked d' (T ++ [(item, d.newGlobal base init constant)]) where
  globals := by
    rw [List.map_append, ← List.append_assoc, ← stocked.globals, added]
    rfl
  kept row member := by
    rcases List.mem_append.mp member with old | new
    · exact stocked.kept row old
    · cases List.mem_singleton.mp new
      exact kept
  bound := by
    rw [List.filterMap_append, ← List.append_assoc, ← stocked.bound, bound]
  keys := keys
  strings := by
    rw [List.map_append, List.countP_append, ← stocked.strings, strings]
    rfl
  distinct := by
    rw [names_target, added]
    exact nodup_names d _ _ _ stocked.distinct
  names plain := by
    rw [List.map_append, List.map_singleton] at plain
    have before : ∀ x cell, .declared x cell ∈ T.map Prod.fst → Plain x :=
      fun x cell member => plain x cell (List.mem_append_left _ member)
    rw [List.map_append, List.map_append, List.map_singleton, List.map_singleton,
      itemSymbols_append, stocked.names before, Nat.zero_add, ← stocked.strings, ← symbol plain,
      ← stocked.names_eq before, name_newGlobal]

theorem addString (stocked : Stocked d T) (text : String) :
    Stocked (d.addString text) (T ++ [(.literal text, d.literal text)]) := by
  refine stocked.addRow rfl ⟨rfl, rfl⟩ ?_ stocked.keys rfl fun plain => ?_
  · simp [rowBinding?, Item.name?, Draft.addString]
  · have before : ∀ x cell, .declared x cell ∈ T.map Prod.fst → Plain x :=
      fun x cell member => plain x cell (List.mem_append_left _ member)
    rw [stocked.strings]
    exact congrArg (fun name => [name]) (freshName_literal before)

theorem declare (stocked : Stocked d T) (pos : Position) {name : String} (cell : Cell)
    (new : d.bindings.lookup name = none) :
    Stocked (d.declare pos name cell.zero)
      (T ++ [(.declared name cell, d.newGlobal name cell.zero false)]) := by
  refine stocked.addRow rfl ⟨rfl, rfl⟩ List.map_append ?_ rfl fun plain => ?_
  · show ((d.bindings ++ [(name, d.newBinding pos name cell.zero)]).map Prod.fst).Nodup
    rw [List.map_append, List.map_singleton, ← List.concat_eq_append]
    refine .concat (fun old => ?_) stocked.keys
    obtain ⟨b, member, key⟩ := List.mem_map.mp old
    exact absurd (List.lookup_eq_none_iff.mp new b member) (by simpa using key.symm)
  · have before : ∀ x cell, .declared x cell ∈ T.map Prod.fst → Plain x :=
      fun x cell member => plain x cell (List.mem_append_left _ member)
    have itself : Plain name := plain name cell (List.mem_append_right _ List.mem_cons_self)
    obtain ⟨notFormat, notDeclared⟩ := stocked.new_name new
    exact congrArg (fun name => [name])
      (freshName_variable before itself notFormat notDeclared)

/-! ## Looking up -/

theorem lookup_rows (T : Table) (name : String) :
    (T.filterMap rowBinding?).lookup name =
      (T.find? (·.1.name? = some name)).map (·.2.address) := by
  induction T with
  | nil => rfl
  | cons row T ih =>
    obtain ⟨item, g⟩ := row
    cases item with
    | literal text =>
      rw [List.filterMap_cons_none (rowBinding?_literal text g)]
      simpa using ih
    | declared x cell =>
      by_cases same : name = x
      · simp [same]
      · have other : (name == x) = false := by simpa using same
        simpa [List.lookup_cons, other, Ne.symm same] using ih

theorem isFormat_iff {name : String} : isFormat name = true ↔ name ∈ formats.map Prod.fst := by
  simp [isFormat]

theorem lookup_storage (stocked : Stocked d T) {name : String} {b : Binding}
    (found : d.bindings.lookup name = some b) :
    (∃ g ∈ formatGlobals, name = g.name ∧ b.storage = g.address) ∨
      isFormat name = false ∧
        (T.find? (·.1.name? = some name)).map (·.2.address) = some b.storage := by
  have bound := congrArg (List.lookup name) stocked.bound
  rw [Execution.Inventory.lookup_map Binding.storage, found, List.lookup_append,
    lookup_rows] at bound
  cases format : (formatGlobals.map fun g => (g.name, g.address)).lookup name with
  | some v =>
    rw [format] at bound
    obtain ⟨g, member, entry⟩ := List.mem_map.mp (Execution.Inventory.mem_of_lookup format)
    injection entry with key address
    exact .inl ⟨g, member, key.symm, (Option.some.inj bound).trans address.symm⟩
  | none =>
    rw [format] at bound
    refine .inr ⟨Bool.eq_false_iff.mpr fun is => ?_, bound.symm⟩
    obtain ⟨entry, member, rfl⟩ := List.mem_map.mp (isFormat_iff.mp is)
    have among := List.mem_map_of_mem (f := fun g : Global => (g.name, g.address))
      (List.mem_map_of_mem member : (⟨entry.1, .ofText entry.2, true⟩ : Global) ∈ formatGlobals)
    exact absurd (List.lookup_eq_none_iff.mp format _ among) (by simp)

/-- A format is bound to its global. -/
theorem lookup_format (stocked : Stocked d T) {name : String} {b : Binding}
    (found : d.bindings.lookup name = some b) (format : isFormat name = true) :
    ∃ length, b.storage = .global name (.ptr (.array length .i8)) := by
  rcases stocked.lookup_storage found with ⟨g, member, rfl, address⟩ | ⟨other, _⟩
  · obtain ⟨entry, _, rfl⟩ := List.mem_map.mp member
    exact ⟨_, address⟩
  · rw [format] at other
    cases other

/-- Any other name is bound to the global in its row. -/
theorem lookup_declared (stocked : Stocked d T) {name : String} {b : Binding}
    (found : d.bindings.lookup name = some b) (other : isFormat name = false) :
    ∃ cell g, T.find? (·.1.name? = some name) = some (.declared name cell, g) ∧
      b.storage = g.address ∧ g.init = cell.zero := by
  rcases stocked.lookup_storage found with ⟨g, member, rfl, _⟩ | ⟨_, same⟩
  · obtain ⟨entry, among, rfl⟩ := List.mem_map.mp member
    rw [isFormat_iff.mpr (List.mem_map.mpr ⟨entry, among, rfl⟩)] at other
    cases other
  · obtain ⟨⟨item, g⟩, row, address⟩ := Option.map_eq_some_iff.mp same
    have key := List.find?_some row
    cases item with
    | literal text => simp at key
    | declared x cell =>
      obtain rfl : x = name := by simpa using key
      exact ⟨cell, g, row, address.symm, (stocked.kept _ (List.mem_of_find?_eq_some row)).init⟩

end Stocked

end Pseudocode.Globals
