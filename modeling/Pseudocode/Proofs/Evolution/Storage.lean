import Pseudocode.Proofs.Evolution.Locality
import Pseudocode.Proofs.Globals.Stock

/-! # Variables and their storage

A declaration adds a global and then binds the name. If the name is taken, the global stays, and no
variable has its storage there.

* `carryOn`: statements are lowered one after the other, also behind one that fails.
* `State.cells`, `State.declared`: the globals that are no constants, and the variables of the root.
* `declarations`, `firstOf`: the declarations that are told of, and those of names that are new.
* `Accounted`: the cells are those of all declarations, the variables those of the first ones.
* `declared_accounted`: so it is in all states, and a declaration that is refused adds a cell.
-/

namespace Pseudocode.Lowering

open Assembly Globals

/-! ## States -/

/-- Lowers statements one after the other. What one that fails has left is gone on from. -/
def carryOn : List Statement → State → State
  | [], s => s
  | next :: rest, s =>
    match statement next s with
    | .ok _ s' => carryOn rest s'
    | .error _ s' => carryOn rest s'

/-- The addresses of the globals that are no constants. -/
def cellsOf (globals : List Global) : List Value :=
  (globals.filter (!·.constant)).map Global.address

/-- The variables that a program has declared, each with its storage. -/
def declaredIn (bindings : List (String × Binding)) : List (String × Value) :=
  (bindings.filter (·.2.declaredAt.isSome)).map fun b => (b.1, b.2.storage)

def State.cells (s : State) : List Value := cellsOf s.target.globals

def State.declared (s : State) : List (String × Value) :=
  (s.scopes.scope? Scopes.root).toList.flatMap fun root => declaredIn root.bindings

/-! ## Declarations -/

/-- The name and the storage that the event tells of. -/
def declaration? : Event → Option (String × Value)
  | .declaredVariable name storage => some (name, storage)
  | _ => none

/-- The declarations that have been come to, also those that were refused. -/
def declarations (es : List Event) : List (String × Value) := es.filterMap declaration?

theorem declarations_append (es more : List Event) :
    declarations (es ++ more) = declarations es ++ declarations more :=
  List.filterMap_append

/-- The first declaration of each name, unless the name is taken before all of them. -/
def firstOf (taken : List String) : List (String × Value) → List (String × Value)
  | [] => []
  | d :: rest => if d.1 ∈ taken then firstOf taken rest else d :: firstOf (d.1 :: taken) rest

theorem firstOf_sublist (taken : List String) (ds : List (String × Value)) :
    (firstOf taken ds).Sublist ds := by
  induction ds generalizing taken with
  | nil => exact .slnil
  | cons d ds ih =>
    rw [firstOf]
    split
    · exact (ih taken).cons d
    · exact (ih _).cons_cons d

section

variable {taken : List String} {ds : List (String × Value)} {d : String × Value}

theorem firstOf_append_old (old : d.1 ∈ taken ∨ d.1 ∈ ds.map Prod.fst) :
    firstOf taken (ds ++ [d]) = firstOf taken ds := by
  induction ds generalizing taken with
  | nil => simpa [firstOf] using old
  | cons first ds ih =>
    rw [List.map_cons, List.mem_cons] at old
    rw [List.cons_append, firstOf, firstOf]
    split
    · rename_i before
      refine ih ?_
      obtain among | same | behind := old
      · exact .inl among
      · exact .inl (same ▸ before)
      · exact .inr behind
    · refine congrArg (first :: ·) (ih ?_)
      obtain among | same | behind := old
      · exact .inl (List.mem_cons_of_mem _ among)
      · exact .inl (same ▸ List.mem_cons_self)
      · exact .inr behind

theorem firstOf_append_new (fresh : d.1 ∉ taken) (new : d.1 ∉ ds.map Prod.fst) :
    firstOf taken (ds ++ [d]) = firstOf taken ds ++ [d] := by
  induction ds generalizing taken with
  | nil => simp [firstOf, fresh]
  | cons first ds ih =>
    rw [List.map_cons, List.mem_cons, not_or] at new
    rw [List.cons_append, firstOf, firstOf]
    split
    · exact ih fresh new.2
    · exact congrArg (first :: ·) (ih (by simp [new.1, fresh]) new.2)

/-- All declarations are first ones if no name is declared twice or is taken. -/
theorem firstOf_eq_self_iff : firstOf taken ds = ds ↔
    (ds.map Prod.fst).Nodup ∧ ∀ name ∈ ds.map Prod.fst, name ∉ taken := by
  induction ds generalizing taken with
  | nil => simp [firstOf]
  | cons d ds ih =>
    rw [firstOf]
    split
    · rename_i before
      refine ⟨fun same => ?_, fun distinct => absurd before (distinct.2 d.1 (by simp))⟩
      have lengths := (firstOf_sublist taken ds).length_le
      rw [same] at lengths
      exact absurd lengths (Nat.not_succ_le_self _)
    · rename_i fresh
      rw [List.cons.injEq, ih, List.map_cons, List.nodup_cons]
      simp only [List.mem_cons, not_or, true_and, forall_eq_or_imp]
      grind

end

/-! ## Drafts -/

def formatNames : List String := formats.map Prod.fst

/-- The cells of the draft are those of all declarations, and the variables those of the first ones.
    The names that are bound are those of the formats and of declarations. -/
structure Stored (d : Draft) : Prop where
  cells : cellsOf d.globals = (declarations d.events).map Prod.snd
  bound : declaredIn d.bindings = firstOf formatNames (declarations d.events)
  keys : ∀ name, name ∈ d.bindings.map Prod.fst ↔
    name ∈ formatNames ∨ name ∈ (declarations d.events).map Prod.fst
  distinct : d.target.names.Nodup

namespace Stored

variable {d d' : Draft}

theorem initial : Stored .initial where
  cells := rfl
  bound := rfl
  keys name := (or_iff_left List.not_mem_nil).symm
  distinct := by decide

/-- Nothing of that has changed, and no declaration has been come to. -/
theorem same (stored : Stored d) (globals : d'.globals = d.globals)
    (bindings : d'.bindings = d.bindings)
    (events : declarations d'.events = declarations d.events) : Stored d' where
  cells := by rw [globals, events, stored.cells]
  bound := by rw [bindings, events, stored.bound]
  keys := by
    rw [bindings, events]
    exact stored.keys
  distinct := by
    rw [names_target, globals]
    exact stored.distinct

theorem declarations_other (es : List Event) {e : Event} (other : declaration? e = none) :
    declarations (es ++ [e]) = declarations es := by
  simp [declarations, other]

theorem addString (stored : Stored d) (text : String) : Stored (d.addString text) where
  cells := by
    have constant : cellsOf (d.globals ++ [d.literal text]) = cellsOf d.globals := by
      simp [cellsOf, Draft.literal, Draft.newGlobal, Module.newGlobal]
    exact constant.trans (stored.cells.trans (congrArg _ (declarations_other _ rfl).symm))
  bound := stored.bound.trans (congrArg _ (declarations_other _ rfl).symm)
  keys name := by
    have events : declarations (d.addString text).events = declarations d.events :=
      declarations_other _ rfl
    rw [events]
    exact stored.keys name
  distinct := nodup_names d _ _ _ stored.distinct

/-- A declaration adds a cell, whether the name is bound then or not. -/
theorem addVariable (stored : Stored d) (name : String) (init : Initializer) :
    cellsOf (d.addVariable name init).globals =
      (declarations (d.addVariable name init).events).map Prod.snd := by
  have events : declarations (d.addVariable name init).events =
      declarations d.events ++ [(name, (d.newGlobal name init false).address)] :=
    declarations_append d.events _
  rw [events, List.map_append, ← stored.cells]
  simp [cellsOf, Draft.addVariable, Draft.newGlobal, Module.newGlobal]

theorem unknown (stored : Stored d) {name : String} (new : d.bindings.lookup name = none) :
    name ∉ formatNames ∧ name ∉ (declarations d.events).map Prod.fst := by
  rw [← not_or, ← stored.keys]
  intro member
  obtain ⟨b, among, rfl⟩ := List.mem_map.mp member
  simpa using List.lookup_eq_none_iff.mp new b among

theorem known (stored : Stored d) {name : String} {old : Binding}
    (taken : d.bindings.lookup name = some old) :
    name ∈ formatNames ∨ name ∈ (declarations d.events).map Prod.fst :=
  (stored.keys name).mp (List.mem_map_of_mem (Execution.Inventory.mem_of_lookup taken))

theorem declare (stored : Stored d) (pos : Position) {name : String} (init : Initializer)
    (new : d.bindings.lookup name = none) : Stored (d.declare pos name init) where
  cells := stored.addVariable name init
  bound := by
    obtain ⟨noFormat, first⟩ := stored.unknown new
    have bindings : declaredIn (d.declare pos name init).bindings =
        declaredIn d.bindings ++ [(name, (d.newGlobal name init false).address)] := by
      simp [declaredIn, Draft.declare, Draft.newBinding]
    rw [bindings, stored.bound]
    exact ((congrArg _ (declarations_append d.events _)).trans
      (firstOf_append_new noFormat first)).symm
  keys other := by
    have bindings : (d.declare pos name init).bindings.map Prod.fst =
        d.bindings.map Prod.fst ++ [name] := List.map_append
    have events : (declarations (d.declare pos name init).events).map Prod.fst =
        (declarations d.events).map Prod.fst ++ [name] :=
      (congrArg _ (declarations_append d.events _)).trans List.map_append
    rw [bindings, events, List.mem_append, List.mem_append, stored.keys, or_assoc]
  distinct := nodup_names d _ _ _ stored.distinct

/-- A declaration that is refused adds a cell that no variable has. -/
theorem refuse (stored : Stored d) {name : String} {old : Binding} (init : Initializer)
    (taken : d.bindings.lookup name = some old) : Stored (d.addVariable name init) where
  cells := stored.addVariable name init
  bound := stored.bound.trans ((congrArg _ (declarations_append d.events _)).trans
    (firstOf_append_old (stored.known taken))).symm
  keys other := by
    have events : (declarations (d.addVariable name init).events).map Prod.fst =
        (declarations d.events).map Prod.fst ++ [name] :=
      (congrArg _ (declarations_append d.events _)).trans List.map_append
    have bindings : (d.addVariable name init).bindings = d.bindings := rfl
    rw [bindings, stored.keys, events, List.mem_append, List.mem_singleton, ← or_assoc]
    refine (or_iff_left_of_imp ?_).symm
    rintro rfl
    exact stored.known taken
  distinct := nodup_names d _ _ _ stored.distinct

end Stored

/-- Whatever is lowered, cells and variables remain those of declarations. -/
theorem Evolves.stored {own : Nat → Prop} {named : String → Prop} {d d' : Draft}
    (evolves : Evolves own named d d') (stored : Stored d) : Stored d' := by
  -- Only a string and a declaration change the tables. A scope tells of its end, which is no
  -- declaration.
  induction evolves with
  | refl d => exact stored
  | trans _ _ ih ih₁ => exact ih₁ (ih stored)
  | freshTemp d => exact stored.same rfl rfl rfl
  | push _ _ _ => exact stored.same rfl rfl rfl
  | terminate _ _ _ => exact stored.same rfl rfl rfl
  | enter d _ => exact stored.same rfl rfl rfl
  | addString d text => exact stored.addString text
  | declare d pos init _ new => exact stored.declare pos init new
  | refuse d init _ taken => exact stored.refuse init taken
  | ignore d name type => exact stored.same rfl rfl (Stored.declarations_other _ rfl)
  | addBlock d => exact stored.same rfl rfl (Stored.declarations_other _ rfl)
  | scope _ ih =>
    have inner := ih (stored.same rfl rfl (Stored.declarations_other _ rfl))
    exact inner.same rfl rfl (Stored.declarations_other _ rfl)

/-- Statements that are gone on from, whatever becomes of them, lead to a draft. -/
theorem carryOn_evolves (ss : List Statement) {d : Draft} (takes : d.Takes) :
    ∃ d', Evolves d.owns anyName d d' ∧ d'.Takes ∧ carryOn ss d.state = d'.state := by
  induction ss generalizing d with
  | nil => exact ⟨d, .refl d, takes, rfl⟩
  | cons s ss ih =>
    have evolving : Evolving anyName (statement s) := statement_evolving s fun _ _ _ => trivial
    obtain ⟨d₁, first, ends⟩ := evolving d takes
    have takes₁ : d₁.Takes := ends.elim And.right And.right
    obtain ⟨d₂, rest, takes₂, whole⟩ := ih takes₁
    refine ⟨d₂, first.next rest, takes₂, ?_⟩
    rw [carryOn]
    obtain ⟨⟨_, done⟩, _⟩ | ⟨⟨_, failed⟩, _⟩ := ends
    · rw [done]
      exact whole
    · rw [failed]
      exact whole

/-! ## Reached states -/

/-- The cells are those of all declarations that have been come to, each with a cell of its own, and
    the variables are those of the first ones. So each variable has a cell of its own, and there are
    as many variables as cells exactly if no name was taken. -/
structure Accounted (s : State) : Prop where
  cells : s.cells = (declarations s.events).map Prod.snd
  distinct : s.cells.Nodup
  bound : s.declared = firstOf formatNames (declarations s.events)
  stored : (s.declared.map Prod.snd).Sublist s.cells
  exact_iff : s.declared.map Prod.snd = s.cells ↔
    (formatNames ++ (declarations s.events).map Prod.fst).Nodup

theorem Stored.accounted {d : Draft} (stored : Stored d) : Accounted d.state := by
  have declared : d.state.declared = firstOf formatNames (declarations d.events) := by
    rw [← stored.bound]
    exact List.append_nil _
  have storages : (d.state.declared.map Prod.snd).Sublist d.state.cells := by
    rw [declared, State.cells]
    exact stored.cells.symm ▸ (firstOf_sublist _ _).map Prod.snd
  refine ⟨stored.cells, ?_, declared, storages, ?_⟩
  · have names := (List.nodup_append.mp (names_target d ▸ stored.distinct)).1
    have named : (d.globals.map Global.address).map globalName? =
        (d.globals.map Global.name).map some := by
      simp [Global.address, globalName?]
    have addresses : (d.globals.map Global.address).Nodup :=
      .of_map globalName? (named ▸ names.map fun _ _ => Option.some.inj)
    exact addresses.sublist (List.filter_sublist.map _)
  · have all : d.state.declared.map Prod.snd = d.state.cells ↔
        firstOf formatNames (declarations d.events) = declarations d.events := by
      rw [declared, State.cells, show cellsOf d.state.target.globals = _ from stored.cells]
      refine ⟨fun same => (firstOf_sublist _ _).eq_of_length ?_, fun same => congrArg _ same⟩
      simpa using congrArg List.length same
    have distinct : formatNames.Nodup := by decide
    rw [all, firstOf_eq_self_iff, List.nodup_append]
    constructor
    · rintro ⟨names, other⟩
      exact ⟨distinct, names, fun a format b among same => other b among (same ▸ format)⟩
    · rintro ⟨_, names, other⟩
      exact ⟨names, fun name among format => other name format name among rfl⟩

/-- One more cell is there, which is told of as that of the name, and nothing else has changed. -/
def AddsCell (name : String) (s s' : State) : Prop :=
  ∃ g : Global, g.constant = false ∧ g.name ∉ s.target.names ∧
    s' = { s with
      target := { s.target with
        globals := s.target.globals ++ [g]
        symbols := g.name :: s.target.symbols }
      events := s.events ++ [.declaredVariable name g.address] }

theorem addsCell_of_error {d : Draft} {pos : Position} {name : String} {type : DeclaredType}
    {e : Diagnostic} {s : State} (refused : declare pos name type d.state = .error e s) :
    AddsCell name d.state s := by
  cases initial : initializer? type with
  | none =>
    rw [declare, initial] at refused
    cases refused
  | some init =>
    cases found : d.bindings.lookup name with
    | none => cases refused.symm.trans (declare_new pos initial found)
    | some old =>
      cases refused.symm.trans (declare_old pos initial found)
      have added : (d.addVariable name init).target = d.target.addGlobal name init false :=
        (Module.addGlobal_ofLists name init false).symm
      exact ⟨d.newGlobal name init false, rfl, newGlobal_notMem d name init false,
        congrArg (fun target => { (d.addVariable name init).state with target }) added⟩

/-- Whatever statements are lowered, and whichever of them fail, each variable that is declared has
    its storage in a global of its own that is no constant. There is one such global for each
    declaration that has been come to, so all of them are storage of variables exactly if no
    declaration was refused. One that is refused leaves scopes and counters as they were, but adds a
    global. -/
theorem declared_accounted (ss : List Statement) :
    ∃ s₀, start .empty = .ok () s₀ ∧ Accounted (carryOn ss s₀) ∧
      ∀ pos name type e s', statement (.declare pos name type) (carryOn ss s₀) = .error e s' →
        AddsCell name (carryOn ss s₀) s' := by
  obtain ⟨d, evolves, _, whole⟩ := carryOn_evolves ss (d := .initial) ready_initial.isOpen
  refine ⟨_, start_empty, ?_⟩
  rw [whole]
  refine ⟨(evolves.stored .initial).accounted, fun pos name type e s' refused => ?_⟩
  exact addsCell_of_error refused

/-- The draft behind one declaration. -/
def oneDeclared : Draft := Draft.initial.declare ⟨0, 1, 1⟩ "x" (.int 32 0)

theorem once_state :
    statement (.declare ⟨0, 1, 1⟩ "x" .int) Draft.initial.state = .ok () oneDeclared.state :=
  declare_new _ (rfl : initializer? .int = some (.int 32 0)) (by decide)

theorem twice_state : ∃ e, statement (.declare ⟨0, 1, 1⟩ "x" .int) oneDeclared.state =
    .error e (oneDeclared.addVariable "x" (.int 32 0)).state :=
  ⟨_, declare_old _ (rfl : initializer? .int = some (.int 32 0)) rfl⟩

/-- The second declaration of a variable is refused, and leaves a global without a variable. -/
theorem twice_accounted : ∃ s₀ s₂ e, start .empty = .ok () s₀ ∧
    statement (.declare ⟨0, 1, 1⟩ "x" .int) (carryOn [.declare ⟨0, 1, 1⟩ "x" .int] s₀) =
      .error e s₂ ∧
    AddsCell "x" (carryOn [.declare ⟨0, 1, 1⟩ "x" .int] s₀) s₂ ∧
    Accounted (carryOn [.declare ⟨0, 1, 1⟩ "x" .int] s₀) := by
  obtain ⟨s₀, started, accounted, refused⟩ := declared_accounted [.declare ⟨0, 1, 1⟩ "x" .int]
  obtain rfl : Draft.initial.state = s₀ := by simpa using start_empty.symm.trans started
  obtain ⟨e, failed⟩ := twice_state
  have once : carryOn [.declare ⟨0, 1, 1⟩ "x" .int] Draft.initial.state = oneDeclared.state := by
    rw [carryOn, once_state]
    rfl
  rw [← once] at failed
  exact ⟨_, _, e, started, failed, refused _ _ _ _ _ failed, accounted⟩

/-- So the globals that are no constants are not in step with the variables, and the module is not
    what it was. -/
theorem twice_out_of_step : ∃ s₀ s₁ s₂ e, start .empty = .ok () s₀ ∧
    statement (.declare ⟨0, 1, 1⟩ "x" .int) s₀ = .ok () s₁ ∧
    statement (.declare ⟨0, 1, 1⟩ "x" .int) s₁ = .error e s₂ ∧
    s₂.cells = [.global "x" (.ptr .i32), .global "x.1" (.ptr .i32)] ∧
    s₂.declared = [("x", .global "x" (.ptr .i32))] ∧ s₂.target ≠ s₁.target := by
  obtain ⟨e, failed⟩ := twice_state
  refine ⟨_, _, _, e, start_empty, once_state, failed, by decide +kernel, by decide +kernel, ?_⟩
  decide +kernel

end Pseudocode.Lowering
