import Pseudocode.Lowering.Statement

/-! # Drafts

Most of the state of a compilation never changes once the first statement is reached:
the functions that the language provides, the tree of scopes up to its depth and the
variables at its root, the function that is built. A `Draft` is what remains.

* `Module.ofLists` is a module in which no other names were given than those that it has.
* `Draft.state` is the state that a draft stands for.
* Each small step of the lowering is one operation on drafts (`emit_state`,
  `freshTemp_state`, `addBlock_state`, ...), so that no later proof unfolds a step again.
* `start_empty` and `finish_state` open and close a compilation.
-/

namespace Pseudocode

/-! ## Modules from their lists -/

namespace Assembly.Module

/-- The names of the globals and of the functions. -/
def names (m : Module) : List String := m.globals.map (·.name) ++ m.functions.map (·.name)

variable (globals : List Global) (functions : List Function)

/-- The module with the globals and the functions, all of whose names were given. -/
def ofLists : Module where
  globals := globals
  functions := functions
  symbols := (globals.map (·.name)).reverse ++ functions.map (·.name)

variable {globals functions}

theorem mem_symbols_ofLists {name : String} :
    name ∈ (ofLists globals functions).symbols ↔ name ∈ (ofLists globals functions).names := by
  simp [ofLists, names]

theorem addGlobal_ofLists (base : String) (init : Initializer) (constant : Bool) :
    (ofLists globals functions).addGlobal base init constant =
      ofLists (globals ++ [(ofLists globals functions).newGlobal base init constant])
        functions := by
  simp [ofLists, addGlobal]

end Assembly.Module

namespace Lowering

open Assembly

/-- A module in the making. `depth` is the number of scopes that are open below the root. -/
structure Draft where
  globals : List Global
  bindings : List (String × Binding)
  depth : Nat
  blocks : List Block
  block : BlockId
  temps : Nat
  strings : Nat
  events : List Event

namespace Draft

/-! ## The state of a draft -/

def main (d : Draft) : Function := ⟨mainSignature, d.blocks⟩

def target (d : Draft) : Assembly.Module :=
  .ofLists d.globals (builtins.map Function.declared ++ [d.main])

/-- A root with the variables, and below it a chain of so many scopes without any. -/
def chain (bindings : List (String × Binding)) (depth : Nat) : Scopes where
  opened := ⟨none, bindings⟩ :: (List.range depth).map fun i => ⟨some ⟨i⟩, []⟩
  functions := builtins.map fun f => (f.name, f)

/-- The state that the draft stands for. Names are looked up from the innermost scope. -/
def state (d : Draft) : State where
  target := d.target
  scopes := chain d.bindings d.depth
  scope := ⟨d.depth⟩
  function := ⟨builtins.length⟩
  block := d.block
  temps := d.temps
  strings := d.strings
  events := d.events

/-! ## Operations -/

/-- The name of the next temporary, as a value of the type. -/
def next (d : Draft) (t : Ty) : Value := .temp s!"t{d.temps}" t

def extend (code : List Instr) (b : Block) : Block := { b with instrs := b.instrs ++ code }

@[simp] theorem extend_nil : extend [] = id := by
  funext b
  simp [extend]

theorem extend_comp (code code' : List Instr) :
    extend code' ∘ extend code = extend (code ++ code') := by
  funext b
  simp [extend]

def push (d : Draft) (i : Instr) : Draft :=
  { d with blocks := d.blocks.modify d.block.index (extend [i]) }

/-- An instruction at the end of the current block that defines the next temporary. -/
def define (d : Draft) (t : Ty) (instr : Value → Instr) : Draft :=
  { d.push (instr (d.next t)) with temps := d.temps + 1 }

def terminate (d : Draft) (b : BlockId) (t : Terminator) : Draft :=
  { d with blocks := d.blocks.modify b.index fun block => { block with terminator := some t } }

def addBlock (d : Draft) : Draft :=
  { d with
    blocks := d.blocks ++ [.empty]
    events := d.events ++ [.allocatedBlock d.blocks.length] }

def enter (d : Draft) (b : BlockId) : Draft := { d with block := b }

def tell (d : Draft) (e : Event) : Draft := { d with events := d.events ++ [e] }

def openScope (d : Draft) : Draft :=
  { d with depth := d.depth + 1, events := d.events ++ [.enteredScope (d.depth + 2)] }

def closeScope (d : Draft) : Draft :=
  { d with depth := d.depth - 1, events := d.events ++ [.leftScope d.depth] }

/-- The global that is added under a name made from `base`. -/
def newGlobal (d : Draft) (base : String) (init : Initializer) (constant : Bool) : Global :=
  d.target.newGlobal base init constant

/-- The global of the next string literal. -/
def literal (d : Draft) (text : String) : Global :=
  d.newGlobal s!".str.{d.strings}" (.ofText text) true

def addString (d : Draft) (text : String) : Draft :=
  { d with
    globals := d.globals ++ [d.literal text]
    strings := d.strings + 1
    events := d.events ++ [.stringAdded (d.literal text).address] }

/-- The global of a variable, which is not bound to its name yet. -/
def addVariable (d : Draft) (name : String) (init : Initializer) : Draft :=
  let g := d.newGlobal name init false
  { d with
    globals := d.globals ++ [g]
    events := d.events ++ [.declaredVariable name g.address] }

/-- What the name of the next variable would stand for, declared at the place. -/
def newBinding (d : Draft) (pos : Position) (name : String) (init : Initializer) : Binding :=
  ⟨(d.newGlobal name init false).address, some pos⟩

/-- The variable is declared at the place. -/
def declare (d : Draft) (pos : Position) (name : String) (init : Initializer) : Draft :=
  { d.addVariable name init with
    bindings := d.bindings ++ [(name, d.newBinding pos name init)] }

/-- The block exists and still takes instructions. -/
def IsOpen (blocks : List Block) (b : BlockId) : Prop :=
  ∃ block, blocks[b.index]? = some block ∧ block.terminator = none

end Draft

/-! ## One step after the other -/

theorem bind_ok {α β : Type} {x : Lower α} {f : α → Lower β} {s s' : State} {a : α}
    (h : x s = .ok a s') : (x >>= f) s = f a s' := by
  show EStateM.bind x f s = _
  simp only [EStateM.bind, h]

theorem bind_error {α β : Type} {x : Lower α} {f : α → Lower β} {s s' : State}
    {e : Diagnostic} (h : x s = .error e s') : (x >>= f) s = .error e s' := by
  show EStateM.bind x f s = _
  simp only [EStateM.bind, h]

theorem get_bind {α : Type} {f : State → Lower α} {s : State} : (get >>= f) s = f s s := rfl

/-! ## The small steps -/

theorem tell_state (d : Draft) (e : Event) : tell e d.state = .ok () (d.tell e).state := rfl

theorem enterBlock_state (d : Draft) (b : BlockId) :
    enterBlock b d.state = .ok () (d.enter b).state := rfl

theorem addBlock_state (d : Draft) :
    addBlock d.state = .ok ⟨d.blocks.length⟩ d.addBlock.state := rfl

theorem freshTemp_state (d : Draft) (t : Ty) :
    freshTemp t d.state = .ok (d.next t) { d with temps := d.temps + 1 }.state := rfl

theorem openBlock_main {d : Draft} {b : BlockId} (h : Draft.IsOpen d.blocks b) :
    ∃ block, d.blocks[b.index]? = some block ∧ d.main.openBlock b = .ok block := by
  obtain ⟨block, found, isOpen⟩ := h
  exact ⟨block, found, by simp [Function.openBlock, Draft.main, found, isOpen]⟩

theorem modify_eq_set {α : Type} {l : List α} {i : Nat} {a : α} (f : α → α)
    (h : l[i]? = some a) : l.modify i f = l.set i (f a) := by
  apply List.ext_getElem?
  intro j
  rw [List.getElem?_modify, List.getElem?_set]
  by_cases same : i = j
  · subst same
    rw [if_pos rfl, if_pos (List.getElem?_eq_some_iff.mp h).1, h]
    simp
  · simp [same]

theorem push_main {d : Draft} (h : Draft.IsOpen d.blocks d.block) (i : Instr) :
    d.main.push d.block i = .ok (d.push i).main := by
  obtain ⟨block, found, taken⟩ := openBlock_main h
  show (d.main.openBlock d.block).map _ = _
  rw [taken]
  simp only [Except.map, Function.setBlock, Draft.main, Draft.push]
  rw [modify_eq_set _ found]
  rfl

theorem terminate_main {d : Draft} {b : BlockId} (h : Draft.IsOpen d.blocks b)
    (t : Terminator) : d.main.terminate b t = .ok (d.terminate b t).main := by
  obtain ⟨block, found, taken⟩ := openBlock_main h
  show (d.main.openBlock b).map _ = _
  rw [taken]
  simp only [Except.map, Function.setBlock, Draft.main, Draft.terminate]
  rw [modify_eq_set _ found]

theorem emit_state {d : Draft} (h : Draft.IsOpen d.blocks d.block) (i : Instr) :
    emit i d.state = .ok () (d.push i).state := by
  have pushed : ofFault (d.main.push d.block i) d.state = .ok (d.push i).main d.state := by
    rw [push_main h]
    rfl
  exact bind_ok pushed

theorem terminateAt_state {d : Draft} {b : BlockId} (h : Draft.IsOpen d.blocks b)
    (t : Terminator) : terminateAt b t d.state = .ok () (d.terminate b t).state := by
  have ended : ofFault (d.main.terminate b t) d.state = .ok (d.terminate b t).main d.state := by
    rw [terminate_main h]
    rfl
  exact bind_ok ended

theorem terminate_state {d : Draft} (h : Draft.IsOpen d.blocks d.block) (t : Terminator) :
    terminate t d.state = .ok () (d.terminate d.block t).state :=
  terminateAt_state h t

/-- An instruction that defines a new temporary, which is the result. -/
theorem define_state {d : Draft} (h : Draft.IsOpen d.blocks d.block) (t : Ty)
    (instr : Value → Instr) :
    (do let dst ← freshTemp t; emit (instr dst); return dst : Lower Value) d.state =
      .ok (d.next t) (d.define t instr).state := by
  have emitted : emit (instr (d.next t)) { d with temps := d.temps + 1 }.state =
      .ok () (d.define t instr).state := emit_state (d := { d with temps := d.temps + 1 }) h _
  rw [bind_ok (freshTemp_state d t)]
  exact bind_ok emitted

theorem addGlobal_state (d : Draft) (base : String) (init : Initializer) (constant : Bool) :
    addGlobal base init constant d.state = .ok (d.newGlobal base init constant).address
      { d with globals := d.globals ++ [d.newGlobal base init constant] }.state := by
  have added : d.state.target.addGlobal base init constant =
      Draft.target { d with globals := d.globals ++ [d.newGlobal base init constant] } :=
    Module.addGlobal_ofLists base init constant
  unfold addGlobal
  rw [get_bind]
  simp only [added]
  rfl

theorem addString_state (d : Draft) (text : String) :
    addString text d.state = .ok (d.literal text).address (d.addString text).state := by
  show (addGlobal s!".str.{d.strings}" (.ofText text) true >>= fun address =>
    tell (.stringAdded address) >>= fun _ => pure address)
      { d with strings := d.strings + 1 }.state = _
  rw [bind_ok (addGlobal_state _ _ _ _)]
  rfl

/-- A declaration comes down to binding the name, with the global added before. -/
theorem declare_state {type : DeclaredType} {init : Initializer}
    (initial : initializer? type = some init) (d : Draft) (pos : Position) (name : String) :
    declare pos name type d.state = bindVariable Scopes.root name (d.newBinding pos name init) pos
      (d.addVariable name init).state := by
  simp only [declare, initial]
  rw [bind_ok (addGlobal_state d name init false)]
  rfl

/-! ## Scopes and names -/

theorem function?_state (d : Draft) (name : String) :
    function? name d.state = .ok ((builtins.map fun f => (f.name, f)).lookup name) d.state := rfl

theorem scope?_chain (bindings : List (String × Binding)) {depth i : Nat} (h : i < depth) :
    (Draft.chain bindings depth).scope? ⟨i + 1⟩ = some ⟨some ⟨i⟩, []⟩ := by
  simp [Draft.chain, Scopes.scope?, h]

theorem resolveWithin_chain (bindings : List (String × Binding)) (depth : Nat) (name : String)
    {i : Nat} (h : i ≤ depth) :
    (Draft.chain bindings depth).resolveWithin name (i + 1) ⟨i⟩ = bindings.lookup name := by
  -- Induction on the scope that the search starts in; the fuel is always one ahead of it.
  induction i with
  | zero =>
    cases found : bindings.lookup name <;>
      simp [Scopes.resolveWithin, Scopes.scope?, Draft.chain, Scope.find?, found]
  | succ i ih =>
    rw [Scopes.resolveWithin, scope?_chain bindings (by omega)]
    exact ih (by omega)

theorem resolve?_state (d : Draft) (name : String) :
    resolve? name d.state = .ok (d.bindings.lookup name) d.state := by
  have resolved := resolveWithin_chain d.bindings d.depth name (Nat.le_refl _)
  have count : (Draft.chain d.bindings d.depth).depth = d.depth + 1 := by
    simp [Draft.chain, Scopes.depth]
  show EStateM.Result.ok ((Draft.chain d.bindings d.depth).resolve ⟨d.depth⟩ name) d.state = _
  rw [Scopes.resolve, count, resolved]

theorem openScope_chain (bindings : List (String × Binding)) (depth : Nat) :
    (Draft.chain bindings depth).openScope ⟨depth⟩ = Draft.chain bindings (depth + 1) := by
  simp [Draft.chain, Scopes.openScope, List.range_succ]

theorem close_chain (bindings : List (String × Binding)) (depth : Nat) :
    (Draft.chain bindings (depth + 1)).close ⟨depth + 1⟩ = Draft.chain bindings depth := by
  have last : (Draft.chain bindings (depth + 1)).opened =
      (Draft.chain bindings depth).opened ++ [⟨some ⟨depth⟩, []⟩] := by
    simp [Draft.chain, List.range_succ]
  have counted : (Draft.chain bindings (depth + 1)).opened.length = depth + 1 + 1 := by
    simp [Draft.chain]
  rw [Scopes.close, if_pos ⟨Nat.succ_ne_zero depth, counted.symm⟩, last, List.dropLast_concat]
  rfl

theorem length_chain (bindings : List (String × Binding)) (depth : Nat) :
    (Draft.chain bindings depth).opened.length = depth + 1 := by
  simp [Draft.chain]

theorem enterScope_state (d : Draft) : enterScope d.state = d.openScope.state := by
  have opened : d.state.scopes.openScope d.state.scope = Draft.chain d.bindings (d.depth + 1) :=
    openScope_chain d.bindings d.depth
  simp only [enterScope, opened, Scopes.depth, length_chain]
  simp [Draft.state, Draft.openScope, Draft.target, Draft.main, Scopes.nextScope, length_chain]

theorem leaveScope_state {d d' : Draft} (h : d'.depth = d.depth + 1) :
    leaveScope d.state d'.state = d'.closeScope.state := by
  have closed : d'.state.scopes.close d.state.scopes.nextScope =
      Draft.chain d'.bindings d.depth := by
    simp only [Draft.state, h, Scopes.nextScope, length_chain]
    exact close_chain d'.bindings d.depth
  simp only [leaveScope, closed, Scopes.depth, length_chain]
  simp [Draft.state, Draft.closeScope, Draft.target, Draft.main, h]

theorem inNewScope_ok {α : Type} {body : Lower α} {d d' : Draft} {a : α}
    (h : body d.openScope.state = .ok a d'.state) (depth : d'.depth = d.depth + 1) :
    inNewScope body d.state = .ok a d'.closeScope.state := by
  simp only [inNewScope, enterScope_state, h, leaveScope_state depth]

theorem inNewScope_error {α : Type} {body : Lower α} {d d' : Draft} {e : Diagnostic}
    (h : body d.openScope.state = .error e d'.state) (depth : d'.depth = d.depth + 1) :
    inNewScope body d.state = .error e d'.closeScope.state := by
  simp only [inNewScope, enterScope_state, h, leaveScope_state depth]

theorem bindVariable_ok {s : State} {scope : ScopeId} {name : String} {b : Binding}
    {scopes : Scopes} (pos : Position) (h : s.scopes.bindVariable scope name b = .ok scopes) :
    bindVariable scope name b pos s = .ok () { s with scopes } := by
  unfold bindVariable
  rw [get_bind]
  simp only [h]
  rfl

theorem bindFunction_ok {s : State} {scope : ScopeId} {name : String} {f : Signature}
    {scopes : Scopes} (pos : Position) (h : s.scopes.bindFunction scope name f = .ok scopes) :
    bindFunction scope name f pos s = .ok () { s with scopes } := by
  unfold bindFunction
  rw [get_bind]
  simp only [h]
  rfl

theorem bindVariable_new {d : Draft} {name : String} (b : Binding) (pos : Position)
    (h : d.bindings.lookup name = none) :
    bindVariable Scopes.root name b pos d.state =
      .ok () { d with bindings := d.bindings ++ [(name, b)] }.state := by
  have bound : d.state.scopes.bindVariable Scopes.root name b =
      .ok (Draft.chain (d.bindings ++ [(name, b)]) d.depth) := by
    simp [Scopes.bindVariable, Scopes.scope?, Scopes.root, Draft.state, Draft.chain, Scope.find?,
      h, Scope.bind]
  exact bindVariable_ok pos bound

theorem bindVariable_old {d : Draft} {name : String} {old : Binding} (b : Binding)
    (pos : Position) (h : d.bindings.lookup name = some old) :
    bindVariable Scopes.root name b pos d.state =
      .error (.resolution pos (.redefined .variable name old.declaredAt)) d.state := by
  have refused : d.state.scopes.bindVariable Scopes.root name b =
      .error (.redefinition name old.declaredAt) := by
    simp [Scopes.bindVariable, Scopes.scope?, Scopes.root, Draft.state, Draft.chain, Scope.find?, h]
  unfold bindVariable
  rw [get_bind]
  simp only [refused]
  rfl

/-! ## The beginning and the end -/

/-- The draft in front of the first statement: the formats, and an empty block. -/
def Draft.initial : Draft where
  globals := formats.map fun (name, text) => ⟨name, .ofText text, true⟩
  bindings := formats.map fun (name, text) =>
    (name, ⟨.global name (.ptr (Initializer.ofText text).type), none⟩)
  depth := 0
  blocks := [.empty]
  block := ⟨0⟩
  temps := 0
  strings := 0
  events := [.runtimeReady]

theorem provideFunction_ok {s : State} {f : Signature} (h : s.scopes.function? f.name = none) :
    provideFunction f s = .ok ()
      { s with
        target := s.target.addFunction (.declared f)
        scopes := { s.scopes with functions := s.scopes.functions ++ [(f.name, f)] } } := by
  have bound : s.scopes.bindFunction Scopes.root f.name f =
      .ok { s.scopes with functions := s.scopes.functions ++ [(f.name, f)] } := by
    simp [Scopes.bindFunction, Scopes.isRoot, Scopes.root, h]
  exact bindFunction_ok .nowhere bound

theorem provideFormat_ok {s : State} (root : Scope) {name text : String}
    (opened : s.scopes.opened = [root]) (fresh : name ∉ s.target.symbols)
    (new : root.bindings.lookup name = none) :
    provideFormat (name, text) s = .ok ()
      { s with
        target := { s.target with
          globals := s.target.globals ++ [⟨name, .ofText text, true⟩]
          symbols := name :: s.target.symbols }
        scopes := { s.scopes with
          opened := [root.bind name ⟨.global name (.ptr (Initializer.ofText text).type), none⟩] } } := by
  have named : s.target.newGlobal name (.ofText text) true = ⟨name, .ofText text, true⟩ := by
    simp [Module.newGlobal, Module.freshSymbol, Module.freshName, fresh]
  have bound : s.scopes.bindVariable Scopes.root name
      ⟨.global name (.ptr (Initializer.ofText text).type), none⟩ = .ok { s.scopes with
        opened := [root.bind name ⟨.global name (.ptr (Initializer.ofText text).type), none⟩] } := by
    simp [Scopes.bindVariable, Scopes.scope?, Scopes.root, opened, Scope.find?, new]
  have added : addGlobal name (.ofText text) true s =
      .ok (.global name (.ptr (Initializer.ofText text).type)) { s with
        target := { s.target with
          globals := s.target.globals ++ [⟨name, .ofText text, true⟩]
          symbols := name :: s.target.symbols } } := by
    unfold addGlobal
    rw [get_bind]
    simp only [Module.addGlobal, named]
    rfl
  exact (bind_ok added).trans (bindVariable_ok .nowhere bound)

/-- The state once all functions are declared and nothing else is. -/
def onlyFunctions : State :=
  { State.empty with
    target := .ofLists [] (builtins.map Function.declared)
    scopes := ⟨[⟨none, []⟩], builtins.map fun f => (f.name, f)⟩ }

theorem forM_builtins : builtins.forM provideFunction .empty = .ok () onlyFunctions := by
  show (provideFunction ⟨putsName, .i32, [.bytePtr], false⟩ >>= fun _ =>
    provideFunction ⟨printfName, .i32, [.bytePtr], true⟩ >>= fun _ =>
    provideFunction ⟨getcharName, .i32, [], false⟩ >>= fun _ => pure ()) State.empty = _
  rw [bind_ok (provideFunction_ok (by decide)), bind_ok (provideFunction_ok (by decide)),
    bind_ok (provideFunction_ok (by decide))]
  rfl

theorem forM_formats : formats.forM provideFormat onlyFunctions = .ok ()
    { onlyFunctions with
      target := .ofLists Draft.initial.globals (builtins.map Function.declared)
      scopes := Draft.chain Draft.initial.bindings 0 } := by
  show (provideFormat (intFormatName, "Int: %d\n") >>= fun _ =>
    provideFormat (realFormatName, "Real: %f\n") >>= fun _ => pure ()) onlyFunctions = _
  rw [bind_ok (provideFormat_ok ⟨none, []⟩ rfl (by decide) rfl),
    bind_ok (provideFormat_ok _ rfl (by decide) (by decide))]
  rfl

theorem provideAll_empty : provideAll .empty = .ok ()
    { onlyFunctions with
      target := .ofLists Draft.initial.globals (builtins.map Function.declared)
      scopes := Draft.chain Draft.initial.bindings 0
      events := [.runtimeReady] } := by
  show (builtins.forM provideFunction >>= fun _ => formats.forM provideFormat >>= fun _ =>
    tell .runtimeReady) State.empty = _
  rw [bind_ok forM_builtins, bind_ok forM_formats]
  rfl

theorem start_empty : start .empty = .ok () Draft.initial.state := by
  show (provideAll >>= fun _ => openMain) State.empty = _
  rw [bind_ok provideAll_empty]
  rfl

/-- The draft closed with the result of the main function. -/
def Draft.finished (d : Draft) : Draft := d.terminate d.block (.ret (.i32 0))

/-- Only the main function has blocks that could be open. -/
theorem verify_target {d : Draft} (ended : ∀ block ∈ d.blocks, block.terminator.isSome) :
    d.target.verify = .ok () := by
  have closed : Assembly.Module.openFault? d.main = none := by
    simpa [Assembly.Module.openFault?, Function.firstOpen?, Draft.main, List.findIdx?_eq_none_iff]
      using ended
  have found : d.target.functions.findSome? Assembly.Module.openFault? = none := by
    rw [Draft.target, Module.ofLists, List.findSome?_append, List.findSome?_eq_none_iff.mpr]
    · simp [closed]
    · intro f member
      obtain ⟨signature, _, rfl⟩ := List.mem_map.mp member
      rfl
  simp [Assembly.Module.verify, found]

/-- The module of a draft whose blocks are all ended but for the current one. -/
theorem finish_state {d : Draft} (h : Draft.IsOpen d.blocks d.block)
    (ended : ∀ block ∈ d.finished.blocks, block.terminator.isSome) :
    ∃ s, finish d.state = .ok d.finished.target s := by
  refine ⟨(d.finished.tell (.finished d.finished.blocks.length d.globals.length)).state, ?_⟩
  have verified : ofFault d.finished.target.verify d.finished.state = .ok () d.finished.state := by
    rw [verify_target ended]
    rfl
  rw [finish, bind_ok (terminate_state h _)]
  exact bind_ok verified

end Lowering

end Pseudocode
