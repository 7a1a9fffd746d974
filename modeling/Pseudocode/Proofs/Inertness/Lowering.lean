import Pseudocode.Proofs.Inertness.Congruence

/-! # The lowering sees the normal form only

Two runs of the lowering are compared, of one program and of another.

* `Alike x y`: from states that are the same without places, the steps `x` and `y` come to
  outcomes that are the same without places.
* `alike_congruence`: so it is with the small steps, and with all that is made of them.
* `statement_alike`, `block_alike`: statements are lowered like their normal form.
* `lower_same`: programs with one normal form are lowered alike.
-/

namespace Pseudocode

/-! ## States without places -/

def Binding.unplaced (b : Binding) : Binding :=
  { b with declaredAt := b.declaredAt.map fun _ => .nowhere }

def Scope.unplaced (s : Scope) : Scope :=
  { s with bindings := s.bindings.map fun entry => (entry.1, entry.2.unplaced) }

def ScopeFault.unplaced : ScopeFault → ScopeFault
  | .redefinition name previous => .redefinition name (previous.map fun _ => .nowhere)
  | fault => fault

theorem Diagnostic.unplaced_ofScopeFault (what : Noun) (pos : Position) (fault : ScopeFault) :
    (ofScopeFault what pos fault).unplaced = ofScopeFault what .nowhere fault.unplaced := by
  cases fault <;> rfl

theorem Scope.find?_unplaced (s : Scope) (name : String) :
    s.unplaced.find? name = (s.find? name).map Binding.unplaced := by
  obtain ⟨parent, bindings⟩ := s
  simp only [find?, unplaced]
  induction bindings with
  | nil => rfl
  | cons entry rest ih =>
    obtain ⟨key, b⟩ := entry
    simp only [List.map_cons, List.lookup_cons, ih]
    cases name == key <;> rfl

theorem Scope.bind_unplaced (s : Scope) (name : String) (b : Binding) :
    (s.bind name b).unplaced = s.unplaced.bind name b.unplaced := by
  simp [bind, unplaced]

namespace Scopes

def unplaced (t : Scopes) : Scopes := { t with opened := t.opened.map Scope.unplaced }

variable (t : Scopes)

@[simp] theorem depth_unplaced : t.unplaced.depth = t.depth := List.length_map _

@[simp] theorem nextScope_unplaced : t.unplaced.nextScope = t.nextScope :=
  congrArg ScopeId.mk t.depth_unplaced

@[simp] theorem scope?_unplaced (id : ScopeId) :
    t.unplaced.scope? id = (t.scope? id).map Scope.unplaced := List.getElem?_map

theorem openScope_unplaced (parent : ScopeId) :
    (t.openScope parent).unplaced = t.unplaced.openScope parent := by
  simp [openScope, unplaced, Scope.unplaced]

theorem close_unplaced (id : ScopeId) : (t.close id).unplaced = t.unplaced.close id := by
  unfold close
  split <;> simp_all [unplaced]

theorem bindVariable_unplaced (id : ScopeId) (name : String) (b : Binding) :
    t.unplaced.bindVariable id name b.unplaced =
      ((t.bindVariable id name b).map unplaced).mapError ScopeFault.unplaced := by
  unfold bindVariable
  rw [scope?_unplaced]
  cases t.scope? id with
  | none => rfl
  | some s =>
    simp only [Option.map_some, s.find?_unplaced]
    cases s.find? name with
    | none =>
      refine congrArg Except.ok ?_
      simp [unplaced, Scope.bind_unplaced, List.map_set]
    | some old => rfl

theorem resolveWithin_unplaced (name : String) (count : Nat) (id : ScopeId) :
    t.unplaced.resolveWithin name count id =
      (t.resolveWithin name count id).map Binding.unplaced := by
  induction count generalizing id with
  | zero => rfl
  | succ count ih =>
    simp only [resolveWithin, scope?_unplaced]
    cases t.scope? id with
    | none => rfl
    | some s =>
      simp only [Option.map_some, s.find?_unplaced]
      cases s.find? name with
      | some b => rfl
      | none =>
        obtain ⟨parent, bindings⟩ := s
        cases parent with
        | none => rfl
        | some parent => exact ih parent

theorem resolve_unplaced (id : ScopeId) (name : String) :
    t.unplaced.resolve id name = (t.resolve id name).map Binding.unplaced := by
  rw [resolve, depth_unplaced, resolveWithin_unplaced, resolve]

end Scopes

namespace Lowering

open Assembly

/-- The states are the same but for the events that led to them and the places of declarations. -/
structure Twins (s t : State) : Prop where
  target : s.target = t.target
  scopes : s.scopes.unplaced = t.scopes.unplaced
  scope : s.scope = t.scope
  function : s.function = t.function
  block : s.block = t.block
  temps : s.temps = t.temps
  strings : s.strings = t.strings

namespace Twins

variable {s t u : State}

theorem refl (s : State) : Twins s s := ⟨rfl, rfl, rfl, rfl, rfl, rfl, rfl⟩

theorem symm (twins : Twins s t) : Twins t s :=
  ⟨twins.target.symm, twins.scopes.symm, twins.scope.symm, twins.function.symm, twins.block.symm,
    twins.temps.symm, twins.strings.symm⟩

theorem trans (first : Twins s t) (second : Twins t u) : Twins s u :=
  ⟨first.target.trans second.target, first.scopes.trans second.scopes,
    first.scope.trans second.scope, first.function.trans second.function,
    first.block.trans second.block, first.temps.trans second.temps,
    first.strings.trans second.strings⟩

end Twins

/-- The outcomes are the same without places. -/
inductive SameOutcome {α : Type} : EStateM.Result Diagnostic State α →
    EStateM.Result Diagnostic State α → Prop where
  | ok {s t : State} (a : α) (twins : Twins s t) : SameOutcome (.ok a s) (.ok a t)
  | error {s t : State} {e e' : Diagnostic} (same : e.unplaced = e'.unplaced) :
      SameOutcome (.error e s) (.error e' t)

/-- From the same state without places the steps come to the same outcome without places. -/
def Alike {α : Type} (x y : Lower α) : Prop := ∀ s t, Twins s t → SameOutcome (x s) (y t)

section

variable {α β : Type} {x y : Lower α}

theorem alike_pure (a : α) : Alike (pure a) (pure a) := fun _ _ twins => .ok a twins

theorem alike_throw {e e' : Diagnostic} (same : e.unplaced = e'.unplaced) :
    Alike (throw e : Lower α) (throw e') := fun _ _ _ => .error same

theorem Alike.bind {f g : α → Lower β} (first : Alike x y) (rest : ∀ a, Alike (f a) (g a)) :
    Alike (x >>= f) (y >>= g) := by
  intro s t twins
  simp only [Bind.bind, EStateM.bind]
  cases hx : x s <;> cases hy : y t <;> have outcome := first s t twins <;>
    rw [hx, hy] at outcome <;> cases outcome
  case ok.ok a s' t' twins' => exact rest a s' t' twins'
  case error.error same => exact .error same

theorem alike_get_bind {f g : State → Lower β} (rest : ∀ s t, Twins s t → Alike (f s) (g t)) :
    Alike (get >>= f) (get >>= g) := fun s t twins => rest s t twins s t twins

theorem alike_modify {f g : State → State} (step : ∀ s t, Twins s t → Twins (f s) (g t)) :
    Alike (modify f) (modify g) := fun s t twins => .ok () (step s t twins)

theorem alike_set {s t : State} (twins : Twins s t) : Alike (set s : Lower Unit) (set t) :=
  fun _ _ _ => .ok () twins

end

/-! ## Small steps -/

section

variable {α : Type} (pos pos' : Position)

theorem tell_alike (e e' : Event) : Alike (tell e) (tell e') :=
  alike_modify fun _ _ twins => { twins with }

theorem tell_alike_pure (e : Event) : Alike (tell e) (pure ()) :=
  fun _ _ twins => .ok () { twins with }

theorem ofFault_alike (x : Except Fault α) : Alike (ofFault x) (ofFault x) := by
  cases x with
  | ok a => exact alike_pure a
  | error fault => exact alike_throw rfl

theorem getFunction_alike : Alike getFunction getFunction :=
  alike_get_bind fun _ _ twins => twins.target ▸ twins.function ▸ ofFault_alike _

theorem setFunction_alike (f : Function) : Alike (setFunction f) (setFunction f) :=
  alike_modify fun _ _ twins => { twins with
    target := by rw [twins.target, twins.function] }

theorem freshTemp_alike (type : Ty) : Alike (freshTemp type) (freshTemp type) := by
  refine alike_get_bind fun s t twins => ?_
  rw [twins.temps]
  exact Alike.bind (alike_set (by exact { twins with temps := rfl })) fun _ => alike_pure _

theorem addBlock_alike : Alike addBlock addBlock :=
  getFunction_alike.bind fun _ => (setFunction_alike _).bind fun _ =>
    (tell_alike _ _).bind fun _ => alike_pure _

theorem enterBlock_alike (b : BlockId) : Alike (enterBlock b) (enterBlock b) :=
  alike_modify fun _ _ twins => { twins with block := rfl }

theorem emit_alike (i : Instr) : Alike (emit i) (emit i) := by
  refine alike_get_bind fun s t twins => getFunction_alike.bind fun f => ?_
  rw [twins.block]
  exact (ofFault_alike _).bind setFunction_alike

theorem terminateAt_alike (b : BlockId) (t : Terminator) :
    Alike (terminateAt b t) (terminateAt b t) :=
  getFunction_alike.bind fun _ => (ofFault_alike _).bind setFunction_alike

theorem terminate_alike (t : Terminator) : Alike (terminate t) (terminate t) :=
  alike_get_bind fun _ _ twins => twins.block ▸ terminateAt_alike _ t

theorem addGlobal_alike (base : String) (init : Initializer) (constant : Bool) :
    Alike (addGlobal base init constant) (addGlobal base init constant) := by
  refine alike_get_bind fun s t twins => ?_
  rw [twins.target]
  exact Alike.bind (alike_set (by exact { twins with target := rfl })) fun _ => alike_pure _

theorem addString_alike (text : String) : Alike (addString text) (addString text) := by
  refine alike_get_bind fun s t twins => ?_
  rw [twins.strings]
  exact Alike.bind (alike_set (by exact { twins with strings := rfl })) fun _ =>
    (addGlobal_alike _ _ _).bind fun _ => (tell_alike _ _).bind fun _ => alike_pure _

/-- Without places both runs bind the same, so they succeed or fail together. -/
theorem bindVariable_alike (scope : ScopeId) (name : String) {b b' : Binding}
    (same : b.unplaced = b'.unplaced) :
    Alike (bindVariable scope name b pos) (bindVariable scope name b' pos') := by
  refine alike_get_bind fun s t twins => ?_
  have outcome : (((s.scopes.bindVariable scope name b).map Scopes.unplaced).mapError
        ScopeFault.unplaced) =
      ((t.scopes.bindVariable scope name b').map Scopes.unplaced).mapError
        ScopeFault.unplaced := by
    rw [← Scopes.bindVariable_unplaced, ← Scopes.bindVariable_unplaced, same, twins.scopes]
  cases hs : s.scopes.bindVariable scope name b <;>
    cases ht : t.scopes.bindVariable scope name b' <;>
    rw [hs, ht] at outcome
  case ok.ok scopes scopes' =>
    exact alike_set { twins with scopes := Except.ok.inj outcome }
  case error.error fault fault' =>
    refine alike_throw ?_
    rw [Diagnostic.unplaced_ofScopeFault, Diagnostic.unplaced_ofScopeFault,
      Except.error.inj outcome]
  all_goals cases outcome

theorem function?_alike (name : String) : Alike (function? name) (function? name) := by
  refine alike_get_bind fun s t twins => ?_
  have known : s.scopes.function? name = t.scopes.function? name :=
    congrArg (fun scopes => scopes.function? name) twins.scopes
  rw [known]
  exact alike_pure _

/-- The storage of a variable does not depend on the place of its declaration. -/
theorem resolve?_bind_alike {name : String} {f g : Option Binding → Lower α}
    (rest : ∀ b b', b.map Binding.storage = b'.map Binding.storage → Alike (f b) (g b')) :
    Alike (resolve? name >>= f) (resolve? name >>= g) := by
  refine alike_get_bind fun s t twins => rest _ _ ?_
  have same : (s.scopes.resolve s.scope name).map Binding.unplaced =
      (t.scopes.resolve t.scope name).map Binding.unplaced := by
    rw [← Scopes.resolve_unplaced, ← Scopes.resolve_unplaced, twins.scopes, twins.scope]
  have storages := congrArg (Option.map Binding.storage) same
  rwa [Option.map_map, Option.map_map] at storages

/-- The scope that is opened has the same number in both runs, so the same one is closed. -/
theorem Alike.inNewScope {x y : Lower α} (body : Alike x y) :
    Alike (inNewScope x) (inNewScope y) := by
  intro s t twins
  have depths : s.scopes.nextScope = t.scopes.nextScope := by
    rw [← s.scopes.nextScope_unplaced, twins.scopes, t.scopes.nextScope_unplaced]
  have outcome := body (enterScope s) (enterScope t) { twins with
    scopes := by simp only [enterScope, Scopes.openScope_unplaced, twins.scopes, twins.scope]
    scope := depths }
  unfold Lowering.inNewScope
  cases hx : x (enterScope s) <;> cases hy : y (enterScope t) <;>
    rw [hx, hy] at outcome <;> cases outcome
  case ok.ok a s' t' after =>
    exact .ok a { after with
      scopes := by simp only [leaveScope, Scopes.close_unplaced, depths, after.scopes]
      scope := twins.scope }
  case error.error same => exact .error same

end

theorem alike_congruence : Congruence Alike where
  returns := alike_pure
  fails := alike_throw
  seq := Alike.bind
  temp := freshTemp_alike
  instr := emit_alike
  string := addString_alike
  callee := function?_alike
  lookup := resolve?_bind_alike

/-! ## Statements -/

section

variable (pos pos' : Position)

theorem declare_alike (name : String) (type : DeclaredType) :
    Alike (declare pos name type) (declare pos' name type) := by
  unfold declare
  split
  · exact tell_alike _ _
  · exact (addGlobal_alike _ _ _).bind fun storage => (tell_alike _ _).bind fun _ =>
      bindVariable_alike pos pos' _ name rfl

theorem condition_alike (construct : Construct) (e : Expression) :
    Alike (condition pos construct e) (condition pos' construct e.normalize) :=
  condition_congr alike_congruence pos pos' construct e

variable {x y x' y' : Lower Unit} (e : Expression)

theorem ifElse_alike (thenBranch : Alike x y) (elseBranch : Alike x' y') :
    Alike (ifElse pos e x x') (ifElse pos' e.normalize y y') := by
  refine (condition_alike pos pos' .if e).bind fun cond => alike_get_bind fun s t twins => ?_
  dsimp only
  rw [twins.block]
  exact addBlock_alike.bind fun thenBlock => addBlock_alike.bind fun elseBlock =>
    addBlock_alike.bind fun next => (enterBlock_alike thenBlock).bind fun _ =>
    thenBranch.inNewScope.bind fun _ => (terminate_alike _).bind fun _ =>
    (enterBlock_alike elseBlock).bind fun _ => elseBranch.inNewScope.bind fun _ =>
    (terminate_alike _).bind fun _ => (terminateAt_alike _ _).bind fun _ => enterBlock_alike next

theorem whileLoop_alike (body : Alike x y) :
    Alike (whileLoop pos e x) (whileLoop pos' e.normalize y) :=
  addBlock_alike.bind fun condBlock => addBlock_alike.bind fun bodyBlock =>
    addBlock_alike.bind fun next => (terminate_alike _).bind fun _ =>
    (enterBlock_alike condBlock).bind fun _ =>
    (Alike.inNewScope ((condition_alike pos pos' .while e).bind fun _ =>
      (terminate_alike _).bind fun _ => (enterBlock_alike bodyBlock).bind fun _ =>
      body.bind fun _ => terminate_alike _)).bind fun _ => enterBlock_alike next

theorem repeatLoop_alike (body : Alike x y) :
    Alike (repeatLoop pos x e) (repeatLoop pos' y e.normalize) :=
  addBlock_alike.bind fun bodyBlock => addBlock_alike.bind fun next =>
    (terminate_alike _).bind fun _ => (enterBlock_alike bodyBlock).bind fun _ =>
    (Alike.inNewScope (body.bind fun _ =>
      (condition_alike pos pos' .repeat e).bind fun _ => terminate_alike _)).bind fun _ =>
    enterBlock_alike next

end

/-- To lower one statement is to lower a block of it. -/
theorem block_singleton (s : Statement) : block [s] = statement s := by
  rw [block]
  exact bind_pure_unit

theorem Alike.singleton {x : Lower Unit} {s : Statement} (same : Alike x (statement s)) :
    Alike x (block [s]) := by
  rwa [block_singleton]

theorem block_append (ss rest : List Statement) :
    block (ss ++ rest) = block ss >>= fun _ => block rest := by
  induction ss with
  | nil => rfl
  | cons s ss ih =>
    rw [List.cons_append, block, block, ih, bind_assoc]

mutual

/-- Events are not compared, and no alternative is lowered to the same blocks as an empty one. -/
theorem statement_alike : (s : Statement) → Alike (statement s) (block s.normalize)
  | .output pos e => Alike.singleton (output_congr alike_congruence pos .nowhere e)
  | .input _ k => Alike.singleton (input_congr alike_congruence k)
  | .declare _ _ (.custom _) => tell_alike_pure _
  | .declare pos name .int => Alike.singleton (declare_alike pos .nowhere name .int)
  | .declare pos name .real => Alike.singleton (declare_alike pos .nowhere name .real)
  | .declare pos name .bool => Alike.singleton (declare_alike pos .nowhere name .bool)
  | .assign _ k e => Alike.singleton (assign_congr alike_congruence k e)
  | .printInt pos e => Alike.singleton (printInt_congr alike_congruence pos .nowhere e)
  | .printReal pos e => Alike.singleton (printReal_congr alike_congruence pos .nowhere e)
  | .ifElse pos e thenBranch none =>
    Alike.singleton (ifElse_alike pos .nowhere e (block_alike thenBranch) (alike_pure ()))
  | .ifElse pos e thenBranch (some elseBranch) =>
    Alike.singleton (ifElse_alike pos .nowhere e (block_alike thenBranch) (block_alike elseBranch))
  | .while pos e body => Alike.singleton (whileLoop_alike pos .nowhere e (block_alike body))
  | .repeat pos body e => Alike.singleton (repeatLoop_alike pos .nowhere e (block_alike body))
  | .call _ callPos name args =>
    Alike.singleton (callStatement_congr alike_congruence callPos .nowhere name args)
  | .empty _ => alike_pure ()

theorem block_alike : (p : List Statement) → Alike (block p) (block (Program.normalize p))
  | [] => alike_pure ()
  | s :: rest => by
    rw [Program.normalize, block_append]
    exact (statement_alike s).bind fun _ => block_alike rest

end

theorem finish_alike : Alike finish finish := by
  refine (terminate_alike _).bind fun _ => alike_get_bind fun s t twins => ?_
  rw [twins.target]
  exact (ofFault_alike _).bind fun _ => getFunction_alike.bind fun _ =>
    (tell_alike _ _).bind fun _ => alike_pure _

/-! ## Programs -/

section

variable {α : Type}

theorem SameOutcome.symm {r r' : EStateM.Result Diagnostic State α} (same : SameOutcome r r') :
    SameOutcome r' r := by
  cases same with
  | ok a twins => exact .ok a twins.symm
  | error same => exact .error same.symm

theorem SameOutcome.trans {r r' r'' : EStateM.Result Diagnostic State α} (first : SameOutcome r r')
    (second : SameOutcome r' r'') : SameOutcome r r'' := by
  cases first with
  | ok a twins =>
    cases second with
    | ok a twins' => exact .ok a (twins.trans twins')
  | error same =>
    cases second with
    | error same' => exact .error (same.trans same')

variable {x y z : Lower α}

theorem Alike.symm (same : Alike x y) : Alike y x :=
  fun s t twins => (same t s twins.symm).symm

theorem Alike.trans (first : Alike x y) (second : Alike y z) : Alike x z :=
  fun s t twins => (first s t twins).trans (second t t (.refl t))

end

variable {p q : Program}

theorem block_alike_of_normalize (same : Program.normalize p = Program.normalize q) :
    Alike (block p) (block q) :=
  (block_alike p).trans (same ▸ (block_alike q).symm)

/-- What is built before the first statement does not depend on the program. -/
theorem program_same (same : Program.normalize p = Program.normalize q) (s : State) :
    SameOutcome (program p s) (program q s) := by
  have rest : Alike (block p >>= fun _ => finish) (block q >>= fun _ => finish) :=
    (block_alike_of_normalize same).bind fun _ => finish_alike
  simp only [program, Bind.bind, EStateM.bind] at rest ⊢
  cases start s with
  | ok a t => exact rest t t (.refl t)
  | error e t => exact .error rfl

/-- Programs with one normal form become the same module, or are refused with errors that are
    the same without places. -/
theorem lower_same (same : Program.normalize p = Program.normalize q) :
    (∃ m, (lower p).result = .ok m ∧ (lower q).result = .ok m) ∨
      ∃ e e', (lower p).result = .error e ∧ (lower q).result = .error e' ∧
        e.unplaced = e'.unplaced := by
  have outcome := program_same same .empty
  unfold lower
  cases hp : program p .empty <;> cases hq : program q .empty <;> rw [hp, hq] at outcome <;>
    cases outcome
  case ok.ok m _ _ _ => exact .inl ⟨m, rfl, rfl⟩
  case error.error e _ e' _ same => exact .inr ⟨e, e', rfl, rfl, same⟩

end Lowering

end Pseudocode
