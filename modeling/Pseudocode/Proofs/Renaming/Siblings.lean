import Pseudocode.Proofs.Renaming.Modules
import Pseudocode.Proofs.Renaming.Program

/-! # A program and its renamed one become siblings

The names of globals are made up on the way, from names that differ. So which global of the one
module answers to which of the other is only known once both are there, and is told by their
order.

* `Carries σ d d'`: the renaming takes the globals of the one draft to those of the other.
* `Siblings r d d'`: there is such a renaming, and any of them takes the draft to the other.
* `Emits.echo`, `LowersAll.siblings`: what the lowering leaves of siblings are siblings.
-/

namespace Pseudocode.Lowering

open Assembly Typing

/-! ## Siblings -/

def Carries (σ : String → String) (d d' : Draft) : Prop :=
  d'.globals.map Global.name = d.globals.map fun g => σ g.name

/-- The drafts are the same but for names. -/
structure Siblings (r : String → String) (d d' : Draft) : Prop where
  carries : ∃ σ, Carries σ d d'
  same : ∀ σ, Carries σ d d' → d' = d.rename r σ

section

variable {r : String → String} {d d' d₁ d₁' : Draft}

namespace Siblings

/-- Globals are only added, so what carries the last of them carries the first. -/
theorem carries_of_later (siblings : Siblings r d d') (grows : d.globals <+: d₁.globals)
    (grows' : d'.globals <+: d₁'.globals) {σ : String → String} (later : Carries σ d₁ d₁') :
    Carries σ d d' := by
  obtain ⟨τ, carries⟩ := siblings.carries
  have length := congrArg List.length carries
  obtain ⟨more, split⟩ := grows
  obtain ⟨more', split'⟩ := grows'
  rw [Carries, ← split, ← split', List.map_append, List.map_append] at later
  exact (List.append_inj later (by simpa using length)).1

theorem of_later (siblings : Siblings r d d') (grows : d.globals <+: d₁.globals)
    (grows' : d'.globals <+: d₁'.globals) {σ : String → String} (later : Carries σ d₁ d₁') :
    d' = d.rename r σ :=
  siblings.same σ (siblings.carries_of_later grows grows' later)

/-- A step that adds no global. -/
theorem step (siblings : Siblings r d d') (kept : d₁.globals = d.globals)
    (kept' : d₁'.globals = d'.globals)
    (same : ∀ σ, Carries σ d d' → d' = d.rename r σ → d₁' = d₁.rename r σ) : Siblings r d₁ d₁' := by
  have carries_iff {σ : String → String} : Carries σ d₁ d₁' ↔ Carries σ d d' := by
    rw [Carries, Carries, kept, kept']
  obtain ⟨σ, carries⟩ := siblings.carries
  exact ⟨⟨σ, carries_iff.mpr carries⟩, fun σ carries =>
    same σ (carries_iff.mp carries) (siblings.same σ (carries_iff.mp carries))⟩

/-- What carries the globals with a further one carries the further one. -/
theorem newGlobal_eq (siblings : Siblings r d d') {base base' : String} {init : Initializer}
    {constant : Bool} (added : d₁.globals = d.globals ++ [d.newGlobal base init constant])
    (added' : d₁'.globals = d'.globals ++ [d'.newGlobal base' init constant])
    {σ : String → String} (later : Carries σ d₁ d₁') :
    Carries σ d d' ∧
      d'.newGlobal base' init constant = (d.newGlobal base init constant).rename σ := by
  refine ⟨siblings.carries_of_later (added ▸ List.prefix_append _ _)
    (added' ▸ List.prefix_append _ _) later, ?_⟩
  rw [Carries, added, added', List.map_append, List.map_append] at later
  have name := (List.append_inj' later rfl).2
  simp only [List.map_cons, List.map_nil, List.cons.injEq, and_true] at name
  rw [Global.rename, ← name]
  rfl

/-- A global is added to each. Its name is new, so a renaming can be told where to take it. -/
theorem addGlobal (siblings : Siblings r d d') {base base' : String} {init : Initializer}
    {constant : Bool} (added : d₁.globals = d.globals ++ [d.newGlobal base init constant])
    (added' : d₁'.globals = d'.globals ++ [d'.newGlobal base' init constant])
    (same : ∀ σ, d' = d.rename r σ →
      d'.newGlobal base' init constant = (d.newGlobal base init constant).rename σ →
      d₁' = d₁.rename r σ) : Siblings r d₁ d₁' := by
  obtain ⟨σ, carries⟩ := siblings.carries
  constructor
  · refine ⟨Function.update σ (d.newGlobal base init constant).name
      (d'.newGlobal base' init constant).name, ?_⟩
    rw [Carries, added, added', List.map_append, List.map_append, carries]
    refine congrArg₂ (· ++ ·) (List.map_congr_left fun g member => ?_) ?_
    · have new : (d.newGlobal base init constant).name ∉ d.globals.map Global.name := fun old =>
        newGlobal_notMem d base init constant (List.mem_append_left _ old)
      refine (Function.update_of_ne (fun taken => new ?_) _ _).symm
      exact taken ▸ List.mem_map_of_mem member
    · simp
  · intro σ later
    obtain ⟨before, further⟩ := siblings.newGlobal_eq added added' later
    exact same σ (siblings.same σ before) further

end Siblings

/-! ## Names -/

theorem lookup_rename_bindings (injective : Function.Injective r) (σ : String → String)
    (d : Draft) (name : String) :
    (d.rename r σ).bindings.lookup (r name) = (d.bindings.lookup name).map (Binding.rename σ) := by
  show (d.bindings.map _).lookup _ = _
  induction d.bindings with
  | nil => rfl
  | cons entry rest ih =>
    have same : (r name == r entry.1) = (name == entry.1) := by
      rw [Bool.eq_iff_iff, beq_iff_eq, beq_iff_eq]
      exact injective.eq_iff
    rw [List.map_cons, List.lookup_cons, List.lookup_cons, same, ih]
    cases name == entry.1 <;> rfl

section

variable {f : Key → Key} {name name' : String} {b b' : Binding}

/-- What a variable and its renamed one are bound to. -/
theorem Siblings.binding (siblings : Siblings r d d') (renames : Renames r f)
    (named : name' = r name) (found : d.bindings.lookup name = some b)
    (found' : d'.bindings.lookup name' = some b') {σ : String → String}
    (carries : Carries σ d d') : b' = b.rename σ := by
  rw [siblings.same σ carries, named, lookup_rename_bindings renames.injective, found] at found'
  exact (Option.some.inj found').symm

/-- Their storage holds the same. -/
theorem Siblings.held_eq (siblings : Siblings r d d') (renames : Renames r f)
    (named : name' = r name) (found : d.bindings.lookup name = some b)
    (found' : d'.bindings.lookup name' = some b') {t t' : Ty} (held : b.storage.type = .ptr t)
    (held' : b'.storage.type = .ptr t') : t' = t := by
  obtain ⟨σ, carries⟩ := siblings.carries
  rw [siblings.binding renames named found found' carries] at held'
  exact Ty.ptr.inj (held'.symm.trans ((Value.type_rename σ b.storage).trans held))

end

theorem ne_array {κ : Kind} {size : Nat} (scalar : κ.isText = false) :
    κ.ty ≠ .array size .i8 := by
  cases κ <;> simp [Kind.ty]

/-! ## Values -/

/-- The values are the same but for names, in these drafts and any later ones. -/
structure Echo (r : String → String) (d d' : Draft) (v v' : Value) : Prop where
  siblings : Siblings r d d'
  value : ∀ σ, Carries σ d d' → v' = v.rename σ

variable {v v' : Value} {κ κ' : Kind}

theorem Echo.later (echo : Echo r d d' v v') (grows : d.globals <+: d₁.globals)
    (grows' : d'.globals <+: d₁'.globals) : ∀ σ, Carries σ d₁ d₁' → v' = v.rename σ :=
  fun σ later => echo.value σ (echo.siblings.carries_of_later grows grows' later)

theorem Kind.ty_injective {κ κ' : Kind} (same : κ.ty = κ'.ty) : κ = κ' := by
  cases κ <;> cases κ' <;> simp_all [Kind.ty]

theorem Echo.kind_eq (echo : Echo r d d' v v') (typed : v.type = κ.ty) (typed' : v'.type = κ'.ty) :
    κ' = κ := by
  obtain ⟨σ, carries⟩ := echo.siblings.carries
  rw [echo.value σ carries, Value.type_rename, typed] at typed'
  exact (Kind.ty_injective typed').symm

theorem Siblings.next_eq (siblings : Siblings r d d') (t : Ty) : d'.next t = d.next t := by
  obtain ⟨σ, carries⟩ := siblings.carries
  rw [siblings.same σ carries]
  rfl

theorem Siblings.define (siblings : Siblings r d d') {t : Ty} {instr instr' : Value → Instr}
    (same : ∀ σ, Carries σ d d' → (instr (d.next t)).rename σ = instr' (d.next t)) :
    Siblings r (d.define t instr) (d'.define t instr') :=
  siblings.step rfl rfl fun σ carries eq => by rw [eq, Draft.rename_define r σ d t (same σ carries)]

theorem Echo.define (siblings : Siblings r d d') {t : Ty} {instr instr' : Value → Instr}
    (same : ∀ σ, Carries σ d d' → (instr (d.next t)).rename σ = instr' (d.next t)) :
    Echo r (d.define t instr) (d'.define t instr') (d.next t) (d'.next t) :=
  ⟨siblings.define same, fun _ _ => siblings.next_eq t⟩

theorem Siblings.push (siblings : Siblings r d d') {i i' : Instr}
    (same : ∀ σ, Carries σ d d' → i' = i.rename σ) : Siblings r (d.push i) (d'.push i') :=
  siblings.step rfl rfl fun σ carries eq => by rw [eq, same σ carries, Draft.rename_push]

theorem globals_widen (d : Draft) (κ κ' : Kind) (v : Value) :
    (d.widen κ κ' v).globals = d.globals := by
  unfold Draft.widen
  split <;> rfl

theorem globals_pass (d : Draft) (κ : Kind) (v : Value) : (d.pass κ v).globals = d.globals := by
  cases κ <;> rfl

theorem globals_passAll (d : Draft) (vs : List (Kind × Value)) :
    (d.passAll vs).globals = d.globals := by
  induction vs generalizing d with
  | nil => rfl
  | cons v vs ih => exact (ih _).trans (globals_pass d _ _)

theorem Siblings.widen (siblings : Siblings r d d') (κ κ' : Kind)
    (value : ∀ σ, Carries σ d d' → v' = v.rename σ) :
    Siblings r (d.widen κ κ' v) (d'.widen κ κ' v') :=
  siblings.step (globals_widen d κ κ' v) (globals_widen d' κ κ' v') fun σ carries eq => by
    rw [value σ carries, eq, Draft.rename_widen]

theorem Carries.of_kept {σ : String → String} (kept : d₁.globals = d.globals)
    (kept' : d₁'.globals = d'.globals) (carries : Carries σ d₁ d₁') : Carries σ d d' := by
  rwa [Carries, kept, kept'] at carries

/-- Operands that differ in names only are brought to one kind and worked on. -/
theorem Echo.operator {lhs lhs' rhs rhs' : Value} (echo : Echo r d d' rhs rhs')
    (left : ∀ σ, Carries σ d d' → lhs' = lhs.rename σ) (op : Operator) (κl κr κ : Kind) (t : Ty) :
    Echo r
      (((d.widen κl κ lhs).widen κr κ rhs).define t
        (operatorInstr op κ (d.widened κl κ lhs) ((d.widen κl κ lhs).widened κr κ rhs)))
      (((d'.widen κl κ lhs').widen κr κ rhs').define t
        (operatorInstr op κ (d'.widened κl κ lhs') ((d'.widen κl κ lhs').widened κr κ rhs')))
      (((d.widen κl κ lhs).widen κr κ rhs).next t)
      (((d'.widen κl κ lhs').widen κr κ rhs').next t) := by
  have back {σ : String → String} (carries : Carries σ (d.widen κl κ lhs) (d'.widen κl κ lhs')) :
      Carries σ d d' := carries.of_kept (globals_widen _ _ _ _) (globals_widen _ _ _ _)
  have wide := echo.siblings.widen κl κ left
  have wider := wide.widen κr κ fun σ carries => echo.value σ (back carries)
  refine .define wider fun σ carries => ?_
  have atWide := carries.of_kept (globals_widen _ _ _ _) (globals_widen _ _ _ _)
  rw [rename_operatorInstr, Draft.rename_widened r, Draft.rename_widened r, ← wide.same σ atWide,
    ← echo.siblings.same σ (back atWide), ← left σ (back atWide), ← echo.value σ (back atWide)]
  rfl

/-- Arguments that differ in names only are passed to a function. -/
theorem Echo.call (siblings : Siblings r d d') {vs vs' : List (Kind × Value)}
    (values : ∀ σ, Carries σ d d' → vs' = Draft.renameAll σ vs) (g : Signature) :
    Echo r ((d.passAll vs).define .i32 fun dst => .call (some dst) g (d.passedAll vs))
      ((d'.passAll vs').define .i32 fun dst => .call (some dst) g (d'.passedAll vs'))
      ((d.passAll vs).next .i32) ((d'.passAll vs').next .i32) := by
  have passed : Siblings r (d.passAll vs) (d'.passAll vs') :=
    siblings.step (globals_passAll d vs) (globals_passAll d' vs') fun σ carries eq => by
      rw [values σ carries, eq, Draft.rename_passAll]
  refine .define passed fun σ carries => ?_
  have before := carries.of_kept (globals_passAll d vs) (globals_passAll d' vs')
  have args := Draft.rename_passedAll r σ d vs
  rw [← siblings.same σ before, ← values σ before] at args
  simp only [Instr.rename, args]
  rfl

theorem Siblings.addString (siblings : Siblings r d d') (s : String) :
    Echo r (d.addString s) (d'.addString s) (d.literal s).address (d'.literal s).address where
  siblings := siblings.addGlobal rfl rfl fun σ eq further => by
    have literal : d'.literal s = (d.literal s).rename σ := further
    subst eq
    simp only [Draft.addString, literal]
    simp [Draft.rename, Event.rename]
    rfl
  value := fun σ later => by
    have literal : d'.literal s = (d.literal s).rename σ := (siblings.newGlobal_eq rfl rfl later).2
    rw [literal]
    rfl

/-! ## Expressions -/

theorem Emits.globals_prefix {e : Expression} (h : Emits d e κ v d₁) :
    d.globals <+: d₁.globals := by
  obtain ⟨_, added⟩ := h.straight
  exact added.globals_prefix

theorem EmitsAll.globals_prefix {es : List Expression} {vs : List (Kind × Value)}
    (h : EmitsAll d es vs d₁) : d.globals <+: d₁.globals := by
  obtain ⟨_, added⟩ := h.straight
  exact added.globals_prefix

end

section

variable {r : String → String} {f : Key → Key}

mutual

/-- The values that an expression and its renamed one become differ in names only. -/
theorem Emits.echo (renames : Renames r f) {d d₁ : Draft} {e : Expression} {κ : Kind} {v : Value} :
    Emits d e κ v d₁ → ∀ {d' d₁' : Draft} {κ' : Kind} {v' : Value},
      Emits d' (e.rename f) κ' v' d₁' → Siblings r d d' → Echo r d₁ d₁' v v'
  | .bool b, _, _, _, _, second, siblings => by
    cases second
    exact ⟨siblings, fun _ _ => rfl⟩
  | .integer n, _, _, _, _, second, siblings => by
    cases second
    exact ⟨siblings, fun _ _ => rfl⟩
  | .real x, _, _, _, _, second, siblings => by
    cases second
    exact ⟨siblings, fun _ _ => rfl⟩
  | .string s, _, _, _, _, second, siblings => by
    cases second
    exact siblings.addString s
  | .text found held, _, _, _, _, second, siblings => by
    cases second with
    | text found' _ =>
      refine ⟨siblings, fun σ carries => ?_⟩
      rw [siblings.binding renames (renames.firstName _) found found' carries]
      rfl
    | load found' held' scalar =>
      exact absurd (siblings.held_eq renames (renames.firstName _) found found' held held')
        (ne_array scalar)
  | .load found held scalar, _, _, _, _, second, siblings => by
    cases second with
    | text found' held' =>
      exact absurd (siblings.held_eq renames (renames.firstName _) found found' held held').symm
        (ne_array scalar)
    | load found' held' scalar' =>
      obtain rfl := Kind.ty_injective
        (siblings.held_eq renames (renames.firstName _) found found' held held')
      exact .define siblings fun σ carries => by
        rw [siblings.binding renames (renames.firstName _) found found' carries]
        rfl
  | .parenthesized inner, _, _, _, _, second, siblings => by
    cases second with
    | parenthesized inner' => exact inner.echo renames inner' siblings
  | .not operand, _, _, _, _, second, siblings => by
    cases second with
    | not operand' =>
      have echo := operand.echo renames operand' siblings
      exact .define echo.siblings fun σ carries => by rw [echo.value σ carries]; rfl
  | .negate operand signed, _, _, _, _, second, siblings => by
    cases second with
    | negate operand' signed' =>
      have echo := operand.echo renames operand' siblings
      obtain rfl := echo.kind_eq operand.type_eq operand'.type_eq
      exact .define echo.siblings fun σ carries => by
        rw [echo.value σ carries, rename_negateInstr]
        rfl
  | .binary left right joined widenLeft widenRight, _, _, _, _, second, siblings => by
    cases second with
    | binary left' right' joined' widenLeft' widenRight' =>
      have echoLeft := left.echo renames left' siblings
      have echoRight := right.echo renames right' echoLeft.siblings
      obtain rfl := echoLeft.kind_eq left.type_eq left'.type_eq
      obtain rfl := echoRight.kind_eq right.type_eq right'.type_eq
      obtain rfl := Option.some.inj (joined.symm.trans joined')
      subst widenLeft widenRight widenLeft' widenRight'
      have valueLeft := echoLeft.later right.globals_prefix right'.globals_prefix
      exact .operator echoRight valueLeft _ _ _ _ _
  | .call args admitted known passed, _, _, _, _, second, siblings => by
    cases second with
    | call args' admitted' known' passed' =>
      obtain ⟨siblings₁, values⟩ := args.echo renames args' siblings
      obtain rfl := Option.some.inj (known.symm.trans known')
      subst passed passed'
      exact .call siblings₁ values _

theorem EmitsAll.echo (renames : Renames r f) {d d₁ : Draft} {es : List Expression}
    {vs : List (Kind × Value)} : EmitsAll d es vs d₁ →
    ∀ {d' d₁' : Draft} {vs' : List (Kind × Value)},
      EmitsAll d' (Expression.renameAll f es) vs' d₁' → Siblings r d d' →
      Siblings r d₁ d₁' ∧ ∀ σ, Carries σ d₁ d₁' → vs' = Draft.renameAll σ vs
  | .nil, _, _, _, second, siblings => by
    cases second
    exact ⟨siblings, fun _ _ => rfl⟩
  | .cons head tail, _, _, _, second, siblings => by
    cases second with
    | cons head' tail' =>
      have echo := head.echo renames head' siblings
      obtain ⟨siblings₂, values⟩ := tail.echo renames tail' echo.siblings
      obtain rfl := echo.kind_eq head.type_eq head'.type_eq
      refine ⟨siblings₂, fun σ carries => ?_⟩
      rw [values σ carries, echo.later tail.globals_prefix tail'.globals_prefix σ carries]
      rfl

end

/-! ## Statements -/

/-- A value is printed under the control of a format. -/
theorem Siblings.printed {d d' : Draft} {format format' v v' : Value} (siblings : Siblings r d d')
    (formats : ∀ σ, Carries σ d d' → format' = format.rename σ)
    (values : ∀ σ, Carries σ d d' → v' = v.rename σ) :
    Siblings r (d.printed format v) (d'.printed format' v') :=
  siblings.step rfl rfl fun σ carries eq => by
    rw [formats σ carries, values σ carries, eq, Draft.rename_printed]

theorem Performs.siblings (renames : Renames r f) (fixesInt : r intFormatName = intFormatName)
    (fixesReal : r realFormatName = realFormatName) {d d₁ d' d₁' : Draft} {s : Statement}
    (done : Performs d s d₁) (second : Lowers d' (s.rename r f) d₁') (siblings : Siblings r d d') :
    Siblings r d₁ d₁' := by
  cases done with
  | @output d₂ _ _ size v text =>
    cases second with | performs done' =>
    cases done' with | @output d₂' _ _ _ v' text' =>
    have echo := text.echo renames text' siblings
    cases echo.kind_eq text.type_eq text'.type_eq
    have values (σ : String → String) (carries : Carries σ d₂ d₂') :
        [(Kind.text size, v')] = Draft.renameAll σ [(Kind.text size, v)] := by
      rw [echo.value σ carries]
      rfl
    exact (Echo.call echo.siblings values _).siblings
  | input found held =>
    cases second with | performs done' =>
    cases done' with | input found' held' =>
    refine Siblings.push (siblings.define fun σ carries => rfl) fun σ carries => ?_
    rw [siblings.binding renames (renames.firstName _) found found' carries, siblings.next_eq]
    rfl
  | custom =>
    cases second with
    | declare own => cases own
    | performs done' =>
      cases done' with | custom =>
      exact siblings.step rfl rfl fun σ _ eq => by rw [eq, Draft.rename_tell]; rfl
  | assign found held scalar value =>
    cases second with | performs done' =>
    cases done' with | assign found' held' scalar' value' =>
    have echo := value.echo renames value' siblings
    refine echo.siblings.push fun σ carries => ?_
    have before := siblings.carries_of_later value.globals_prefix value'.globals_prefix carries
    rw [echo.value σ carries, siblings.binding renames (renames.firstName _) found found' before]
    rfl
  | @printInt d₂ _ _ _ v _ value whole found =>
    cases second with | performs done' =>
    cases done' with | @printInt d₂' _ _ κ v' _ value' whole' found' =>
    have echo := value.echo renames value' siblings
    obtain rfl := echo.kind_eq value.type_eq value'.type_eq
    have back {σ : String → String} (carries : Carries σ (d₂.pass κ v) (d₂'.pass κ v')) :
        Carries σ d₂ d₂' := carries.of_kept (globals_pass _ _ _) (globals_pass _ _ _)
    have passed : Siblings r (d₂.pass κ v) (d₂'.pass κ v') :=
      echo.siblings.step (globals_pass _ _ _) (globals_pass _ _ _) fun σ carries eq => by
        rw [echo.value σ carries, eq, Draft.rename_pass]
    refine passed.printed (fun σ carries => ?_) fun σ carries => ?_
    · rw [echo.siblings.binding renames fixesInt.symm found found' (back carries)]
      rfl
    · rw [Draft.rename_passed r, ← echo.siblings.same σ (back carries),
        ← echo.value σ (back carries)]
  | printReal value found =>
    cases second with | performs done' =>
    cases done' with | printReal value' found' =>
    have echo := value.echo renames value' siblings
    exact echo.siblings.printed (fun σ carries => by
      rw [echo.siblings.binding renames fixesReal.symm found found' carries]; rfl) echo.value
  | call value =>
    cases second with | performs done' =>
    cases done' with | call value' =>
    exact (value.echo renames value' siblings).siblings
  | empty =>
    cases second with | performs done' =>
    cases done' with | empty =>
    exact siblings

mutual

theorem Lowers.globals_prefix {d d₁ : Draft} {s : Statement} :
    Lowers d s d₁ → d.globals <+: d₁.globals
  | .performs done => by
    obtain ⟨_, added⟩ := done.straight
    exact added.globals_prefix
  | .declare _ _ _ => List.prefix_append _ _
  | .ifElse condition first second =>
    condition.globals_prefix.trans (first.globals_prefix.trans second.globals_prefix)
  | .while condition inner => condition.globals_prefix.trans inner.globals_prefix
  | .repeat inner condition => inner.globals_prefix.trans condition.globals_prefix

theorem LowersAll.globals_prefix {d d₁ : Draft} {ss : List Statement} :
    LowersAll d ss d₁ → d.globals <+: d₁.globals
  | .nil => List.prefix_rfl
  | .cons head tail => head.globals_prefix.trans tail.globals_prefix

end

theorem Siblings.declare {d d' : Draft} (siblings : Siblings r d d') (pos : Position)
    (name : String) (init : Initializer) :
    Siblings r (d.declare pos name init) (d'.declare pos (r name) init) :=
  siblings.addGlobal rfl rfl fun σ eq further => by
    subst eq
    simp only [Draft.declare, Draft.addVariable, Draft.newBinding, further]
    simp [Draft.rename, Event.rename, Binding.rename]
    rfl

theorem renameElse_getD (r : String → String) (f : Key → Key) (b : Option (List Statement)) :
    (Program.renameElse r f b).getD [] = Program.rename r f (b.getD []) := by
  cases b <;> rfl

mutual

/-- What a statement and its renamed one leave of siblings are siblings. -/
theorem Lowers.siblings (renames : Renames r f) (fixesInt : r intFormatName = intFormatName)
    (fixesReal : r realFormatName = realFormatName) {d d₁ : Draft} {s : Statement} :
    Lowers d s d₁ → ∀ {d' d₁' : Draft}, Lowers d' (s.rename r f) d₁' → Siblings r d d' →
      Siblings r d₁ d₁'
  | .performs done, _, _, second, siblings =>
    done.siblings renames fixesInt fixesReal second siblings
  | .declare own initial new, _, _, second, siblings => by
    cases second with
    | performs done' =>
      cases done' with | custom =>
      cases own
    | declare own' initial' new' =>
      obtain rfl := Option.some.inj (initial.symm.trans initial')
      exact siblings.declare _ _ _
  | @Lowers.ifElse _ d₁ d₂ d₃ _ _ v _ _ condition first second, _, _, whole, siblings => by
    cases whole with
    | performs done' => cases done'
    | @ifElse _ d₁' d₂' d₃' _ _ v' _ _ condition' first' second' =>
      rw [renameElse_getD] at second'
      have echo := condition.echo renames condition' siblings
      have branch : Siblings r d₁.branch d₁'.branch :=
        echo.siblings.step rfl rfl fun σ _ eq => by rw [eq, Draft.rename_branch]
      have afterFirst := first.siblings renames fixesInt fixesReal first' branch
      have otherwise : Siblings r (d₁.otherwise d₂) (d₁'.otherwise d₂') :=
        afterFirst.step rfl rfl fun σ carries eq => by
          rw [eq, echo.siblings.of_later first.globals_prefix first'.globals_prefix carries,
            Draft.rename_otherwise]
      have afterSecond := second.siblings renames fixesInt fixesReal second' otherwise
      have grows := first.globals_prefix.trans second.globals_prefix
      have grows' := first'.globals_prefix.trans second'.globals_prefix
      exact afterSecond.step rfl rfl fun σ carries eq => by
        rw [eq, echo.siblings.of_later grows grows' carries, echo.later grows grows' σ carries,
          Draft.rename_merge]
  | @Lowers.while d d₁ d₂ _ _ v _ condition inner, d', _, whole, siblings => by
    cases whole with
    | performs done' => cases done'
    | @«while» _ d₁' d₂' _ _ v' _ condition' inner' =>
      have loop : Siblings r d.loop d'.loop :=
        siblings.step rfl rfl fun σ _ eq => by rw [eq, Draft.rename_loop]
      have echo := condition.echo renames condition' loop
      have body : Siblings r (d.loopBody d₁ v) (d'.loopBody d₁' v') :=
        echo.siblings.step rfl rfl fun σ carries eq => by
          rw [eq, echo.value σ carries,
            siblings.of_later condition.globals_prefix condition'.globals_prefix carries,
            Draft.rename_loopBody]
      have behind := inner.siblings renames fixesInt fixesReal inner' body
      have grows := condition.globals_prefix.trans inner.globals_prefix
      have grows' := condition'.globals_prefix.trans inner'.globals_prefix
      exact behind.step rfl rfl fun σ carries eq => by
        rw [eq, siblings.of_later grows grows' carries, Draft.rename_endLoop]
  | @Lowers.repeat d d₁ d₂ _ _ v _ inner condition, d', _, whole, siblings => by
    cases whole with
    | performs done' => cases done'
    | @«repeat» _ d₁' d₂' _ _ v' _ inner' condition' =>
      have again : Siblings r d.again d'.again :=
        siblings.step rfl rfl fun σ _ eq => by rw [eq, Draft.rename_again]
      have behind := inner.siblings renames fixesInt fixesReal inner' again
      have echo := condition.echo renames condition' behind
      have grows := inner.globals_prefix.trans condition.globals_prefix
      have grows' := inner'.globals_prefix.trans condition'.globals_prefix
      exact echo.siblings.step rfl rfl fun σ carries eq => by
        rw [eq, echo.value σ carries, siblings.of_later grows grows' carries,
          Draft.rename_endAgain]

theorem LowersAll.siblings (renames : Renames r f) (fixesInt : r intFormatName = intFormatName)
    (fixesReal : r realFormatName = realFormatName) {d d₁ : Draft} {ss : List Statement} :
    LowersAll d ss d₁ → ∀ {d' d₁' : Draft}, LowersAll d' (Program.rename r f ss) d₁' →
      Siblings r d d' → Siblings r d₁ d₁'
  | .nil, _, _, second, siblings => by
    cases second
    exact siblings
  | .cons head tail, _, _, second, siblings => by
    cases second with
    | cons head' tail' =>
      exact tail.siblings renames fixesInt fixesReal tail'
        (head.siblings renames fixesInt fixesReal head' siblings)

end

end

end Pseudocode.Lowering
