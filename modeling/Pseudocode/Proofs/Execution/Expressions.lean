import Pseudocode.Proofs.Execution.Operators

/-! # Expressions run as their code

* `Computes L env n fr code x post`: run from the frame `fr`, the code does what the
  evaluation `x` does. The same is seen; temporaries below `n` and all globals stay as they
  are; and if there is a value, `post` says what the frame knows of it.
* `computes`: an expression is lowered to code that computes it.
-/

namespace Pseudocode.Execution

open Assembly Lowering Typing

/-! ## Code and what it stands for -/

/-- The code does what the evaluation does. -/
def Computes {α : Type} (L : Layout) (env : Environment) (n : Nat) (fr : Frame)
    (code : List Instr) (x : Evaluation α) (post : α → Frame → Prop) : Prop :=
  ∀ log, fr.log = log.rename L.nameOf →
    match x log with
    | .ok a log' => ∃ fr', executeAll env fr code = .ok fr' ∧ Later n fr fr' ∧
        fr'.log = log'.rename L.nameOf ∧ post a fr'
    | .error e log' => e = .undefined ∧ ∃ fr', executeAll env fr code = .error (e, fr') ∧
        fr'.log = log'.rename L.nameOf

/-- The code is run without failing, and nothing is seen of it. -/
structure Quiet (env : Environment) (n : Nat) (fr : Frame) (code : List Instr) (fr' : Frame) :
    Prop where
  executed : executeAll env fr code = .ok fr'
  later : Later n fr fr'
  log : fr'.log = fr.log

namespace Quiet

variable {env : Environment} {m n : Nat} {fr fr₁ fr₂ : Frame} {code code₁ : List Instr}

theorem refl (n : Nat) (fr : Frame) : Quiet env n fr [] fr := ⟨rfl, .refl n fr, rfl⟩

theorem trans (first : Quiet env m fr code fr₁) (second : Quiet env n fr₁ code₁ fr₂)
    (less : m ≤ n) : Quiet env m fr (code ++ code₁) fr₂ where
  executed := by
    rw [executeAll_append, first.executed]
    exact second.executed
  later := first.later.trans second.later less
  log := second.log.trans first.log

/-- An instruction that only defines the next temporary. -/
theorem define {i : Instr} {w : Word} (executed : execute env fr i = .ok (fr.withTemp n w)) :
    Quiet env n fr [i] (fr.withTemp n w) where
  executed := executeAll_single executed
  later := later_withTemp n
  log := rfl

end Quiet

namespace Computes

variable {L : Layout} {env : Environment} {n : Nat} {fr : Frame} {code code₁ : List Instr}
  {α β : Type}

/-- Code of which nothing is seen gives a value that is known. -/
theorem of_quiet {fr' : Frame} {a : α} {post : α → Frame → Prop}
    (quiet : Quiet env n fr code fr') (holds : post a fr') :
    Computes L env n fr code (Pure.pure a) post :=
  fun _ same => ⟨fr', quiet.executed, quiet.later, quiet.log.trans same, holds⟩

theorem pure {a : α} {post : α → Frame → Prop} (holds : post a fr) :
    Computes L env n fr [] (Pure.pure a) post :=
  of_quiet (.refl n fr) holds

/-- One evaluation after the other. -/
theorem bind {n₁ : Nat} {x : Evaluation α} {f : α → Evaluation β} {post : α → Frame → Prop}
    {post' : β → Frame → Prop} (first : Computes L env n fr code x post) (less : n ≤ n₁)
    (second : ∀ a fr₁, Later n fr fr₁ → post a fr₁ → Computes L env n₁ fr₁ code₁ (f a) post') :
    Computes L env n fr (code ++ code₁) (x >>= f) post' := by
  intro log same
  have here := first log same
  show match EStateM.bind x f log with
    | .ok a log' => _
    | .error e log' => _
  simp only [EStateM.bind, executeAll_append]
  cases result : x log with
  | error e log' =>
    simp only [result] at here ⊢
    obtain ⟨undefined, fr', executed, logged⟩ := here
    exact ⟨undefined, fr', by rw [executed]; rfl, logged⟩
  | ok a log₁ =>
    simp only [result] at here ⊢
    obtain ⟨fr₁, executed, later, logged, holds⟩ := here
    rw [executed]
    have next := second a fr₁ later holds log₁ logged
    cases result₁ : f a log₁ with
    | error e log' =>
      simp only [result₁] at next ⊢
      exact next
    | ok b log' =>
      simp only [result₁] at next ⊢
      obtain ⟨fr', executed₁, later₁, logged₁, holds₁⟩ := next
      exact ⟨fr', executed₁, later.trans later₁ less, logged₁, holds₁⟩

/-- The value of an evaluation is worked on further, which takes no code. -/
theorem map {x : Evaluation α} {f : α → β} {post : α → Frame → Prop} {post' : β → Frame → Prop}
    (computes : Computes L env n fr code x post)
    (weaker : ∀ a fr', Later n fr fr' → post a fr' → post' (f a) fr') :
    Computes L env n fr code (x >>= fun a => Pure.pure (f a)) post' := by
  rw [← List.append_nil code]
  exact computes.bind (Nat.le_refl n) fun a fr' later holds => .pure (weaker a fr' later holds)

/-- Code of which nothing is seen comes first. -/
theorem quiet {n₁ : Nat} {fr₁ : Frame} {x : Evaluation α} {post : α → Frame → Prop}
    (first : Quiet env n fr code fr₁) (less : n ≤ n₁)
    (second : Computes L env n₁ fr₁ code₁ x post) :
    Computes L env n fr (code ++ code₁) x post := by
  have start : Computes L env n fr code (Pure.pure ()) fun _ fr' => fr' = fr₁ :=
    of_quiet first rfl
  exact bind (f := fun _ => x) start less fun _ _ _ same => same ▸ second

/-- An instruction for an operation that gives a number. -/
theorem operation {d : Draft} {t : Ty} {κ : Kind} {instr : Value → Instr}
    {result : Except Ending Datum} (yields : Yields env fr instr κ result) :
    Computes L env d.temps fr [instr (d.next t)] (orFail result) fun x fr' =>
      x.type = κ.stored ∧ Holds fr' (d.next t) x := by
  intro log same
  cases result with
  | ok z =>
    obtain ⟨typed, w, word, executed⟩ := yields
    have defined := (executed (d.next t)).trans (define_next d t)
    exact ⟨_, executeAll_single defined, later_withTemp _, same, typed,
      holds_next (seen?_of_word? fr word)⟩
  | error e =>
    obtain ⟨undefined, executed⟩ := yields
    exact ⟨undefined, fr, by simp only [executeAll, executed], same⟩

end Computes

/-! ## Operands and arguments -/

section Operands

variable {env : Environment}

/-- A truth value is widened to a whole number. -/
theorem zext_quiet {d : Draft} {v : Value} {fr : Frame} {b : BitVec 1}
    (held : Holds fr v (.int 1 b)) :
    ∃ fr', Quiet env d.temps fr [.cast (d.next .i32) .zext v] fr' ∧
      Holds fr' (d.next .i32) (.int 32 (b.setWidth 32)) := by
  have executed : execute env fr (.cast (d.next .i32) .zext v) =
      .ok (fr.withTemp d.temps (.int 32 (b.setWidth 32))) := by
    simp only [execute, orStuck_word? held rfl]
    rfl
  exact ⟨_, .define executed, holds_next rfl⟩

/-- The address of a text is read as one of bytes. -/
theorem bitcast_quiet (env : Environment) {d : Draft} {v : Value} {fr : Frame} {bytes : List UInt8}
    (held : Holds fr v (.text bytes)) :
    ∃ fr', Quiet env d.temps fr [.cast (d.next .bytePtr) .bitcast v] fr' ∧
      Holds fr' (d.next .bytePtr) (.text bytes) := by
  obtain ⟨w, found, seen⟩ := Option.bind_eq_some_iff.mp held
  cases w with
  | int | real => cases seen
  | address name =>
    have executed : execute env fr (.cast (d.next .bytePtr) .bitcast v) =
        .ok (fr.withTemp d.temps (.address name)) := by
      simp only [execute, found]
      rfl
    exact ⟨_, .define executed, holds_next seen⟩

/-- An operand is brought to the kind that the operator works at. -/
theorem widen_quiet (env : Environment) {d : Draft} {κ κ' : Kind} {v : Value}
    (kept : Kept d.temps v) (joins : κ = κ' ∨ κ = .bool ∧ κ' = .int) :
    ∃ code, Straight d code (d.widen κ κ' v) ∧ Kept (d.widen κ κ' v).temps (d.widened κ κ' v) ∧
      ∀ fr x, x.type = κ.stored → Holds fr v x →
        ∃ fr', Quiet env d.temps fr code fr' ∧ Holds fr' (d.widened κ κ' v) (widened κ' x) := by
  rcases joins with rfl | ⟨rfl, rfl⟩
  · have same : d.widen κ κ v = d ∧ d.widened κ κ v = v := by cases κ <;> exact ⟨rfl, rfl⟩
    rw [same.1, same.2]
    refine ⟨[], .refl d, kept, fun fr x typed held => ⟨fr, .refl _ fr, ?_⟩⟩
    have unchanged : widened κ x = x := by
      cases κ with
      | int =>
        obtain ⟨n, rfl⟩ := Datum.type_eq_int.mp typed
        rfl
      | text | real | bool => rfl
    rwa [unchanged]
  · refine ⟨_, .define d .i32 (.cast · .zext v), .next d .i32, fun fr x typed held => ?_⟩
    obtain ⟨b, rfl⟩ := Datum.type_eq_int.mp typed
    exact zext_quiet held

/-- A value is brought to a type that can be passed. -/
theorem pass_quiet (env : Environment) {d : Draft} (κ : Kind) {v : Value}
    (kept : Kept d.temps v) :
    ∃ code, Straight d code (d.pass κ v) ∧ Kept (d.pass κ v).temps (d.passed κ v) ∧
      ∀ fr x, x.type = κ.stored → Holds fr v x →
        ∃ fr', Quiet env d.temps fr code fr' ∧ Holds fr' (d.passed κ v) (passed x) := by
  cases κ with
  | int =>
    refine ⟨[], .refl d, kept, fun fr x typed held => ⟨fr, .refl _ fr, ?_⟩⟩
    obtain ⟨n, rfl⟩ := Datum.type_eq_int.mp typed
    exact held
  | real =>
    refine ⟨[], .refl d, kept, fun fr x typed held => ⟨fr, .refl _ fr, ?_⟩⟩
    obtain ⟨r, rfl⟩ := Datum.type_eq_double.mp typed
    exact held
  | bool =>
    refine ⟨_, .define d .i32 (.cast · .zext v), .next d .i32, fun fr x typed held => ?_⟩
    obtain ⟨b, rfl⟩ := Datum.type_eq_int.mp typed
    exact zext_quiet held
  | text size =>
    refine ⟨_, .define d .bytePtr (.cast · .bitcast v), .next d .bytePtr, fun fr x typed held => ?_⟩
    obtain ⟨bytes, rfl⟩ := Datum.type_eq_array typed
    exact bitcast_quiet env held

/-- The values stand for the data, which are of their kinds. -/
def HoldAll (fr : Frame) (vs : List (Kind × Value)) (xs : List Datum) : Prop :=
  List.Forall₂ (fun v x => x.type = v.1.stored ∧ Holds fr v.2 x) vs xs

theorem Later.holdAll {n : Nat} {fr fr' : Frame} {vs : List (Kind × Value)} {xs : List Datum}
    (later : Later n fr fr') (kept : ∀ v ∈ vs, Kept n v.2) (all : HoldAll fr vs xs) :
    HoldAll fr' vs xs := by
  induction all with
  | nil => exact .nil
  | cons head _ ih =>
    have first := later.holds (kept _ List.mem_cons_self) head.2
    exact .cons ⟨head.1, first⟩ (ih fun v member => kept v (List.mem_cons_of_mem _ member))

/-- The values are brought to types that can be passed. -/
theorem passAll_quiet (env : Environment) {d : Draft} {vs : List (Kind × Value)}
    (kept : ∀ v ∈ vs, Kept d.temps v.2) :
    ∃ code, Straight d code (d.passAll vs) ∧
      ∀ fr xs, HoldAll fr vs xs →
        ∃ fr', Quiet env d.temps fr code fr' ∧
          List.Forall₂ (Holds fr') (d.passedAll vs) (xs.map passed) := by
  induction vs generalizing d with
  | nil =>
    refine ⟨[], .refl d, fun fr xs all => ⟨fr, .refl _ fr, ?_⟩⟩
    cases all
    exact .nil
  | cons v vs ih =>
    obtain ⟨code, added, keptHead, head⟩ :=
      pass_quiet env v.1 (kept v List.mem_cons_self)
    have keptTail : ∀ v' ∈ vs, Kept (d.pass v.1 v.2).temps v'.2 := fun v' member =>
      (kept v' (List.mem_cons_of_mem _ member)).mono added.temps
    obtain ⟨code₁, added₁, tail⟩ := ih keptTail
    refine ⟨code ++ code₁, added.trans added₁, fun fr xs all => ?_⟩
    cases all with
    | @cons _ x _ xs first rest =>
      obtain ⟨fr₁, quiet, held⟩ := head fr x first.1 first.2
      have keptRest : ∀ v' ∈ vs, Kept d.temps v'.2 := fun v' member =>
        kept v' (List.mem_cons_of_mem _ member)
      obtain ⟨fr₂, quiet₁, heldTail⟩ := tail fr₁ xs (quiet.later.holdAll keptRest rest)
      exact ⟨fr₂, quiet.trans quiet₁ added.temps, .cons (quiet₁.later.holds keptHead held) heldTail⟩

theorem seenAll?_eq {fr : Frame} {vs : List Value} {xs : List Datum}
    (all : List.Forall₂ (Holds fr) vs xs) : fr.seenAll? vs = some xs := by
  induction all with
  | nil => rfl
  | cons head _ ih =>
    have tail : List.mapM _ _ = some _ := ih
    rw [Frame.seenAll?, List.mapM_cons, head, tail]
    rfl

/-- A call is seen with what its arguments stand for. Both sides ask the environment by the
    number of calls so far, which renaming keeps. -/
theorem call_computes (L : Layout) {d : Draft} {fr : Frame} {f : Signature} {vs : List Value}
    {xs : List Datum} (all : List.Forall₂ (Holds fr) vs xs) :
    Computes L env d.temps fr [.call (some (d.next .i32)) f vs] (performCall env f.name xs)
      fun x fr' => x.type = .i32 ∧ Holds fr' (d.next .i32) x := by
  intro log same
  have executed : execute env fr (.call (some (d.next .i32)) f vs) =
      .ok (Frame.withTemp { fr with log := fr.log.called f.name xs } d.temps
        (.int 32 (env.answer fr.log.calls))) := by
    simp only [execute, seenAll?_eq all]
    rfl
  have answered : log.calls = fr.log.calls := (congrArg Log.calls same).symm
  refine ⟨_, executeAll_single executed, ⟨rfl, (later_withTemp d.temps).temps⟩, ?_, rfl, ?_⟩
  · rw [Log.rename_called, ← same]
    rfl
  · rw [answered]
    exact holds_next rfl

end Operands

/-! ## Expressions -/

theorem name_of_builtin? {name : String} {f : Signature} (known : builtin? name = some f) :
    f.name = name := by
  have named : ∀ b ∈ builtins.map fun f => (f.name, f), b.2.name = b.1 := by decide
  exact named _ (Inventory.mem_of_lookup known)

section Expressions

variable {L : Layout} {env : Environment}

theorem holds_constant {g : Global} {σ : Variables} {fr : Frame} {bytes : List UInt8}
    (mirrors : Mirrors L σ fr.memory) (member : g ∈ L.globals) (constant : g.constant = true)
    (text : initial g.init = .text bytes) : Holds fr g.address (.text bytes) := by
  have stored := mirrors.constants g member constant
  rw [text] at stored
  simp only [Holds, Global.address, Frame.word?, Option.bind_some, Frame.seen?, stored]

/-- A text is computed by no code at all. -/
theorem computes_text {d : Draft} {k : Key} {b : Binding} {size : Nat} (part : Part L d)
    (found : d.bindings.lookup k.firstName = some b) (held : b.storage.type = .ptr (.array size .i8))
    {σ : Variables} {fr : Frame} (mirrors : Mirrors L σ fr.memory) :
    Computes L env d.temps fr [] (eval env σ (.key k)) fun x fr' =>
      x.type = .array size .i8 ∧ Holds fr' b.storage x := by
  obtain ⟨g, home, stored⟩ := part.home found
  obtain ⟨x, known, memory, typed⟩ := mirrors.held _ _ home
  rw [stored] at held
  have text : x.type = .array size .i8 := typed.trans (Ty.ptr.inj held)
  obtain ⟨bytes, rfl⟩ := Datum.type_eq_array text
  simp only [eval, known]
  refine .pure ⟨text, ?_⟩
  simp only [stored, Holds, Global.address, Frame.word?, Option.bind_some, Frame.seen?, memory]

/-- A number is loaded from its global. -/
theorem computes_load {d : Draft} {k : Key} {b : Binding} {κ : Kind} (part : Part L d)
    (found : d.bindings.lookup k.firstName = some b) (held : b.storage.type = .ptr κ.ty)
    (scalar : κ.isText = false) {σ : Variables} {fr : Frame} (mirrors : Mirrors L σ fr.memory) :
    Computes L env d.temps fr [.load (d.next κ.ty) b.storage] (eval env σ (.key k))
      fun x fr' => x.type = κ.stored ∧ Holds fr' (d.next κ.ty) x := by
  obtain ⟨g, home, stored⟩ := part.home found
  obtain ⟨x, known, memory, typed⟩ := mirrors.held _ _ home
  rw [stored] at held
  have number : x.type = κ.ty := typed.trans (Ty.ptr.inj held)
  obtain ⟨w, word⟩ : ∃ w, x.word? = some w := by
    cases κ <;> cases scalar <;> cases x <;> cases number <;> exact ⟨_, rfl⟩
  have executed : execute env fr (.load (d.next κ.ty) b.storage) = .ok (fr.withTemp d.temps w) := by
    simp only [execute, Frame.loaded, stored, Global.address, Frame.word?, memory,
      Option.bind_some, word]
    rfl
  simp only [eval, known]
  refine .of_quiet (.define executed) ⟨?_, holds_next (seen?_of_word? fr word)⟩
  rw [number, Kind.stored_eq_ty.mpr ⟨rfl, scalar⟩]

mutual

/-- An expression is lowered to code that computes it. -/
theorem computes (env : Environment) {d d' : Draft} {e : Expression} {κ : Kind} {v : Value}
    (part : Part L d') :
    Emits d e κ v d' → ∃ code, Straight d code d' ∧ Kept d'.temps v ∧
      ∀ σ fr, Mirrors L σ fr.memory → Computes L env d.temps fr code (eval env σ e)
        fun x fr' => x.type = κ.stored ∧ Holds fr' v x
  | .bool b => by
    refine ⟨[], .refl d, .int _ _ _, fun σ fr _ => .pure ⟨rfl, ?_⟩⟩
    cases b <;> rfl
  | .integer n => by
    refine ⟨[], .refl d, .int _ _ _, fun σ fr _ => .pure ⟨rfl, ?_⟩⟩
    exact congrArg (fun b => some (Datum.int 32 b)) BitVec.ofInt_toInt
  | .real x => ⟨[], .refl d, .double _ _, fun σ fr _ => .pure ⟨rfl, rfl⟩⟩
  | .string s => by
    refine ⟨[], .addString d s, .global _ _ _, fun σ fr mirrors => .pure ⟨?_, ?_⟩⟩
    · exact (type_initial (.ofText s)).trans (type_ofText s)
    · exact holds_constant mirrors (part.globals.subset (by simp [Draft.addString])) rfl rfl
  | .text found held => by
    obtain ⟨g, _, stored⟩ := part.home found
    exact ⟨[], .refl d, stored ▸ .global _ _ _, fun σ fr => computes_text part found held⟩
  | .load found held scalar => by
    have inFront := part.of_straight (.define d _ _)
    exact ⟨_, .define d _ _, .next d _, fun σ fr => computes_load inFront found held scalar⟩
  | .parenthesized inner => by
    obtain ⟨code, added, kept, computed⟩ := computes env part inner
    exact ⟨code, added, kept, computed⟩
  | .not operand => by
    obtain ⟨code, added, _, computed⟩ := computes env (part.of_straight (.define _ _ _)) operand
    refine ⟨_, added.trans (.define _ _ _), .next _ _, fun σ fr mirrors => ?_⟩
    refine (computed σ fr mirrors).bind added.temps fun x fr₁ _ holds => ?_
    exact .operation (yields_not holds.2 holds.1)
  | .negate operand signed => by
    obtain ⟨code, added, _, computed⟩ := computes env (part.of_straight (.define _ _ _)) operand
    refine ⟨_, added.trans (.define _ _ _), .next _ _, fun σ fr mirrors => ?_⟩
    refine (computed σ fr mirrors).bind added.temps fun x fr₁ _ holds => ?_
    exact .operation (yields_negate signed holds.2 holds.1)
  | .binary left right joined widenLeft widenRight => by
    -- The layout is known to be part of the last draft only, so the drafts are gone through
    -- from the back: operator, wideners, right operand, left operand.
    obtain ⟨joinsLeft, joinsRight⟩ := Kind.joins_of_join? joined
    have inFront := part.of_straight (.define _ _ _)
    subst widenRight
    obtain ⟨_, wide₁⟩ := Straight.widen _ _ _ _
    have inFront₁ := inFront.of_straight wide₁
    subst widenLeft
    obtain ⟨_, wide⟩ := Straight.widen _ _ _ _
    have inFront₂ := inFront₁.of_straight wide
    obtain ⟨code₂, added₂, kept₂, computed₂⟩ := computes env inFront₂ right
    obtain ⟨code₁, added₁, kept₁, computed₁⟩ := computes env (inFront₂.of_straight added₂) left
    obtain ⟨code₃, added₃, kept₃, widened₃⟩ :=
      widen_quiet env (kept₁.mono added₂.temps) joinsLeft
    obtain ⟨code₄, added₄, kept₄, widened₄⟩ :=
      widen_quiet env (kept₂.mono added₃.temps) joinsRight
    refine ⟨_, added₁.trans (added₂.trans (added₃.trans (added₄.trans (.define _ _ _)))),
      .next _ _, fun σ fr mirrors => ?_⟩
    refine (computed₁ σ fr mirrors).bind added₁.temps fun x fr₁ later₁ holds₁ => ?_
    have mirrors₁ : Mirrors L σ fr₁.memory := later₁.memory.symm ▸ mirrors
    refine (computed₂ σ fr₁ mirrors₁).bind added₂.temps fun y fr₂ later₂ holds₂ => ?_
    obtain ⟨fr₃, quiet₃, left₃⟩ := widened₃ fr₂ x holds₁.1 (later₂.holds kept₁ holds₁.2)
    obtain ⟨fr₄, quiet₄, right₄⟩ := widened₄ fr₃ y holds₂.1 (quiet₃.later.holds kept₂ holds₂.2)
    refine .quiet quiet₃ added₃.temps (.quiet quiet₄ added₄.temps ?_)
    rw [← operate_widened _ joined holds₁.1 holds₂.1]
    exact .operation (yields_operator _ joined (quiet₄.later.holds kept₃ left₃) right₄
      (type_widened holds₁.1 joinsLeft) (type_widened holds₂.1 joinsRight))
  | .call args admitted known passed => by
    have inFront := part.of_straight (.define _ _ _)
    subst passed
    obtain ⟨_, pass⟩ := Straight.passAll _ _
    obtain ⟨code, added, kept, computed⟩ := computesAll env (inFront.of_straight pass) args
    obtain ⟨code₁, added₁, passed⟩ := passAll_quiet env kept
    refine ⟨_, added.trans (added₁.trans (.define _ _ _)), .next _ _, fun σ fr mirrors => ?_⟩
    refine (computed σ fr mirrors).bind added.temps fun xs fr₁ _ holds => ?_
    obtain ⟨fr₂, quiet, all⟩ := passed fr₁ xs holds
    rw [← name_of_builtin? known]
    exact .quiet quiet added₁.temps (call_computes L all)

theorem computesAll (env : Environment) {d d' : Draft} {es : List Expression}
    {vs : List (Kind × Value)} (part : Part L d') :
    EmitsAll d es vs d' → ∃ code, Straight d code d' ∧ (∀ v ∈ vs, Kept d'.temps v.2) ∧
      ∀ σ fr, Mirrors L σ fr.memory → Computes L env d.temps fr code (evalAll env σ es)
        fun xs fr' => HoldAll fr' vs xs
  | .nil => ⟨[], .refl d, nofun, fun σ fr _ => .pure .nil⟩
  | .cons head tail => by
    obtain ⟨code₁, added₁, kept₁, computed₁⟩ := computesAll env part tail
    obtain ⟨code, added, kept, computed⟩ := computes env (part.of_straight added₁) head
    refine ⟨code ++ code₁, added.trans added₁, ?_, fun σ fr mirrors => ?_⟩
    · intro v member
      cases member with
      | head => exact kept.mono added₁.temps
      | tail _ member => exact kept₁ v member
    · refine (computed σ fr mirrors).bind added.temps fun x fr₁ later holds => ?_
      have mirrors₁ : Mirrors L σ fr₁.memory := later.memory.symm ▸ mirrors
      refine (computed₁ σ fr₁ mirrors₁).map fun xs fr₂ later₁ all => ?_
      exact .cons ⟨holds.1, later₁.holds kept holds.2⟩ all

end

end Expressions

end Pseudocode.Execution
