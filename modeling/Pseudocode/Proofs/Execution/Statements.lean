import Pseudocode.Proofs.Execution.Branches
import Pseudocode.Proofs.Execution.Expressions

/-! # Statements run as their blocks

* `Simulates L env blocks least c x post`: the machine, run from the place `c`, does what
  the execution `x` does. It gets to a place that fits `post`, or ends undefined as `x` does;
  and where `x` gives up because a loop goes around too often, the machine has made `least`
  steps or more and has seen the same.
* `Simulates.iterate`: a loop is simulated if one round of it is.
* `simulates`, `simulatesAll`: a statement is lowered to blocks that simulate it, by
  induction on how it is lowered.
-/

namespace Pseudocode.Execution

open Assembly Lowering Typing

/-! ## Simulation -/

/-- The state of a program and the frame of a machine go together. -/
structure Matches (L : Layout) (st : State) (fr : Frame) : Prop where
  mirrors : Mirrors L st.values fr.memory
  log : fr.log = st.log.rename L.nameOf

section Simulation

variable (L : Layout) (env : Environment) (blocks : List Block) {α : Type}

/-- The machine, run from the place, comes to what the execution has come to. -/
def Arrives (least : Nat) (c : Config) (post : α → Config → Prop) :
    EStateM.Result Ending State α → Prop
  | .ok a st => ∃ n c', Goes env blocks n c c' ∧ Matches L st c'.frame ∧ post a c'
  | .error e st =>
    (e = .unfinished ∧ ∃ n c', least ≤ n ∧ Goes env blocks n c c' ∧
      c'.frame.log = st.log.rename L.nameOf) ∨
    (e = .undefined ∧ Halts env blocks c e (st.log.rename L.nameOf).trace)

/-- The machine, run from the place, does what the execution does. -/
def Simulates (least : Nat) (c : Config) (x : Action α) (post : α → Config → Prop) : Prop :=
  ∀ st, Matches L st c.frame → Arrives L env blocks least c post (x st)

end Simulation

/-- The run has come to the place of the draft, and the frame there knows so much of the
    value. -/
def Comes {α : Type} (d : Draft) (holds : α → Frame → Prop) (a : α) (c : Config) : Prop :=
  c = place d c.frame ∧ holds a c.frame

/-- Nothing has to be known of the value. -/
def Anything {α : Type} (_ : α) (_ : Frame) : Prop := True

variable {L : Layout} {env : Environment} {blocks : List Block}

theorem Arrives.after {α : Type} {least n : Nat} {c c₁ : Config} {post : α → Config → Prop}
    {result : EStateM.Result Ending State α} (goes : Goes env blocks n c c₁)
    (arrives : Arrives L env blocks least c₁ post result) :
    Arrives L env blocks least c post result := by
  cases result with
  | ok a st =>
    obtain ⟨m, c', onwards, fits⟩ := arrives
    exact ⟨n + m, c', goes.trans onwards, fits⟩
  | error e st =>
    rcases arrives with ⟨unfinished, m, c', enough, onwards, same⟩ | ⟨undefined, halts⟩
    · exact .inl ⟨unfinished, n + m, c', by omega, goes.trans onwards, same⟩
    · exact .inr ⟨undefined, goes.halts halts⟩

namespace Simulates

variable {α β : Type} {least : Nat} {c : Config} {x : Action α} {post : α → Config → Prop}

theorem pure {a : α} (fits : post a c) : Simulates L env blocks least c (Pure.pure a) post :=
  fun _ matching => ⟨0, c, .refl, matching, fits⟩

/-- A step that changes nothing but the place comes first. -/
theorem step {c₁ : Config} (first : Execution.step env blocks c = .ok c₁)
    (same : c₁.frame = c.frame) (simulates : Simulates L env blocks least c₁ x post) :
    Simulates L env blocks least c x post := by
  intro st matching
  exact (simulates st (same ▸ matching)).after (.head first .refl)

/-- One execution after the other. -/
theorem bind {f : α → Action β} {post' : β → Config → Prop}
    (first : Simulates L env blocks least c x post)
    (second : ∀ a c₁, post a c₁ → Simulates L env blocks least c₁ (f a) post') :
    Simulates L env blocks least c (x >>= f) post' := by
  intro st matching
  have here := first st matching
  show Arrives L env blocks least c post' (EStateM.bind x f st)
  rw [EStateM.bind]
  cases result : x st with
  | error e st' =>
    rw [result] at here
    exact here
  | ok a st₁ =>
    rw [result] at here
    obtain ⟨n, c₁, goes, matching₁, fits⟩ := here
    exact (second a c₁ fits st₁ matching₁).after goes

/-- One execution after the other, where the first comes to the place of a draft. -/
theorem andThen {d : Draft} {f : α → Action β} {holds : α → Frame → Prop}
    {post' : β → Config → Prop} (first : Simulates L env blocks least c x (Comes d holds))
    (second : ∀ a fr, holds a fr → Simulates L env blocks least (place d fr) (f a) post') :
    Simulates L env blocks least c (x >>= f) post' :=
  first.bind fun a c₁ ⟨there, known⟩ => there ▸ second a c₁.frame known

/-- The value of an execution is not used. -/
theorem drop {d : Draft} {holds : α → Frame → Prop}
    (simulates : Simulates L env blocks least c x (Comes d holds)) :
    Simulates L env blocks least c (x >>= fun _ => Pure.pure ()) (Comes d Anything) :=
  simulates.andThen fun _ _ _ => .pure ⟨rfl, trivial⟩

/-- A step that changes nothing but the place comes last. -/
theorem andStep {d d' : Draft} {holds : α → Frame → Prop}
    (simulates : Simulates L env blocks least c x (Comes d holds))
    (last : ∀ fr, Execution.step env blocks (place d fr) = .ok (place d' fr)) :
    Simulates L env blocks least c x (Comes d' holds) := by
  intro st matching
  have here := simulates st matching
  cases result : x st with
  | ok a st' =>
    rw [result] at here
    obtain ⟨n, c₁, goes, matching', there, known⟩ := here
    have stepped : Execution.step env blocks c₁ = .ok (place d' c₁.frame) :=
      (congrArg _ there).trans (last c₁.frame)
    exact ⟨n + 1, _, goes.trans (.head stepped .refl), matching', rfl, known⟩
  | error e st' =>
    rw [result] at here
    exact here

/-- A loop is simulated if each round of it is, up to the step at its end, which leads to
    the next round or out of the loop. -/
theorem iterate {body : Action Bool} {head exit : Draft} {fuel : Nat}
    (round : ∀ fr, Simulates L env blocks fuel (place head fr) body fun again c' =>
      Execution.step env blocks c' =
        .ok (if again then place head c'.frame else place exit c'.frame))
    {k : Nat} (less : k ≤ fuel) (fr : Frame) :
    Simulates L env blocks k (place head fr) (Execution.iterate k body)
      (Comes exit Anything) := by
  -- Induction on the rounds that are left. A body may stop for want of rounds of its own, and
  -- then it has made as many steps, so `fuel` stands in its bound and not `k`.
  induction k generalizing fr with
  | zero => exact fun st matching => .inl ⟨rfl, 0, _, Nat.le_refl 0, .refl, matching.log⟩
  | succ k ih =>
    intro st matching
    have here := round fr st matching
    show Arrives L env blocks (k + 1) (place head fr) _
      (EStateM.bind body (fun again => if again then Execution.iterate k body else Pure.pure ()) st)
    rw [EStateM.bind]
    cases result : body st with
    | error e st' =>
      rw [result] at here
      rcases here with ⟨unfinished, n, c', enough, goes, same⟩ | ended
      · exact .inl ⟨unfinished, n, c', Nat.le_trans less enough, goes, same⟩
      · exact .inr ended
    | ok again st₁ =>
      rw [result] at here
      obtain ⟨n, c₁, goes, matching₁, stepped⟩ := here
      have around := goes.trans (.head stepped .refl)
      cases again with
      | false => exact ⟨_, _, around, matching₁, rfl, trivial⟩
      | true =>
        have rest := ih (Nat.le_of_succ_le less) c₁.frame st₁ matching₁
        show Arrives L env blocks (k + 1) _ _ (Execution.iterate k body st₁)
        cases ends : Execution.iterate k body st₁ with
        | ok _ st' =>
          rw [ends] at rest
          exact Arrives.after around rest
        | error e st' =>
          rw [ends] at rest
          rcases rest with ⟨unfinished, m, c', enough, onwards, same⟩ | ⟨undefined, halts⟩
          · exact .inl ⟨unfinished, _, c', by omega, around.trans onwards, same⟩
          · exact .inr ⟨undefined, around.halts halts⟩

end Simulates

/-! ## Code -/

/-- What the draft has is in the layout, and its blocks have become those of the module. -/
structure Within (L : Layout) (blocks : List Block) (d : Draft) : Prop where
  part : Part L d
  develops : Develops d.blocks blocks

theorem Within.of_grows {d d' : Draft} (within : Within L blocks d') (grows : Grows d d') :
    Within L blocks d where
  part := within.part.of_grows grows
  develops := grows.blocks.trans within.develops

section Code

variable {α : Type} {least n : Nat} {d d' : Draft} {fr : Frame} {code : List Instr}

/-- Code that computes an evaluation is run at the place where it stands. -/
theorem Simulates.evaluating {f : Variables → Evaluation α} {post : α → Frame → Prop}
    (added : Straight d code d') (h : Draft.IsOpen d.blocks d.block)
    (later : Develops d'.blocks blocks)
    (computes : ∀ σ, Mirrors L σ fr.memory → Computes L env n fr code (f σ) post) :
    Simulates L env blocks least (place d fr) (Execution.evaluating f) (Comes d' post) := by
  intro st matching
  have here := computes st.values matching.mirrors st.log matching.log
  rw [Execution.evaluating]
  cases result : f st.values st.log with
  | ok a log =>
    rw [result] at here
    obtain ⟨fr', executed, unchanged, logged, holds⟩ := here
    refine ⟨_, place d' fr', goes_of_straight added h later executed, ⟨?_, logged⟩, rfl, holds⟩
    exact unchanged.memory.symm ▸ matching.mirrors
  | error e log =>
    rw [result] at here
    obtain ⟨undefined, fr', executed, logged⟩ := here
    have halts := halts_of_straight added h later executed
    exact .inr ⟨undefined, logged ▸ halts⟩

/-- Code of which nothing is seen comes first. -/
theorem Simulates.quiet {fr' : Frame} {x : Action α} {post : α → Config → Prop}
    (added : Straight d code d') (h : Draft.IsOpen d.blocks d.block)
    (later : Develops d'.blocks blocks) (quiet : Quiet env n fr code fr')
    (simulates : Simulates L env blocks least (place d' fr') x post) :
    Simulates L env blocks least (place d fr) x post := by
  intro st matching
  have matching' : Matches L st fr' :=
    ⟨quiet.later.memory.symm ▸ matching.mirrors, quiet.log.trans matching.log⟩
  exact (simulates st matching').after (goes_of_straight added h later quiet.executed)

/-- The value of an expression is computed where its code stands. -/
theorem value_simulates {e : Expression} {κ : Kind} {v : Value} (emits : Emits d e κ v d')
    (h : Draft.IsOpen d.blocks d.block) (within : Within L blocks d') (fr : Frame) :
    Kept d'.temps v ∧ Simulates L env blocks least (place d fr) (value env e)
      (Comes d' fun x fr' => x.type = κ.stored ∧ Holds fr' v x) := by
  obtain ⟨code, added, kept, computed⟩ := computes env within.part emits
  exact ⟨kept, .evaluating added h within.develops fun σ mirrors => computed σ fr mirrors⟩

/-- A condition is asked where its code stands. -/
theorem asks_simulates {e : Expression} {v : Value} (emits : Emits d e .bool v d')
    (h : Draft.IsOpen d.blocks d.block) (within : Within L blocks d') (fr : Frame) :
    Simulates L env blocks least (place d fr) (asks env e)
      (Comes d' fun b fr' => Decides fr' v b) := by
  refine (value_simulates emits h within fr).2.andThen fun x fr' ⟨typed, held⟩ => ?_
  obtain ⟨bit, rfl⟩ := Datum.type_eq_int.mp typed
  refine .pure ⟨rfl, fun thenBlock elseBlock => ?_⟩
  have word : fr'.word? v = some (.int 1 bit) := held.word?_eq rfl
  show leave fr' (.condBr v thenBlock elseBlock) = _
  simp only [leave, word, decide_eq_true_eq]
  rfl

/-- A function is called once its arguments are ready. -/
theorem perform_simulates {f : Signature} {vs : List Value} {xs : List Datum}
    (added : Straight d code d') (h : Draft.IsOpen d.blocks d.block)
    (within : Within L blocks (d'.called f vs))
    (ready : ∀ σ, Mirrors L σ fr.memory →
      ∃ fr', Quiet env d.temps fr code fr' ∧ List.Forall₂ (Holds fr') vs xs) :
    Simulates L env blocks least (place d fr) (perform env f.name xs)
      (Comes (d'.called f vs) fun x fr' => x.type = .i32 ∧ Holds fr' (d'.next .i32) x) := by
  have whole := added.trans (.called d' f vs)
  refine .evaluating (n := d.temps) whole h within.develops fun σ mirrors => ?_
  obtain ⟨fr', quiet, all⟩ := ready σ mirrors
  exact .quiet quiet added.temps (call_computes L all)

/-- A variable and its global are changed. -/
theorem assign_simulates {name : String} {b : Binding} {κ : Kind} {v : Value} {x : Datum}
    (found : d.bindings.lookup name = some b) (held : b.storage.type = .ptr κ.ty)
    (scalar : κ.isText = false) (typed : x.type = κ.stored) (holds : Holds fr v x)
    (h : Draft.IsOpen d.blocks d.block) (within : Within L blocks (d.push (.store v b.storage))) :
    Simulates L env blocks least (place d fr) (assign name x)
      (Comes (d.push (.store v b.storage)) Anything) := by
  intro st matching
  have added := Straight.push d (.store v b.storage)
  obtain ⟨g, home, stored⟩ := (within.part.of_straight added).home found
  obtain ⟨old, known, memory, oldTyped⟩ := matching.mirrors.held _ _ home
  have address : fr.word? b.storage = some (.address g.name) := by
    rw [stored]
    rfl
  have memory : fr.memory g.name = some old := memory
  rw [stored] at held
  have sort : x.type = g.type := by
    rw [typed, Ty.ptr.inj held, Kind.stored_eq_ty.mpr ⟨rfl, scalar⟩]
  obtain ⟨w, word, datum⟩ : ∃ w, x.word? = some w ∧ w.datum? = some x := by
    cases κ <;> cases scalar <;> cases x <;> cases typed <;> exact ⟨_, rfl, rfl⟩
  have alike : old.alike x = true :=
    Datum.alike_of_type_eq (oldTyped.trans sort.symm) (by rw [word]; rfl)
  have executed : execute env fr (.store v b.storage) = .ok
      { fr with
        memory := fun name' => if name' = g.name then some x else fr.memory name'
        log := fr.log.assigned g.name x } := by
    simp only [execute, Frame.stored, holds.word?_eq word, Option.bind_some, datum, address,
      memory, alike, if_true]
  have goes := goes_of_straight added h within.develops (executeAll_single executed)
  show Arrives L env blocks least (place d fr) _ (assign name x st)
  rw [assign, known]
  refine ⟨_, _, goes, ⟨?_, ?_⟩, rfl, trivial⟩
  · exact matching.mirrors.assign home
      (Layout.constant_eq_false home (Ty.ptr.inj held) scalar) sort
  · rw [Log.rename_assigned, Layout.nameOf_eq home, ← matching.log]
    rfl

end Code

/-! ## Statements that do one thing -/

/-- A format is the text that it was at the start. -/
theorem format_holds {d : Draft} {name text : String} {b : Binding} (part : Part L d)
    (row : formatRows.lookup name = some ⟨name, .ofText text, true⟩)
    (found : d.bindings.lookup name = some b) {σ : Variables} {fr : Frame}
    (mirrors : Mirrors L σ fr.memory) : Holds fr b.storage (.ofString text) := by
  obtain ⟨g, home, stored⟩ := part.home found
  have format : L.home? name = some ⟨name, .ofText text, true⟩ := by
    rw [Layout.home?, List.lookup_append, row]
    rfl
  obtain rfl := Option.some.inj (home.symm.trans format)
  rw [stored]
  exact holds_constant mirrors (L.inventory.mem_globals home) rfl rfl

/-- A number is printed with a format. -/
theorem print_simulates {d : Draft} {name text : String} {b : Binding} {v : Value} {x : Datum}
    {fr : Frame} {least : Nat} (h : Draft.IsOpen d.blocks d.block)
    (within : Within L blocks (d.printed b.storage v))
    (row : formatRows.lookup name = some ⟨name, .ofText text, true⟩)
    (found : d.bindings.lookup name = some b) (kept : Kept d.temps v) (holds : Holds fr v x) :
    Simulates L env blocks least (place d fr)
      (perform env "printf" [.ofString text, x] >>= fun _ => pure ())
      (Comes (d.printed b.storage v) Anything) := by
  have cast := Straight.define d .bytePtr (.cast · .bitcast b.storage)
  have part := within.part.of_straight (cast.trans (.called _ _ _))
  refine (perform_simulates cast h within fun σ mirrors => ?_).drop
  obtain ⟨fr', quiet, format⟩ := bitcast_quiet env (format_holds part row found mirrors)
  exact ⟨fr', quiet, .cons format (.cons (quiet.later.holds kept holds) .nil)⟩

/-- A statement that does one thing is simulated by the instructions for it. -/
theorem performs_simulates {d d' : Draft} {s : Statement} {least fuel : Nat}
    (h : Draft.IsOpen d.blocks d.block) (within : Within L blocks d') (fr : Frame)
    (done : Performs d s d') :
    Simulates L env blocks least (place d fr) (exec env fuel s) (Comes d' Anything) := by
  cases done with
  | @output d₁ _ _ _ v text =>
    obtain ⟨_, value⟩ := text.straight
    have open₁ := value.isOpen h
    have cast := Straight.define d₁ .bytePtr (.cast · .bitcast v)
    have within₁ := within.of_grows ((cast.trans (.called _ _ _)).grows open₁)
    refine (value_simulates text h within₁ fr).2.andThen fun x fr₁ ⟨typed, held⟩ => ?_
    obtain ⟨bytes, rfl⟩ := Datum.type_eq_array typed
    refine (perform_simulates cast open₁ within fun σ mirrors => ?_).drop
    obtain ⟨fr', quiet, passed⟩ := bitcast_quiet env held
    exact ⟨fr', quiet, .cons passed .nil⟩
  | input found held =>
    have called := Straight.called d ⟨getcharName, .i32, [], false⟩ []
    have open₁ := called.isOpen h
    have within₁ := within.of_grows ((Straight.push _ _).grows open₁)
    refine (perform_simulates (.refl d) h within₁ fun σ mirrors =>
      ⟨fr, .refl _ fr, .nil⟩).andThen fun x fr₁ ⟨typed, holds⟩ => ?_
    exact assign_simulates (κ := .int) found held rfl typed holds open₁ within
  | custom => exact .pure ⟨rfl, trivial⟩
  | assign found held scalar value =>
    obtain ⟨_, added⟩ := value.straight
    have open₁ := added.isOpen h
    have within₁ := within.of_grows ((Straight.push _ _).grows open₁)
    refine (value_simulates value h within₁ fr).2.andThen fun x fr₁ ⟨typed, holds⟩ => ?_
    exact assign_simulates (added.bindings ▸ found) held scalar typed holds open₁ within
  | printInt value whole found =>
    obtain ⟨_, added⟩ := value.straight
    have open₁ := added.isOpen h
    obtain ⟨_, pass⟩ := Straight.pass _ _ _
    have open₂ := pass.isOpen open₁
    obtain ⟨_, printed⟩ := Straight.printed _ _ _
    have within₂ := within.of_grows (printed.grows open₂)
    have within₁ := within₂.of_grows (pass.grows open₁)
    obtain ⟨kept, valued⟩ := value_simulates value h within₁ fr
    refine valued.andThen fun x fr₁ ⟨typed, holds⟩ => ?_
    obtain ⟨_, pass, keptPassed, passes⟩ := pass_quiet env _ kept
    obtain ⟨fr₂, quiet, holds⟩ := passes fr₁ x typed holds
    refine .quiet pass open₁ within₂.develops quiet ?_
    exact print_simulates open₂ within rfl (pass.bindings ▸ found) keptPassed holds
  | printReal value found =>
    obtain ⟨_, added⟩ := value.straight
    obtain ⟨_, printed⟩ := Straight.printed _ _ _
    have within₁ := within.of_grows (printed.grows (added.isOpen h))
    obtain ⟨kept, valued⟩ := value_simulates value h within₁ fr
    refine valued.andThen fun x fr₁ ⟨typed, holds⟩ => ?_
    exact print_simulates (added.isOpen h) within rfl found kept holds
  | call value => exact (value_simulates value h within fr).2.drop
  | empty => exact .pure ⟨rfl, trivial⟩

/-! ## Branches and loops -/

section Constructs

variable {fuel : Nat} {d d₁ d₂ d₃ : Draft} {pos : Position} {c : Expression} {v : Value}

/-- A missing alternative runs as an empty one. -/
theorem ifElse_simulates {thenBranch : List Statement} {elseBranch : Option (List Statement)}
    (h : Draft.IsOpen d.blocks d.block) (condition : Emits d c .bool v d₁)
    (first : LowersAll d₁.branch thenBranch d₂)
    (second : LowersAll (d₁.otherwise d₂) (elseBranch.getD []) d₃)
    (within : Within L blocks (d₁.merge d₃ v))
    (thenSimulates : Within L blocks d₂ → ∀ fr, Simulates L env blocks fuel (place d₁.branch fr)
      (execAll env fuel thenBranch) (Comes d₂ Anything))
    (elseSimulates : Within L blocks d₃ → ∀ fr, Simulates L env blocks fuel
      (place (d₁.otherwise d₂) fr) (execAll env fuel (elseBranch.getD [])) (Comes d₃ Anything))
    (fr : Frame) :
    Simulates L env blocks fuel (place d fr) (exec env fuel (.ifElse pos c thenBranch elseBranch))
      (Comes (d₁.merge d₃ v) Anything) := by
  obtain ⟨_, added⟩ := condition.straight
  have open₁ := added.isOpen h
  have region₁ := first.region (isOpen_branch _)
  have region₂ := second.region (isOpen_otherwise region₁)
  have withinRejoin := within.of_grows (grows_merge (isOpen_rejoin open₁ region₁ region₂))
  have within₃ := withinRejoin.of_grows (grows_rejoin region₂.isOpen)
  have withinElse := within₃.of_grows (second.grows (isOpen_otherwise region₁))
  have within₂ := withinElse.of_grows (grows_otherwise region₁.isOpen)
  have within₁ := within₂.of_grows ((grows_branch _).trans (first.grows (isOpen_branch _)))
  have whole : exec env fuel (.ifElse pos c thenBranch elseBranch) =
      asks env c >>= fun b =>
        if b then execAll env fuel thenBranch else execAll env fuel (elseBranch.getD []) := by
    cases elseBranch <;> rfl
  rw [whole]
  refine (asks_simulates condition h within₁ fr).andThen fun b fr₁ decides => ?_
  have stepped := step_branch env open₁ region₁ region₂ within.develops decides
  cases b with
  | true =>
    refine .step stepped rfl ((thenSimulates within₂ fr₁).andStep fun fr => ?_)
    exact step_otherwise open₁ region₁ region₂ withinElse.develops
  | false =>
    refine .step stepped rfl ((elseSimulates within₃ fr₁).andStep fun fr => ?_)
    exact step_rejoin open₁ region₁ region₂ withinRejoin.develops

/-- Every round starts at the condition again, with whatever frame the last one has left. -/
theorem while_simulates {body : List Statement} (h : Draft.IsOpen d.blocks d.block)
    (condition : Emits d.loop c .bool v d₁) (inner : LowersAll (d.loopBody d₁ v) body d₂)
    (within : Within L blocks (d.endLoop d₂))
    (bodySimulates : Within L blocks d₂ → ∀ fr, Simulates L env blocks fuel
      (place (d.loopBody d₁ v) fr) (execAll env fuel body) (Comes d₂ Anything)) (fr : Frame) :
    Simulates L env blocks fuel (place d fr) (exec env fuel (.while pos c body))
      (Comes (d.endLoop d₂) Anything) := by
  obtain ⟨_, added⟩ := condition.straight
  have region₁ := added.region (isOpen_loop h)
  have openBody : Draft.IsOpen (d.loopBody d₁ v).blocks (d.loopBody d₁ v).block :=
    isOpen_loopBody h region₁
  have region₂ := inner.region openBody
  have within₂ := within.of_grows (grows_endLoop region₂.isOpen)
  have withinBody := within₂.of_grows (inner.grows openBody)
  have within₁ := withinBody.of_grows (grows_loopBody region₁.isOpen)
  have withinLoop := within₁.of_grows (added.grows (isOpen_loop h))
  refine .step (step_loop h withinLoop.develops fr) rfl ?_
  refine Simulates.iterate (fun fr => ?_) (Nat.le_refl fuel) fr
  refine (asks_simulates condition (isOpen_loop h) within₁ fr).andThen fun b fr₁ decides => ?_
  have stepped := step_loopBody env h region₁ region₂ withinBody.develops decides
  cases b with
  | true =>
    refine .step stepped rfl ((bodySimulates within₂ fr₁).andThen fun _ fr₂ _ => .pure ?_)
    exact step_endLoop h region₂.isOpen within.develops
  | false => exact .pure stepped

/-- Body and condition are one region, with no edge between them. -/
theorem repeat_simulates {body : List Statement} (h : Draft.IsOpen d.blocks d.block)
    (inner : LowersAll d.again body d₁) (condition : Emits d₁ c .bool v d₂)
    (within : Within L blocks (d.endAgain d₂ v))
    (bodySimulates : Within L blocks d₁ → ∀ fr, Simulates L env blocks fuel (place d.again fr)
      (execAll env fuel body) (Comes d₁ Anything)) (fr : Frame) :
    Simulates L env blocks fuel (place d fr) (exec env fuel (.repeat pos body c))
      (Comes (d.endAgain d₂ v) Anything) := by
  have region₁ := inner.region (isOpen_again h)
  obtain ⟨_, added⟩ := condition.straight
  have region₂ := region₁.trans (added.region region₁.isOpen)
  have within₂ := within.of_grows (grows_endAgain region₂.isOpen)
  have within₁ := within₂.of_grows (added.grows region₁.isOpen)
  have withinLoop := within₁.of_grows (inner.grows (isOpen_again h))
  refine .step (step_again h withinLoop.develops fr) rfl ?_
  refine Simulates.iterate (fun fr => ?_) (Nat.le_refl fuel) fr
  refine (bodySimulates within₁ fr).andThen fun _ fr₁ _ => ?_
  refine (asks_simulates condition region₁.isOpen within₂ fr₁).andThen fun b fr₂ decides => ?_
  have stepped := step_endAgain env h region₂ within.develops decides
  cases b with
  | true => exact .pure stepped
  | false => exact .pure stepped

end Constructs

/-! ## All statements -/

mutual

/-- A statement is simulated by the blocks that it is lowered to. -/
theorem simulates (env : Environment) (fuel : Nat) {d d' : Draft} {s : Statement}
    (h : Draft.IsOpen d.blocks d.block) (within : Within L blocks d') :
    Lowers d s d' → ∀ fr, Simulates L env blocks fuel (place d fr) (exec env fuel s)
      (Comes d' Anything)
  | .performs done, fr => performs_simulates h within fr done
  | .declare _ _ _, _ => .pure ⟨rfl, trivial⟩
  | .ifElse condition first second, fr =>
    ifElse_simulates h condition first second within
      (fun within₂ => simulatesAll env fuel (isOpen_branch _) within₂ first)
      (fun within₃ =>
        simulatesAll env fuel (isOpen_otherwise (first.region (isOpen_branch _))) within₃ second) fr
  | .while condition inner, fr => by
    obtain ⟨_, added⟩ := condition.straight
    have region₁ := added.region (isOpen_loop h)
    exact while_simulates h condition inner within
      (fun within₂ => simulatesAll env fuel (isOpen_loopBody h region₁) within₂ inner) fr
  | .repeat inner condition, fr =>
    repeat_simulates h inner condition within
      (fun within₁ => simulatesAll env fuel (isOpen_again h) within₁ inner) fr

/-- Statements in a row are simulated by the blocks that they are lowered to. -/
theorem simulatesAll (env : Environment) (fuel : Nat) {d d' : Draft} {ss : List Statement}
    (h : Draft.IsOpen d.blocks d.block) (within : Within L blocks d') :
    LowersAll d ss d' → ∀ fr, Simulates L env blocks fuel (place d fr) (execAll env fuel ss)
      (Comes d' Anything)
  | .nil, _ => .pure ⟨rfl, trivial⟩
  | .cons head tail, fr => by
    have open₁ := (head.region h).isOpen
    have within₁ := within.of_grows (tail.grows open₁)
    exact (simulates env fuel h within₁ head fr).andThen fun _ fr₁ _ =>
      simulatesAll env fuel open₁ within tail fr₁

end

end Pseudocode.Execution
