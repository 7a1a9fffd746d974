import Pseudocode.Proofs.Lowering.Emission

/-! # Lowering an expression and checking it

The static rules are not checked anywhere before the lowering: each step of it refuses
what it cannot work on. Here the two are run side by side.

* `Follows n checked result P`: a step of the lowering succeeds exactly when the check
  does, with a result that satisfies `P`, and else fails with the breach that was found.
* `Agrees bindings Γ`: the variables that are bound are those that the rules know.
* `expression_follows`: the lowering of an expression follows `Typing.kindOf`.
-/

namespace Pseudocode.Lowering

open Assembly Typing

/-! ## Two computations side by side -/

/-- The result of a step, given what a check has found. A failure leaves a draft of so
    many scopes. -/
def Follows {α β : Type} (depth : Nat) (checked : Except Diagnostic β)
    (result : EStateM.Result Diagnostic State α) (P : β → α → Draft → Prop) : Prop :=
  match checked with
  | .ok b => ∃ (a : α) (d : Draft), result = .ok a d.state ∧ P b a d
  | .error x => ∃ d : Draft, result = .error x d.state ∧ d.depth = depth

namespace Follows

variable {α β γ δ : Type} {depth : Nat}

theorem bind {checked : Except Diagnostic β} {next : β → Except Diagnostic γ} {x : Lower α}
    {f : α → Lower δ} {s : State} {P : β → α → Draft → Prop} {Q : γ → δ → Draft → Prop}
    (first : Follows depth checked (x s) P)
    (second : ∀ b a d, P b a d → Follows depth (next b) (f a d.state) Q) :
    Follows depth (checked >>= next) ((x >>= f) s) Q := by
  cases checked with
  | error breach =>
    obtain ⟨d, failed, same⟩ := first
    exact ⟨d, bind_error failed, same⟩
  | ok b =>
    obtain ⟨a, d, succeeded, holds⟩ := first
    rw [bind_ok succeeded]
    exact second b a d holds

/-- What the check has found may be used as well. -/
theorem imp {checked : Except Diagnostic β} {result : EStateM.Result Diagnostic State α}
    {P Q : β → α → Draft → Prop} (first : Follows depth checked result P)
    (implies : ∀ b a d, checked = .ok b → P b a d → Q b a d) : Follows depth checked result Q := by
  cases checked with
  | error breach => exact first
  | ok b =>
    obtain ⟨a, d, succeeded, holds⟩ := first
    exact ⟨a, d, succeeded, implies b a d rfl holds⟩

/-- A step that needs no check. -/
theorem step {b : β} {a : α} {result : EStateM.Result Diagnostic State α} {d : Draft}
    {P : β → α → Draft → Prop} (succeeded : result = .ok a d.state) (holds : P b a d) :
    Follows depth (.ok b) result P :=
  ⟨a, d, succeeded, holds⟩

/-- A step of the lowering that does nothing the check knows of. -/
theorem step_bind {checked : Except Diagnostic γ} {x : Lower α} {f : α → Lower δ} {s : State}
    {a : α} {d : Draft} {Q : γ → δ → Draft → Prop} (succeeded : x s = .ok a d.state)
    (rest : Follows depth checked (f a d.state) Q) : Follows depth checked ((x >>= f) s) Q := by
  rw [bind_ok succeeded]
  exact rest

/-- A step that the check knows of, and then one that needs no check. -/
theorem bind_step {checked : Except Diagnostic β} {x : Lower α} {f : α → Lower δ} {s : State}
    {P : β → α → Draft → Prop} {Q : β → δ → Draft → Prop} (first : Follows depth checked (x s) P)
    (rest : ∀ b a d, P b a d → ∃ r d', f a d.state = .ok r d'.state ∧ Q b r d') :
    Follows depth checked ((x >>= f) s) Q := by
  cases checked with
  | error breach =>
    obtain ⟨d, failed, same⟩ := first
    exact ⟨d, bind_error failed, same⟩
  | ok b =>
    obtain ⟨a, d, succeeded, holds⟩ := first
    obtain ⟨r, d', succeeded', holds'⟩ := rest b a d holds
    exact ⟨r, d', (bind_ok succeeded).trans succeeded', holds'⟩

theorem fail {breach : Diagnostic} {result : EStateM.Result Diagnostic State α} {d : Draft}
    {P : β → α → Draft → Prop} (failed : result = .error breach d.state) (same : d.depth = depth) :
    Follows depth (.error breach) result P :=
  ⟨d, failed, same⟩

/-- What the check has accepted succeeds. -/
theorem accepted {checked : Except Diagnostic β} {result : EStateM.Result Diagnostic State α}
    {P : β → α → Draft → Prop} {b : β} (first : Follows depth checked result P)
    (found : checked = .ok b) : ∃ a d, result = .ok a d.state ∧ P b a d := by
  rw [found] at first
  exact first

/-- What the check has refused fails. -/
theorem refused {checked : Except Diagnostic β} {result : EStateM.Result Diagnostic State α}
    {P : β → α → Draft → Prop} {breach : Diagnostic} (first : Follows depth checked result P)
    (found : checked = .error breach) : ∃ d : Draft, result = .error breach d.state ∧
      d.depth = depth := by
  rw [found] at first
  exact first

end Follows

/-! ## The variables -/

/-- What a variable is bound to is what the rules know of it. -/
def Known (b : String × Binding) (entry : String × Entry) : Prop :=
  b.1 = entry.1 ∧ b.2.declaredAt = entry.2.declaredAt ∧
    ∃ name, b.2.storage = .global name (.ptr entry.2.kind.stored)

/-- The variables that are bound are those that the rules know, in the same order. -/
def Agrees (bindings : List (String × Binding)) (Γ : Env) : Prop :=
  List.Forall₂ Known bindings Γ

namespace Agrees

variable {bindings : List (String × Binding)} {Γ : Env} {name : String}

theorem lookup_none (h : Agrees bindings Γ) (new : Γ.lookup name = none) :
    bindings.lookup name = none := by
  induction h with
  | nil => rfl
  | @cons b entry bindings Γ known _ ih =>
    rw [List.lookup_cons] at new ⊢
    rw [known.1]
    split at new
    · cases new
    · exact ih new

theorem lookup_some {entry : Entry} (h : Agrees bindings Γ) (found : Γ.lookup name = some entry) :
    ∃ b, bindings.lookup name = some b ∧ b.declaredAt = entry.declaredAt ∧
      ∃ global, b.storage = .global global (.ptr entry.kind.stored) := by
  induction h with
  | nil => cases found
  | @cons b entry' bindings Γ known _ ih =>
    rw [List.lookup_cons] at found ⊢
    rw [known.1]
    split at found
    · cases found
      exact ⟨b.2, rfl, known.2⟩
    · exact ih found

end Agrees

/-! ## Operators -/

theorem zext_state {d : Draft} (h : Draft.IsOpen d.blocks d.block) (v : Value) (t : Ty) :
    zext v t d.state = .ok (d.next t) (d.define t (.cast · .zext v)).state :=
  define_state h t _

theorem bitcast_state {d : Draft} (h : Draft.IsOpen d.blocks d.block) (v : Value) (t : Ty) :
    bitcast v t d.state = .ok (d.next t) (d.define t (.cast · .bitcast v)).state :=
  define_state h t _

def operandsAt (κ : Kind) (lhs rhs : Value) : Operands :=
  match κ with
  | .real => .doubles lhs rhs
  | _ => .integers lhs rhs

/-- Five pairs of kinds join, and only a boolean beside an integer takes an instruction. -/
theorem unify_join {d : Draft} {op : Operator} {pos : Position} {κl κr κ : Kind} {l r : Value}
    (h : Draft.IsOpen d.blocks d.block) (left : l.type = κl.ty) (right : r.type = κr.ty)
    (joined : κl.join? κr = some κ) :
    unify op pos l r d.state =
      .ok (operandsAt κ (d.widened κl κ l) ((d.widen κl κ l).widened κr κ r))
        ((d.widen κl κ l).widen κr κ r).state := by
  have wideLeft := zext_state h l .i32
  have wideRight := zext_state h r .i32
  cases κl <;> cases κr <;> cases joined <;>
    simp only [unify, left, right, Kind.ty, Ty.width?, Ty.isDouble, Draft.widened, Draft.widen,
      operandsAt, if_true]
  case int.int | bool.bool | real.real => rfl
  case int.bool => exact bind_ok wideRight
  case bool.int => exact bind_ok wideLeft

theorem unify_apart (d : Draft) (op : Operator) (pos : Position) {κl κr : Kind} {l r : Value}
    (left : l.type = κl.ty) (right : r.type = κr.ty) (apart : κl.join? κr = none) :
    Follows d.depth (binaryKind op pos κl κr) (unify op pos l r d.state)
      fun _ _ _ => False := by
  cases κl <;> cases κr <;> cases apart <;>
    simp only [unify, left, right, Kind.ty, Ty.width?, Ty.isDouble, binaryKind, Kind.join?,
      Kind.isText] <;>
    exact .fail rfl rfl

theorem binary_state {d : Draft} (h : Draft.IsOpen d.blocks d.block) (op : BinaryOp)
    (l r : Value) :
    binary op l r d.state = .ok (d.next l.type) (d.define l.type (.binary · op l r)).state :=
  define_state h l.type _

theorem widened_type {d : Draft} {κ κ' : Kind} {v : Value} (typed : v.type = κ.ty)
    (wide : κ = κ' ∨ κ = .bool ∧ κ' = .int) : (d.widened κ κ' v).type = κ'.ty := by
  obtain rfl | ⟨rfl, rfl⟩ := wide
  · cases κ <;> exact typed
  · rfl

theorem arithmetic_join {d : Draft} {a : Arithmetic} {pos : Position} {κl κr κ : Kind}
    {l r : Value} (h : Draft.IsOpen d.blocks d.block) (left : l.type = κl.ty)
    (right : r.type = κr.ty) (joined : κl.join? κr = some κ) :
    let d₁ := d.widen κl κ l
    let d₂ := d₁.widen κr κ r
    arithmetic a pos l r d.state = .ok (d₂.next κ.ty) (d₂.define κ.ty
      (operatorInstr (.arithmetic a) κ (d.widened κl κ l) (d₁.widened κr κ r))).state := by
  intro d₁ d₂
  obtain ⟨code, wide⟩ := Straight.widenBoth d κl κr κ l r
  have isOpen := wide.isOpen h
  have type := widened_type (d := d) left (Kind.joins_of_join? joined).1
  have notText := Kind.isText_of_join? joined
  refine (bind_ok (unify_join h left right joined)).trans ?_
  cases κ with
  | text _ => cases notText
  | int | bool | real =>
    refine (binary_state isOpen _ _ _).trans ?_
    rw [type]
    rfl

theorem compare_join {d : Draft} {c : Comparison} {pos : Position} {κl κr κ : Kind}
    {l r : Value} (h : Draft.IsOpen d.blocks d.block) (left : l.type = κl.ty)
    (right : r.type = κr.ty) (joined : κl.join? κr = some κ) :
    let d₁ := d.widen κl κ l
    let d₂ := d₁.widen κr κ r
    compare c pos l r d.state = .ok (d₂.next .i1) (d₂.define .i1
      (operatorInstr (.compare c) κ (d.widened κl κ l) (d₁.widened κr κ r))).state := by
  intro d₁ d₂
  obtain ⟨code, wide⟩ := Straight.widenBoth d κl κr κ l r
  have isOpen := wide.isOpen h
  have notText := Kind.isText_of_join? joined
  refine (bind_ok (unify_join h left right joined)).trans ?_
  cases κ with
  | text _ => cases notText
  | int | bool | real => exact define_state isOpen .i1 _

/-- Kinds that do not join are refused by every operator. -/
theorem binaryKind_apart (op : Operator) (pos : Position) {κl κr : Kind}
    (apart : κl.join? κr = none) : ∃ breach, binaryKind op pos κl κr = .error breach := by
  unfold binaryKind
  rw [apart]
  dsimp only
  split <;> exact ⟨_, rfl⟩

/-- An operator on two values follows the check of their kinds. -/
theorem operate_follows {d : Draft} {op : Operator} {pos : Position} {κl κr : Kind}
    {l r : Value} (h : Draft.IsOpen d.blocks d.block) (left : l.type = κl.ty)
    (right : r.type = κr.ty) :
    Follows d.depth (binaryKind op pos κl κr) (operate op pos l r d.state) fun κ' v d' =>
      ∃ κ, κl.join? κr = some κ ∧ κ' = resultKind op κ ∧
        v = ((d.widen κl κ l).widen κr κ r).next κ'.ty ∧
        d' = ((d.widen κl κ l).widen κr κ r).define κ'.ty
          (operatorInstr op κ (d.widened κl κ l) ((d.widen κl κ l).widened κr κ r)) := by
  cases joined : κl.join? κr with
  | some κ =>
    rw [binaryKind, joined]
    cases op with
    | compare c => exact .step (compare_join h left right joined) ⟨κ, rfl, rfl, rfl, rfl⟩
    | arithmetic a => exact .step (arithmetic_join h left right joined) ⟨κ, rfl, rfl, rfl, rfl⟩
  | none =>
    obtain ⟨breach, refused⟩ := binaryKind_apart op pos joined
    obtain ⟨d', failed, same⟩ := (unify_apart d op pos left right joined).refused refused
    rw [refused]
    cases op <;> exact .fail (bind_error failed) same

theorem not_follows {d : Draft} {pos : Position} {κ : Kind} {v : Value}
    (h : Draft.IsOpen d.blocks d.block) (typed : v.type = κ.ty) :
    Follows d.depth (notKind pos κ) (not pos v d.state) fun κ' w d' =>
      κ = .bool ∧ κ' = .bool ∧ w = d.next .i1 ∧
        d' = d.define .i1 (.binary · .xor v (.bool true)) := by
  cases κ with
  | bool =>
    have result := binary_state h .xor v (.bool true)
    rw [typed] at result
    refine .step ?_ ⟨rfl, rfl, rfl, rfl⟩
    simp only [Lowering.not, typed]
    exact result
  | text _ | int | real =>
    simp only [Lowering.not, typed]
    exact .fail rfl rfl

theorem negate_follows {d : Draft} {pos : Position} {κ : Kind} {v : Value}
    (h : Draft.IsOpen d.blocks d.block) (typed : v.type = κ.ty) :
    Follows d.depth (negateKind pos κ) (negate pos v d.state) fun κ' w d' =>
      (κ = .int ∨ κ = .real) ∧ κ' = κ ∧ w = d.next κ.ty ∧
        d' = d.define κ.ty (negateInstr κ v) := by
  cases κ with
  | int =>
    refine .step ?_ ⟨.inl rfl, rfl, rfl, rfl⟩
    simp only [negate, typed, Kind.ty]
    exact binary_state h .sub (.i32 0) v
  | real =>
    refine .step ?_ ⟨.inr rfl, rfl, rfl, rfl⟩
    simp only [negate, typed, Kind.ty]
    exact binary_state h .fsub (.double .zero) v
  | text _ | bool =>
    simp only [negate, typed, Kind.ty]
    exact .fail rfl rfl

/-! ## Variables -/

theorem storageOf_follows {d : Draft} {Γ : Env} (k : Key) (agrees : Agrees d.bindings Γ) :
    Follows d.depth (find Γ k) (storageOf k d.state) fun entry storage d' =>
      d' = d ∧ ∃ b, d.bindings.lookup k.firstName = some b ∧ b.storage = storage ∧
        storage.type = .ptr entry.kind.stored := by
  have looked := resolve?_state d k.firstName
  rw [storageOf, k.root_eq_firstName]
  cases found : Γ.lookup k.firstName with
  | some entry =>
    obtain ⟨b, bound, _, global, stored⟩ := agrees.lookup_some found
    rw [bound] at looked
    rw [find, found]
    exact .step_bind looked (.step rfl ⟨rfl, b, bound, rfl, by rw [stored]; rfl⟩)
  | none =>
    rw [agrees.lookup_none found] at looked
    rw [find, found]
    exact .step_bind looked (.fail rfl rfl)

theorem load_follows {d : Draft} {Γ : Env} (k : Key) (h : Draft.IsOpen d.blocks d.block)
    (agrees : Agrees d.bindings Γ) :
    Follows d.depth (kindOf Γ (.key k)) (load k d.state) fun κ v d' => Emits d (.key k) κ v d' := by
  have checked : kindOf Γ (.key k) = find Γ k >>= fun entry => .ok entry.kind := by
    cases found : Γ.lookup k.firstName <;> simp [kindOf, find, found, Except.map, Bind.bind, Except.bind]
  rw [checked]
  refine (storageOf_follows k agrees).bind ?_
  rintro entry storage d' ⟨rfl, b, bound, rfl, typed⟩
  simp only [typed, Ty.pointee?]
  cases kind : entry.kind with
  | text size =>
    rw [kind] at typed
    exact .step rfl (.text bound typed)
  | int | real | bool =>
    rw [kind] at typed
    exact .step (define_state h _ _) (.load bound typed rfl)

/-! ## Calls -/

/-- The signature that a prototype stands for. -/
def signatureOf (name : String) (f : Prototype) : Signature :=
  ⟨name, .i32, List.replicate f.texts .bytePtr, f.variadic⟩

theorem builtin?_eq (name : String) :
    builtin? name = (prototypes.lookup name).map (signatureOf name) := by
  by_cases puts : name = "puts"
  · subst puts
    rfl
  by_cases printf : name = "printf"
  · subst printf
    rfl
  by_cases getchar : name = "getchar"
  · subst getchar
    rfl
  simp [builtin?, builtins, putsName, printfName, getcharName, prototypes, List.lookup_cons, puts,
    printf, getchar, beq_eq_false_iff_ne.mpr]

theorem promote_state {d : Draft} {κ : Kind} {v : Value} (h : Draft.IsOpen d.blocks d.block)
    (typed : v.type = κ.ty) : promote v d.state = .ok (d.passed κ v) (d.pass κ v).state := by
  have cast := bitcast_state h v .bytePtr
  have wide := zext_state h v .i32
  cases κ with
  | text size =>
    rw [promote, if_pos (by simp [typed, Kind.ty, Ty.isPointer, Ty.bytePtr])]
    exact cast
  | bool =>
    rw [promote, if_neg (by simp [typed, Kind.ty, Ty.isPointer])]
    simp only [typed, Kind.ty, Ty.width?]
    exact wide
  | int | real =>
    rw [promote, if_neg (by simp [typed, Kind.ty, Ty.isPointer])]
    simp only [typed, Kind.ty, Ty.width?]
    rfl

/-- An argument for a parameter that is a text. -/
theorem argument_follows {d : Draft} {pos : Position} {name : String} {index : Nat} {κ : Kind}
    {v : Value} (h : Draft.IsOpen d.blocks d.block) (typed : v.type = κ.ty) :
    Follows d.depth
      (if κ.isText then .ok () else .error (.type pos (.argument index name .bytePtr κ.ty)))
      (argument pos name index .bytePtr v d.state)
      fun _ w d' => w = d.passed κ v ∧ d' = d.pass κ v := by
  have cast := bitcast_state h v .bytePtr
  cases κ <;>
    simp only [argument, typed, Kind.ty, Kind.isText, Ty.isPointer, Ty.width?, if_true]
  case text size => exact .step cast ⟨rfl, rfl⟩
  case int | real | bool => exact .fail rfl rfl

theorem matchArguments_tail {pos : Position} {name : String} {vs : List (Kind × Value)}
    (typed : ∀ v ∈ vs, v.2.type = v.1.ty) :
    ∀ (index : Nat) {d : Draft}, Draft.IsOpen d.blocks d.block →
      matchArguments pos name index [] (vs.map Prod.snd) d.state =
        .ok (d.passedAll vs) (d.passAll vs).state := by
  induction vs with
  | nil => intros; rfl
  | cons v vs ih =>
    intro index d h
    obtain ⟨code, pass⟩ := Straight.pass d v.1 v.2
    have head := promote_state h (typed v (by simp))
    have tail := ih (fun v member => typed v (by simp [member])) (index + 1) (pass.isOpen h)
    exact (bind_ok head).trans (bind_ok tail)

theorem matchArguments_follows {pos : Position} {name : String} {vs : List (Kind × Value)}
    (typed : ∀ v ∈ vs, v.2.type = v.1.ty) :
    ∀ (index texts : Nat) {d : Draft}, Draft.IsOpen d.blocks d.block →
      Follows d.depth (expectTexts pos name index ((vs.map Prod.fst).take texts))
        (matchArguments pos name index (List.replicate texts .bytePtr) (vs.map Prod.snd) d.state)
        fun _ ws d' => ws = d.passedAll vs ∧ d' = d.passAll vs := by
  induction vs with
  | nil =>
    intro index texts d h
    cases texts <;> exact .step rfl ⟨rfl, rfl⟩
  | cons v vs ih =>
    intro index texts d h
    cases texts with
    | zero => exact .step (matchArguments_tail typed index h) ⟨rfl, rfl⟩
    | succ texts =>
      obtain ⟨code, pass⟩ := Straight.pass d v.1 v.2
      have split : expectTexts pos name index (((v :: vs).map Prod.fst).take (texts + 1)) =
          ((if v.1.isText then .ok ()
            else .error (.type pos (.argument index name .bytePtr v.1.ty))) >>= fun _ =>
              expectTexts pos name (index + 1) ((vs.map Prod.fst).take texts)) := by
        cases text : v.1.isText <;> simp [expectTexts, text, Bind.bind, Except.bind]
      rw [split]
      refine (argument_follows h (typed v (by simp))).bind ?_
      rintro _ w d' ⟨rfl, rfl⟩
      have tail := ih (fun v member => typed v (by simp [member])) (index + 1) texts
        (pass.isOpen h)
      rw [pass.depth] at tail
      have last : expectTexts pos name (index + 1) ((vs.map Prod.fst).take texts) =
          (expectTexts pos name (index + 1) ((vs.map Prod.fst).take texts) >>= fun _ => .ok ()) := by
        cases expectTexts pos name (index + 1) ((vs.map Prod.fst).take texts) <;> rfl
      rw [last]
      refine tail.bind ?_
      rintro _ ws d'' ⟨rfl, rfl⟩
      exact .step rfl ⟨rfl, rfl⟩

theorem emitCall_state {d : Draft} (h : Draft.IsOpen d.blocks d.block) (f : Signature)
    (args : List Value) :
    emitCall f args d.state = .ok (d.next f.result)
      (d.define f.result fun dst => .call (some dst) f args).state :=
  define_state h f.result _

/-- A call with arguments that are lowered already follows the check of their kinds. -/
theorem call_follows {d : Draft} {pos : Position} {name : String} {vs : List (Kind × Value)}
    (h : Draft.IsOpen d.blocks d.block) (typed : ∀ v ∈ vs, v.2.type = v.1.ty) :
    Follows d.depth (callKind pos name (vs.map Prod.fst))
      (call pos name (vs.map Prod.snd) d.state) fun κ v d' =>
        κ = .int ∧ v = (d.passAll vs).next .i32 ∧ ∃ f, builtin? name = some f ∧
          d' = (d.passAll vs).define .i32 fun dst => .call (some dst) f (d.passedAll vs) := by
  have looked : function? name d.state = .ok (builtin? name) d.state := rfl
  have known := builtin?_eq name
  unfold callKind
  cases found : prototypes.lookup name with
  | none =>
    rw [found] at known
    rw [known] at looked
    exact .step_bind looked (.fail rfl rfl)
  | some f =>
    rw [found] at known
    rw [known] at looked
    have fits : takes (signatureOf name f) (vs.map Prod.snd).length =
        f.fits (vs.map Prod.fst).length := by
      simp [takes, signatureOf, Prototype.fits]
    refine .step_bind looked ?_
    cases admitted : f.fits (vs.map Prod.fst).length with
    | false =>
      simp only [Option.map_some, fits, admitted]
      refine .fail ?_ rfl
      simp only [signatureOf, List.length_replicate, List.length_map]
      rfl
    | true =>
      simp only [Option.map_some, fits, admitted, if_true]
      have mapped : (expectTexts pos name 0 ((vs.map Prod.fst).take f.texts)).map
          (fun _ => Kind.int) =
          (expectTexts pos name 0 ((vs.map Prod.fst).take f.texts) >>= fun _ => .ok .int) := by
        cases expectTexts pos name 0 ((vs.map Prod.fst).take f.texts) <;> rfl
      rw [mapped]
      refine (matchArguments_follows typed 0 f.texts h).bind ?_
      rintro _ ws d' ⟨rfl, rfl⟩
      obtain ⟨code, pass⟩ := Straight.passAll d vs
      exact .step (emitCall_state (pass.isOpen h) _ _) ⟨rfl, rfl, _, known, rfl⟩

/-! ## Expressions -/

mutual

/-- The lowering of an expression follows the check of it. -/
theorem expression_follows {Γ : Env} : ∀ (e : Expression) {d : Draft},
    Draft.IsOpen d.blocks d.block → Agrees d.bindings Γ →
      Follows d.depth (kindOf Γ e) (expression e d.state) fun κ v d' => Emits d e κ v d'
  | .constant (.bool b), _, _, _ => .step rfl (.bool b)
  | .constant (.integer n), _, _, _ => .step rfl (.integer n)
  | .constant (.real x), _, _, _ => .step rfl (.real x)
  | .constant (.string s), d, _, _ => .step (addString_state d s) (.string s)
  | .key k, _, h, agrees => load_follows k h agrees
  | .parenthesized e, _, h, agrees =>
    (expression_follows e h agrees).imp fun _ _ _ _ inner => .parenthesized inner
  | .not pos e, d, h, agrees => by
    refine (expression_follows e h agrees).bind fun κ v d₁ operand => ?_
    obtain ⟨code, added⟩ := operand.straight
    rw [← added.depth]
    refine (not_follows (added.isOpen h) operand.type_eq).imp ?_
    rintro κ' w d₂ _ ⟨rfl, rfl, rfl, rfl⟩
    exact .not operand
  | .negate pos e, d, h, agrees => by
    refine (expression_follows e h agrees).bind fun κ v d₁ operand => ?_
    obtain ⟨code, added⟩ := operand.straight
    rw [← added.depth]
    refine (negate_follows (added.isOpen h) operand.type_eq).imp ?_
    rintro κ' w d₂ _ ⟨signed, rfl, rfl, rfl⟩
    exact .negate operand signed
  | .binary op pos l r, d, h, agrees => by
    refine (expression_follows l h agrees).bind fun κl vl d₁ left => ?_
    obtain ⟨code, added⟩ := left.straight
    rw [← added.depth]
    refine (expression_follows r (added.isOpen h) (added.bindings ▸ agrees)).bind
      fun κr vr d₂ right => ?_
    obtain ⟨code₁, added₁⟩ := right.straight
    rw [← added₁.depth]
    refine (operate_follows (added₁.isOpen (added.isOpen h)) left.type_eq right.type_eq).imp ?_
    rintro κ' v d₃ _ ⟨κ, joined, rfl, rfl, rfl⟩
    exact .binary left right joined rfl rfl
  | .call pos name es, d, h, agrees => by
    refine (expressions_follow es h agrees).bind ?_
    rintro κs _ d₁ ⟨vs, args, rfl, rfl⟩
    obtain ⟨code, added⟩ := args.straight
    rw [← added.depth]
    refine (call_follows (added.isOpen h) args.type_eq).imp ?_
    rintro κ v d₂ admitted ⟨rfl, rfl, f, known, rfl⟩
    exact .call args admitted known rfl

/-- The lowering of expressions in a row follows the check of them. -/
theorem expressions_follow {Γ : Env} : ∀ (es : List Expression) {d : Draft},
    Draft.IsOpen d.blocks d.block → Agrees d.bindings Γ →
      Follows d.depth (kindsOf Γ es) (expressions es d.state) fun κs vs d' =>
        ∃ kvs, EmitsAll d es kvs d' ∧ κs = kvs.map Prod.fst ∧ vs = kvs.map Prod.snd
  | [], _, _, _ => .step rfl ⟨[], .nil, rfl, rfl⟩
  | e :: es, d, h, agrees => by
    refine (expression_follows e h agrees).bind fun κ v d₁ head => ?_
    obtain ⟨code, added⟩ := head.straight
    rw [← added.depth]
    refine (expressions_follow es (added.isOpen h) (added.bindings ▸ agrees)).bind ?_
    rintro _ _ d₂ ⟨kvs, tail, rfl, rfl⟩
    exact .step rfl ⟨(κ, v) :: kvs, .cons head tail, rfl, rfl⟩

end

end Pseudocode.Lowering
