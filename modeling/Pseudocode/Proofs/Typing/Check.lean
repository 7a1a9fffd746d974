import Pseudocode.Diagnostic
import Pseudocode.Proofs.Typing.Rules

/-! # Checking the static rules

A program is gone through in the order of evaluation: operands and arguments from left
to right, then what is done with them; conditions before bodies, except behind a
REPEAT; statement after statement. The first breach of a rule is the answer.

* `Typing.kindOf` gives the kind of an expression or the first breach in it.
* `Typing.check` and `Typing.checkAll` do the same for statements, which extend the names.
* `checkAll_eq_ok` says that no breach is found exactly when the rules admit the program.
-/

namespace Pseudocode.Typing

/-! ## Calls -/

/-- What a function takes: so many texts, and then anything if it is variadic. -/
structure Prototype where
  texts : Nat
  variadic : Bool
deriving DecidableEq

def prototypes : List (String × Prototype) :=
  [("puts", ⟨1, false⟩), ("printf", ⟨1, true⟩), ("getchar", ⟨0, false⟩)]

/-- So many arguments fit the function. -/
def Prototype.fits (f : Prototype) (count : Nat) : Bool :=
  if f.variadic then f.texts ≤ count else f.texts = count

/-- The first of the arguments, which are counted from `index` on, that is no text. -/
def expectTexts (pos : Position) (name : String) : (index : Nat) → List Kind → Except Diagnostic Unit
  | _, [] => .ok ()
  | index, κ :: κs =>
    if κ.isText then expectTexts pos name (index + 1) κs
    else .error (.type pos (.argument index name .bytePtr κ.ty))

def callKind (pos : Position) (name : String) (κs : List Kind) : Except Diagnostic Kind :=
  match prototypes.lookup name with
  | none => .error (.resolution pos (.undefinedFunction name))
  | some f =>
    if f.fits κs.length then (expectTexts pos name 0 (κs.take f.texts)).map fun _ => .int
    else .error (.resolution pos (.argumentCount name f.variadic f.texts κs.length))

/-! ## Operators and names -/

def notKind (pos : Position) (κ : Kind) : Except Diagnostic Kind :=
  if κ = .bool then .ok .bool else .error (.type pos (.undefinedFor .not κ.ty))

def negateKind (pos : Position) (κ : Kind) : Except Diagnostic Kind :=
  if κ = .int ∨ κ = .real then .ok κ else .error (.type pos (.undefinedFor .negation κ.ty))

/-- The kind of an operator with operands of these kinds. A text on the left has no
    operators at all. -/
def binaryKind (op : Operator) (pos : Position) (l r : Kind) : Except Diagnostic Kind :=
  match l.join? r with
  | some κ => .ok (resultKind op κ)
  | none =>
    if l.isText then .error (.type pos (.undefinedFor (.binary op) l.ty))
    else .error (.type pos (.mixedOperands op l.ty r.ty))

/-- What is known of the variable that a path starts from. -/
def find (Γ : Env) (k : Key) : Except Diagnostic Entry :=
  match Γ.lookup k.firstName with
  | some entry => .ok entry
  | none => .error (.resolution k.pos (.undefinedVariable k.firstName))

/-! ## Expressions -/

mutual

/-- The kind of an expression, or the first breach in it. -/
def kindOf (Γ : Env) : Expression → Except Diagnostic Kind
  | .constant c => .ok (constantKind c)
  | .key k => (find Γ k).map Entry.kind
  | .call pos name args => do
    let κs ← kindsOf Γ args
    callKind pos name κs
  | .parenthesized e => kindOf Γ e
  | .not pos e => do
    let κ ← kindOf Γ e
    notKind pos κ
  | .negate pos e => do
    let κ ← kindOf Γ e
    negateKind pos κ
  | .binary op pos l r => do
    let κl ← kindOf Γ l
    let κr ← kindOf Γ r
    binaryKind op pos κl κr

def kindsOf (Γ : Env) : List Expression → Except Diagnostic (List Kind)
  | [] => .ok []
  | e :: es => do
    let κ ← kindOf Γ e
    let κs ← kindsOf Γ es
    return κ :: κs

end

/-! ## Statements -/

/-- A value of the kind has to satisfy what its user asks for. -/
def require (holds : Bool) (pos : Position) (fault : TypeFault) : Except Diagnostic Unit :=
  if holds then .ok () else .error (.type pos fault)

def checkCondition (Γ : Env) (pos : Position) (construct : Construct) (c : Expression) :
    Except Diagnostic Unit := do
  let κ ← kindOf Γ c
  require (κ = .bool) pos (.conditionExpected construct κ.ty)

/-- The names behind a declaration. -/
def checkDeclare (Γ : Env) (pos : Position) (name : String) (type : DeclaredType) :
    Except Diagnostic Env :=
  match declaredKind? type with
  | none => .ok Γ
  | some κ =>
    match Γ.lookup name with
    | some entry => .error (.resolution pos (.redefined .variable name entry.declaredAt))
    | none => .ok (Γ.declare name κ pos)

mutual

/-- The names behind a statement, or the first breach in it. -/
def check (Γ : Env) : Statement → Except Diagnostic Env
  | .output pos e => do
    let κ ← kindOf Γ e
    require κ.isText pos (.textExpected "OUTPUT" κ.ty)
    return Γ
  | .input _ k => do
    let entry ← find Γ k
    require (entry.kind = .int) k.pos (.inputTarget k.firstName (some entry.kind.stored))
    return Γ
  | .declare pos name type => checkDeclare Γ pos name type
  | .assign _ k e => do
    let entry ← find Γ k
    let κ ← kindOf Γ e
    require (entry.kind = κ ∧ κ.isText = false) k.pos
      (.assignment k.firstName (some entry.kind.stored) κ.ty)
    return Γ
  | .printInt pos e => do
    let κ ← kindOf Γ e
    require (κ = .int ∨ κ = .bool) pos (.integerExpected κ.ty)
    return Γ
  | .printReal pos e => do
    let κ ← kindOf Γ e
    require (κ = .real) pos (.realExpected κ.ty)
    return Γ
  | .ifElse pos c thenBranch elseBranch => do
    checkCondition Γ pos .if c
    let Γ₁ ← checkAll Γ thenBranch
    match elseBranch with
    | some b => checkAll Γ₁ b
    | none => return Γ₁
  | .while pos c body => do
    checkCondition Γ pos .while c
    checkAll Γ body
  | .repeat pos body c => do
    let Γ₁ ← checkAll Γ body
    checkCondition Γ₁ pos .repeat c
    return Γ₁
  | .call _ pos name args => do
    let κs ← kindsOf Γ args
    let _ ← callKind pos name κs
    return Γ
  | .empty _ => .ok Γ

def checkAll (Γ : Env) : List Statement → Except Diagnostic Env
  | [] => .ok Γ
  | s :: rest => do
    let Γ₁ ← check Γ s
    checkAll Γ₁ rest

end

/-! ## Agreement with the rules -/

/-- A first step that succeeds, and then the second. -/
theorem bind_eq_ok {ε α β : Type} {x : Except ε α} {f : α → Except ε β} {b : β} :
    (x >>= f) = .ok b ↔ ∃ a, x = .ok a ∧ f a = .ok b := by
  cases x with
  | error e => simp [bind, Except.bind]
  | ok a => simp [bind, Except.bind]

theorem pure_eq_ok {ε α : Type} {a b : α} : (pure a : Except ε α) = .ok b ↔ a = b :=
  ⟨Except.ok.inj, congrArg Except.ok⟩

theorem require_eq_ok {holds : Bool} {pos : Position} {fault : TypeFault} {u : Unit} :
    require holds pos fault = .ok u ↔ holds = true := by
  cases holds <;> simp [require]

theorem find_eq_ok {Γ : Env} {k : Key} {entry : Entry} :
    find Γ k = .ok entry ↔ Γ.lookup k.firstName = some entry := by
  cases h : Γ.lookup k.firstName <;> simp [find, h]

theorem notKind_eq_ok {pos : Position} {κ κ' : Kind} :
    notKind pos κ = .ok κ' ↔ κ = .bool ∧ κ' = .bool := by
  by_cases h : κ = .bool <;> simp [notKind, h, eq_comm]

theorem negateKind_eq_ok {pos : Position} {κ κ' : Kind} :
    negateKind pos κ = .ok κ' ↔ (κ = .int ∨ κ = .real) ∧ κ' = κ := by
  by_cases h : κ = .int ∨ κ = .real <;> simp [negateKind, h, eq_comm]

theorem binaryKind_eq_ok {op : Operator} {pos : Position} {l r κ' : Kind} :
    binaryKind op pos l r = .ok κ' ↔ ∃ κ, l.join? r = some κ ∧ κ' = resultKind op κ := by
  cases h : l.join? r with
  | some κ => simp [binaryKind, h, eq_comm]
  | none => cases l <;> simp [binaryKind, h, Kind.isText]

theorem expectTexts_eq_ok (pos : Position) (name : String) {κs : List Kind} {u : Unit} :
    ∀ (index : Nat), expectTexts pos name index κs = .ok u ↔ ∀ κ ∈ κs, κ.isText = true := by
  induction κs with
  | nil => simp [expectTexts]
  | cons κ κs ih =>
    intro index
    by_cases text : κ.isText = true <;> simp [expectTexts, text, ih]

theorem lookup_prototypes {name : String} {f : Prototype} :
    prototypes.lookup name = some f ↔
      (name = "puts" ∧ f = ⟨1, false⟩) ∨ (name = "printf" ∧ f = ⟨1, true⟩) ∨
        (name = "getchar" ∧ f = ⟨0, false⟩) := by
  by_cases puts : name = "puts"
  · subst puts
    simp [prototypes, eq_comm]
  by_cases printf : name = "printf"
  · subst printf
    simp [prototypes, List.lookup_cons, eq_comm]
  by_cases getchar : name = "getchar"
  · subst getchar
    simp [prototypes, List.lookup_cons, eq_comm]
  simp [prototypes, List.lookup_cons, puts, printf, getchar, beq_eq_false_iff_ne.mpr]

theorem callKind_eq_ok_iff_fits {pos : Position} {name : String} {κs : List Kind} {κ : Kind} :
    callKind pos name κs = .ok κ ↔ κ = .int ∧ ∃ f, prototypes.lookup name = some f ∧
      f.fits κs.length = true ∧ ∀ κ ∈ κs.take f.texts, κ.isText = true := by
  cases known : prototypes.lookup name with
  | none => simp [callKind, known]
  | some f =>
    by_cases fits : f.fits κs.length = true
    · simp only [callKind, known, fits, if_true, Option.some.injEq, exists_eq_left', true_and]
      rw [← expectTexts_eq_ok pos name (u := ()) 0]
      cases expectTexts pos name 0 (κs.take f.texts) <;> simp [Except.map, eq_comm]
    · simp [callKind, known, fits]

/-- The calls that are admitted: of `puts` with a text, of `printf` with a text and
    anything behind it, of `getchar` with nothing. -/
theorem callKind_eq_ok {pos : Position} {name : String} {κs : List Kind} {κ : Kind} :
    callKind pos name κs = .ok κ ↔ κ = .int ∧
      ((name = "puts" ∧ ∃ size, κs = [.text size]) ∨
        (name = "printf" ∧ ∃ size rest, κs = .text size :: rest) ∨
        (name = "getchar" ∧ κs = [])) := by
  rw [callKind_eq_ok_iff_fits, and_congr_right_iff]
  intro _
  simp only [lookup_prototypes]
  constructor
  · rintro ⟨f, ⟨rfl, rfl⟩ | ⟨rfl, rfl⟩ | ⟨rfl, rfl⟩, fits, texts⟩
    · obtain ⟨κ, rfl⟩ := List.length_eq_one_iff.mp (by simpa [Prototype.fits, eq_comm] using fits)
      obtain ⟨size, rfl⟩ := Kind.isText_iff.mp (texts κ (by simp))
      exact .inl ⟨rfl, size, rfl⟩
    · obtain ⟨κ, rest, rfl⟩ := List.exists_cons_of_length_pos
        (by simpa [Prototype.fits, Nat.succ_le_iff] using fits)
      obtain ⟨size, rfl⟩ := Kind.isText_iff.mp (texts κ (by simp))
      exact .inr (.inl ⟨rfl, size, rest, rfl⟩)
    · exact .inr (.inr ⟨rfl, by simpa [Prototype.fits, eq_comm] using fits⟩)
  · rintro (⟨rfl, size, rfl⟩ | ⟨rfl, size, rest, rfl⟩ | ⟨rfl, rfl⟩)
    · exact ⟨⟨1, false⟩, .inl ⟨rfl, rfl⟩, rfl, by simp [Kind.isText]⟩
    · exact ⟨⟨1, true⟩, .inr (.inl ⟨rfl, rfl⟩), by simp [Prototype.fits], by simp [Kind.isText]⟩
    · exact ⟨⟨0, false⟩, .inr (.inr ⟨rfl, rfl⟩), rfl, by simp⟩

mutual

/-- What the rules give a kind is found to have it. -/
theorem HasKind.kindOf_eq {Γ : Env} {e : Expression} {κ : Kind} :
    HasKind Γ e κ → kindOf Γ e = .ok κ
  | .constant _ => rfl
  | .key found => by simp [kindOf, find, found, Except.map]
  | .parenthesized inner => inner.kindOf_eq
  | .not operand => bind_eq_ok.mpr ⟨_, operand.kindOf_eq, notKind_eq_ok.mpr ⟨rfl, rfl⟩⟩
  | .negate operand signed =>
    bind_eq_ok.mpr ⟨_, operand.kindOf_eq, negateKind_eq_ok.mpr ⟨signed, rfl⟩⟩
  | .binary left right joined =>
    bind_eq_ok.mpr ⟨_, left.kindOf_eq, bind_eq_ok.mpr ⟨_, right.kindOf_eq,
      binaryKind_eq_ok.mpr ⟨_, joined, rfl⟩⟩⟩
  | .puts text =>
    have args := (HaveKinds.cons text .nil).kindsOf_eq
    bind_eq_ok.mpr ⟨_, args, callKind_eq_ok.mpr ⟨rfl, .inl ⟨rfl, _, rfl⟩⟩⟩
  | .printf format rest =>
    have args := (HaveKinds.cons format rest).kindsOf_eq
    bind_eq_ok.mpr ⟨_, args, callKind_eq_ok.mpr ⟨rfl, .inr (.inl ⟨rfl, _, _, rfl⟩)⟩⟩
  | .getchar => bind_eq_ok.mpr ⟨_, rfl, callKind_eq_ok.mpr ⟨rfl, .inr (.inr ⟨rfl, rfl⟩)⟩⟩

theorem HaveKinds.kindsOf_eq {Γ : Env} {es : List Expression} {κs : List Kind} :
    HaveKinds Γ es κs → kindsOf Γ es = .ok κs
  | .nil => rfl
  | .cons head tail =>
    bind_eq_ok.mpr ⟨_, head.kindOf_eq, bind_eq_ok.mpr ⟨_, tail.kindsOf_eq, rfl⟩⟩

end

mutual

/-- What is found to have a kind has it by the rules. -/
theorem hasKind_of_kindOf {Γ : Env} :
    ∀ {e : Expression} {κ : Kind}, kindOf Γ e = .ok κ → HasKind Γ e κ
  | .constant c, _, rfl => .constant c
  | .key k, _, checked => by
    cases found : Γ.lookup k.firstName with
    | none => simp [kindOf, find, found, Except.map] at checked
    | some entry =>
      simp only [kindOf, find, found, Except.map, Except.ok.injEq] at checked
      subst checked
      exact .key found
  | .call pos name args, κ, checked => by
    rw [kindOf, bind_eq_ok] at checked
    obtain ⟨κs, argsChecked, called⟩ := checked
    have argsKinds := haveKinds_of_kindsOf argsChecked
    obtain ⟨rfl, ⟨rfl, size, rfl⟩ | ⟨rfl, size, rest, rfl⟩ | ⟨rfl, rfl⟩⟩ :=
      callKind_eq_ok.mp called
    · cases argsKinds with
      | cons text none => cases none; exact .puts text
    · cases argsKinds with
      | cons format rest => exact .printf format rest
    · cases argsKinds; exact .getchar
  | .parenthesized _, _, checked => .parenthesized (hasKind_of_kindOf checked)
  | .not pos e, _, checked => by
    rw [kindOf, bind_eq_ok] at checked
    obtain ⟨κ, operand, result⟩ := checked
    obtain ⟨rfl, rfl⟩ := notKind_eq_ok.mp result
    exact .not (hasKind_of_kindOf operand)
  | .negate pos e, _, checked => by
    rw [kindOf, bind_eq_ok] at checked
    obtain ⟨κ, operand, result⟩ := checked
    obtain ⟨signed, rfl⟩ := negateKind_eq_ok.mp result
    exact .negate (hasKind_of_kindOf operand) signed
  | .binary op pos l r, _, checked => by
    rw [kindOf, bind_eq_ok] at checked
    obtain ⟨κl, left, checked⟩ := checked
    obtain ⟨κr, right, result⟩ := bind_eq_ok.mp checked
    obtain ⟨κ, joined, rfl⟩ := binaryKind_eq_ok.mp result
    exact .binary (hasKind_of_kindOf left) (hasKind_of_kindOf right) joined

theorem haveKinds_of_kindsOf {Γ : Env} :
    ∀ {es : List Expression} {κs : List Kind}, kindsOf Γ es = .ok κs → HaveKinds Γ es κs
  | [], _, rfl => .nil
  | e :: es, _, checked => by
    rw [kindsOf, bind_eq_ok] at checked
    obtain ⟨κ, head, checked⟩ := checked
    obtain ⟨κs, tail, result⟩ := bind_eq_ok.mp checked
    cases result
    exact .cons (hasKind_of_kindOf head) (haveKinds_of_kindsOf tail)

end

theorem kindOf_eq_ok {Γ : Env} {e : Expression} {κ : Kind} :
    kindOf Γ e = .ok κ ↔ HasKind Γ e κ :=
  ⟨hasKind_of_kindOf, HasKind.kindOf_eq⟩

theorem checkCondition_eq_ok {Γ : Env} {pos : Position} {construct : Construct}
    {c : Expression} {u : Unit} :
    checkCondition Γ pos construct c = .ok u ↔ HasKind Γ c .bool := by
  simp only [checkCondition, bind_eq_ok, require_eq_ok, kindOf_eq_ok, decide_eq_true_eq]
  constructor
  · rintro ⟨κ, value, rfl⟩
    exact value
  · intro value
    exact ⟨_, value, rfl⟩

mutual

/-- No breach is found in a statement that the rules admit. -/
theorem Accepts.check_eq {Γ Γ' : Env} {s : Statement} : Accepts Γ s Γ' → check Γ s = .ok Γ'
  | .output text =>
    bind_eq_ok.mpr ⟨_, text.kindOf_eq, bind_eq_ok.mpr ⟨(), require_eq_ok.mpr rfl, rfl⟩⟩
  | .input found whole =>
    bind_eq_ok.mpr ⟨_, find_eq_ok.mpr found,
      bind_eq_ok.mpr ⟨(), require_eq_ok.mpr (by simpa using whole), rfl⟩⟩
  | .declare own new => by simp [check, checkDeclare, own, new]
  | .custom => by simp [check, checkDeclare, declaredKind?]
  | .assign found assignable value =>
    bind_eq_ok.mpr ⟨_, find_eq_ok.mpr found, bind_eq_ok.mpr ⟨_, value.kindOf_eq,
      bind_eq_ok.mpr ⟨(), require_eq_ok.mpr (by simpa using assignable), rfl⟩⟩⟩
  | .printInt value whole =>
    bind_eq_ok.mpr ⟨_, value.kindOf_eq,
      bind_eq_ok.mpr ⟨(), require_eq_ok.mpr (by simpa using whole), rfl⟩⟩
  | .printReal value =>
    bind_eq_ok.mpr ⟨_, value.kindOf_eq, bind_eq_ok.mpr ⟨(), require_eq_ok.mpr rfl, rfl⟩⟩
  | .ifElse condition first second =>
    bind_eq_ok.mpr ⟨(), checkCondition_eq_ok.mpr condition,
      bind_eq_ok.mpr ⟨_, first.checkAll_eq, second.checkAll_eq⟩⟩
  | .ifOnly condition first =>
    bind_eq_ok.mpr ⟨(), checkCondition_eq_ok.mpr condition,
      bind_eq_ok.mpr ⟨_, first.checkAll_eq, rfl⟩⟩
  | .while condition inner =>
    bind_eq_ok.mpr ⟨(), checkCondition_eq_ok.mpr condition, inner.checkAll_eq⟩
  | .repeat inner condition =>
    bind_eq_ok.mpr ⟨_, inner.checkAll_eq,
      bind_eq_ok.mpr ⟨(), checkCondition_eq_ok.mpr condition, rfl⟩⟩
  | .call value => by
    obtain ⟨κs, args, called⟩ := bind_eq_ok.mp value.kindOf_eq
    exact bind_eq_ok.mpr ⟨_, args, bind_eq_ok.mpr ⟨_, called, rfl⟩⟩
  | .empty => rfl

theorem AcceptsAll.checkAll_eq {Γ Γ' : Env} {ss : List Statement} :
    AcceptsAll Γ ss Γ' → checkAll Γ ss = .ok Γ'
  | .nil => rfl
  | .cons head tail => bind_eq_ok.mpr ⟨_, head.check_eq, tail.checkAll_eq⟩

end

mutual

/-- A statement in which no breach is found is admitted by the rules. -/
theorem accepts_of_check {Γ : Env} :
    ∀ {s : Statement} {Γ' : Env}, check Γ s = .ok Γ' → Accepts Γ s Γ'
  | .output pos e, _, checked => by
    simp only [check, bind_eq_ok, pure_eq_ok, require_eq_ok, kindOf_eq_ok, Kind.isText_iff] at checked
    obtain ⟨_, value, _, ⟨size, rfl⟩, rfl⟩ := checked
    exact .output value
  | .input pos k, _, checked => by
    simp only [check, bind_eq_ok, pure_eq_ok, require_eq_ok, find_eq_ok, decide_eq_true_eq] at checked
    obtain ⟨entry, found, _, whole, rfl⟩ := checked
    exact .input found whole
  | .declare pos name type, Γ', checked => by
    cases own : declaredKind? type with
    | none =>
      cases type <;> cases own
      cases checked
      exact .custom
    | some κ =>
      cases new : Γ.lookup name with
      | some entry => simp [check, checkDeclare, own, new] at checked
      | none =>
        simp only [check, checkDeclare, own, new, Except.ok.injEq] at checked
        subst checked
        exact .declare own new
  | .assign pos k e, _, checked => by
    simp only [check, bind_eq_ok, pure_eq_ok, require_eq_ok, find_eq_ok, kindOf_eq_ok,
      decide_eq_true_eq] at checked
    obtain ⟨entry, found, κ, value, _, ⟨rfl, assignable⟩, rfl⟩ := checked
    exact .assign found assignable value
  | .printInt pos e, _, checked => by
    simp only [check, bind_eq_ok, pure_eq_ok, require_eq_ok, kindOf_eq_ok, decide_eq_true_eq] at checked
    obtain ⟨κ, value, _, whole, rfl⟩ := checked
    exact .printInt value whole
  | .printReal pos e, _, checked => by
    simp only [check, bind_eq_ok, pure_eq_ok, require_eq_ok, kindOf_eq_ok, decide_eq_true_eq] at checked
    obtain ⟨κ, value, _, rfl, rfl⟩ := checked
    exact .printReal value
  | .ifElse pos c thenBranch (some elseBranch), _, checked => by
    simp only [check, bind_eq_ok, checkCondition_eq_ok] at checked
    obtain ⟨_, condition, _, first, second⟩ := checked
    exact .ifElse condition (acceptsAll_of_checkAll first) (acceptsAll_of_checkAll second)
  | .ifElse pos c thenBranch none, _, checked => by
    simp only [check, bind_eq_ok, pure_eq_ok, checkCondition_eq_ok] at checked
    obtain ⟨_, condition, _, first, rfl⟩ := checked
    exact .ifOnly condition (acceptsAll_of_checkAll first)
  | .while pos c body, _, checked => by
    simp only [check, bind_eq_ok, checkCondition_eq_ok] at checked
    obtain ⟨_, condition, inner⟩ := checked
    exact .while condition (acceptsAll_of_checkAll inner)
  | .repeat pos body c, _, checked => by
    simp only [check, bind_eq_ok, pure_eq_ok, checkCondition_eq_ok] at checked
    obtain ⟨_, inner, _, condition, rfl⟩ := checked
    exact .repeat (acceptsAll_of_checkAll inner) condition
  | .call pos callPos name args, _, checked => by
    simp only [check, bind_eq_ok, pure_eq_ok] at checked
    obtain ⟨κs, argsChecked, κ, called, rfl⟩ := checked
    exact .call (hasKind_of_kindOf (bind_eq_ok.mpr ⟨κs, argsChecked, called⟩))
  | .empty pos, _, rfl => .empty

theorem acceptsAll_of_checkAll {Γ : Env} :
    ∀ {ss : List Statement} {Γ' : Env}, checkAll Γ ss = .ok Γ' → AcceptsAll Γ ss Γ'
  | [], _, rfl => .nil
  | s :: rest, _, checked => by
    simp only [checkAll, bind_eq_ok] at checked
    obtain ⟨Γ₁, head, tail⟩ := checked
    exact .cons (accepts_of_check head) (acceptsAll_of_checkAll tail)

end

/-- No breach is found in a program exactly when the rules admit it. -/
theorem checkAll_eq_ok {Γ Γ' : Env} {ss : List Statement} :
    checkAll Γ ss = .ok Γ' ↔ AcceptsAll Γ ss Γ' :=
  ⟨acceptsAll_of_checkAll, AcceptsAll.checkAll_eq⟩

/-! ## What a breach is -/

/-- The error is about a name or a type. -/
def Breach (x : Diagnostic) : Prop :=
  (∃ pos fault, x = .resolution pos fault) ∨ ∃ pos fault, x = .type pos fault

/-- A check that fails in no other way than by a breach. -/
def Breaches {α : Type} (checked : Except Diagnostic α) : Prop :=
  ∀ x, checked = .error x → Breach x

namespace Breaches

variable {α β : Type}

theorem ok (a : α) : Breaches (.ok a) := fun _ failed => by cases failed

theorem resolution (pos : Position) (fault : ResolutionFault) :
    Breaches (.error (.resolution pos fault) : Except Diagnostic α) := by
  rintro x ⟨⟩
  exact .inl ⟨pos, fault, rfl⟩

theorem type (pos : Position) (fault : TypeFault) :
    Breaches (.error (.type pos fault) : Except Diagnostic α) := by
  rintro x ⟨⟩
  exact .inr ⟨pos, fault, rfl⟩

theorem bind {checked : Except Diagnostic α} {next : α → Except Diagnostic β}
    (first : Breaches checked) (rest : ∀ a, Breaches (next a)) : Breaches (checked >>= next) := by
  cases checked with
  | error x =>
    rintro _ ⟨⟩
    exact first x rfl
  | ok a => exact rest a

theorem map {checked : Except Diagnostic α} (f : α → β) (first : Breaches checked) :
    Breaches (checked.map f) := by
  cases checked with
  | error x =>
    rintro _ ⟨⟩
    exact first x rfl
  | ok a => exact ok (f a)

theorem require (holds : Bool) (pos : Position) (fault : TypeFault) :
    Breaches (Typing.require holds pos fault) := by
  cases holds
  · exact type pos fault
  · exact ok ()

theorem find (Γ : Env) (k : Key) : Breaches (Typing.find Γ k) := by
  unfold Typing.find
  split
  · exact ok _
  · exact resolution _ _

theorem expectTexts (pos : Position) (name : String) (κs : List Kind) (index : Nat) :
    Breaches (Typing.expectTexts pos name index κs) := by
  induction κs generalizing index with
  | nil => exact ok ()
  | cons κ κs ih =>
    rw [Typing.expectTexts]
    split
    · exact ih (index + 1)
    · exact type _ _

theorem callKind (pos : Position) (name : String) (κs : List Kind) :
    Breaches (Typing.callKind pos name κs) := by
  unfold Typing.callKind
  split
  · exact resolution _ _
  · split
    · exact (expectTexts _ _ _ _).map _
    · exact resolution _ _

theorem notKind (pos : Position) (κ : Kind) : Breaches (Typing.notKind pos κ) := by
  unfold Typing.notKind
  split
  · exact ok _
  · exact type _ _

theorem negateKind (pos : Position) (κ : Kind) : Breaches (Typing.negateKind pos κ) := by
  unfold Typing.negateKind
  split
  · exact ok _
  · exact type _ _

theorem binaryKind (op : Operator) (pos : Position) (l r : Kind) :
    Breaches (Typing.binaryKind op pos l r) := by
  unfold Typing.binaryKind
  split
  · exact ok _
  · split <;> exact type _ _

theorem checkDeclare (Γ : Env) (pos : Position) (name : String) (declared : DeclaredType) :
    Breaches (Typing.checkDeclare Γ pos name declared) := by
  unfold Typing.checkDeclare
  split
  · exact ok _
  · split
    · exact resolution _ _
    · exact ok _

mutual

theorem kindOf (Γ : Env) : ∀ e : Expression, Breaches (Typing.kindOf Γ e)
  | .constant _ => ok _
  | .key k => (find Γ k).map _
  | .call pos name args => (kindsOf Γ args).bind (callKind pos name)
  | .parenthesized e => kindOf Γ e
  | .not pos e => (kindOf Γ e).bind (notKind pos)
  | .negate pos e => (kindOf Γ e).bind (negateKind pos)
  | .binary op pos l r =>
    (kindOf Γ l).bind fun κl => (kindOf Γ r).bind fun κr => binaryKind op pos κl κr

theorem kindsOf (Γ : Env) : ∀ es : List Expression, Breaches (Typing.kindsOf Γ es)
  | [] => ok []
  | e :: es => (kindOf Γ e).bind fun _ => (kindsOf Γ es).bind fun _ => ok _

end

theorem checkCondition (Γ : Env) (pos : Position) (construct : Construct) (c : Expression) :
    Breaches (Typing.checkCondition Γ pos construct c) :=
  (kindOf Γ c).bind fun _ => require _ _ _

mutual

theorem check (Γ : Env) : ∀ s : Statement, Breaches (Typing.check Γ s)
  | .output _ e => (kindOf Γ e).bind fun _ => (require _ _ _).bind fun _ => ok _
  | .input _ k => (find Γ k).bind fun _ => (require _ _ _).bind fun _ => ok _
  | .declare pos name declared => checkDeclare Γ pos name declared
  | .assign _ k e => (find Γ k).bind fun _ => (kindOf Γ e).bind fun _ =>
    (require _ _ _).bind fun _ => ok _
  | .printInt _ e => (kindOf Γ e).bind fun _ => (require _ _ _).bind fun _ => ok _
  | .printReal _ e => (kindOf Γ e).bind fun _ => (require _ _ _).bind fun _ => ok _
  | .ifElse pos c thenBranch (some elseBranch) =>
    (checkCondition Γ pos .if c).bind fun _ => (checkAll Γ thenBranch).bind fun Γ₁ =>
      checkAll Γ₁ elseBranch
  | .ifElse pos c thenBranch none =>
    (checkCondition Γ pos .if c).bind fun _ => (checkAll Γ thenBranch).bind fun _ => ok _
  | .while pos c body => (checkCondition Γ pos .while c).bind fun _ => checkAll Γ body
  | .repeat pos body c => (checkAll Γ body).bind fun Γ₁ =>
    (checkCondition Γ₁ pos .repeat c).bind fun _ => ok _
  | .call _ pos name args => (kindsOf Γ args).bind fun κs => (callKind pos name κs).bind fun _ =>
    ok _
  | .empty _ => ok Γ

/-- A program fails the check by a breach of a rule about names or types. -/
theorem checkAll (Γ : Env) : ∀ ss : List Statement, Breaches (Typing.checkAll Γ ss)
  | [] => ok Γ
  | s :: rest => (check Γ s).bind fun Γ₁ => checkAll Γ₁ rest

end

end Breaches

end Pseudocode.Typing
