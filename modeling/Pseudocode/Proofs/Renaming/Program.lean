import Mathlib.Logic.Function.Basic
import Pseudocode.Proofs.Inertness.NormalForm
import Pseudocode.Proofs.Places.Diagnostics

/-! # Renamed programs

* `Program.rename`: the program with other names of variables, in declarations and in paths.
  Functions keep their names.
* `Key.rename`: a path that starts from the renamed variable.
* `checkAll_rename`: a renamed program breaks the same rule at the same place.
-/

namespace Pseudocode

/-! ## Trees with other names -/

/-- A path without components stands for the variable whose name is empty, and gets a component
    only where that variable gets a name. -/
def Key.rename (r : String → String) (k : Key) : Key :=
  match k.path with
  | part :: rest => { k with path := { part with name := r part.name } :: rest }
  | [] => if r "" = "" then k else { k with path := [⟨r "", none⟩] }

/-- The path with its first component renamed, if it has one. -/
def Key.renameFirst (r : String → String) (k : Key) : Key :=
  match k.path with
  | part :: rest => { k with path := { part with name := r part.name } :: rest }
  | [] => k

section

variable (r : String → String) (f : Key → Key)

mutual

/-- The expression with other paths. -/
def Expression.rename : Expression → Expression
  | .constant c => .constant c
  | .key k => .key (f k)
  | .call pos name args => .call pos name (Expression.renameAll args)
  | .parenthesized e => .parenthesized e.rename
  | .not pos e => .not pos e.rename
  | .negate pos e => .negate pos e.rename
  | .binary op pos lhs rhs => .binary op pos lhs.rename rhs.rename

def Expression.renameAll : List Expression → List Expression
  | [] => []
  | e :: es => e.rename :: Expression.renameAll es

end

mutual

/-- The statement with other names in declarations and with other paths. -/
def Statement.rename : Statement → Statement
  | .output pos e => .output pos (e.rename f)
  | .input pos k => .input pos (f k)
  | .declare pos name type => .declare pos (r name) type
  | .assign pos k e => .assign pos (f k) (e.rename f)
  | .printInt pos e => .printInt pos (e.rename f)
  | .printReal pos e => .printReal pos (e.rename f)
  | .ifElse pos e thenBranch elseBranch =>
    .ifElse pos (e.rename f) (Program.rename thenBranch) (Program.renameElse elseBranch)
  | .while pos e body => .while pos (e.rename f) (Program.rename body)
  | .repeat pos body e => .repeat pos (Program.rename body) (e.rename f)
  | .call pos callPos name args => .call pos callPos name (Expression.renameAll f args)
  | .empty pos => .empty pos

def Program.renameElse : Option (List Statement) → Option (List Statement)
  | none => none
  | some b => some (Program.rename b)

def Program.rename : List Statement → List Statement
  | [] => []
  | s :: rest => s.rename :: Program.rename rest

end

/-- No two variables get one name, and paths follow their variables. -/
structure Renames : Prop where
  injective : Function.Injective r
  firstName : ∀ k, (f k).firstName = r k.firstName
  pos : ∀ k, (f k).pos = k.pos

end

theorem Key.renames {r : String → String} (injective : Function.Injective r) :
    Renames r (Key.rename r) where
  injective := injective
  firstName := by
    rintro ⟨pos, path⟩
    cases path with
    | cons part rest => rfl
    | nil =>
      simp only [Key.rename]
      split
      · next kept => exact kept.symm
      · rfl
  pos := by
    rintro ⟨pos, path⟩
    cases path with
    | cons part rest => rfl
    | nil =>
      simp only [Key.rename]
      split <;> rfl

/-- The errors are of one sort and told of one place. -/
structure Diagnostic.Like (e e' : Diagnostic) : Prop where
  variant : e'.variant = e.variant
  kind : e'.kind? = e.kind?
  pos : e'.pos? = e.pos?

namespace Typing

/-! ## Answers of a check -/

def Env.rename (r : String → String) (Γ : Env) : Env := Γ.map fun (name, entry) => (r name, entry)

/-- The answer `y` is what `g` makes of the answer `x`, or both are errors of one sort. -/
inductive Echoes {α : Type} (g : α → α) : Except Diagnostic α → Except Diagnostic α → Prop where
  | ok (a : α) : Echoes g (.ok a) (.ok (g a))
  | error {e e' : Diagnostic} (like : e.Like e') : Echoes g (.error e) (.error e')

theorem Echoes.refl {α : Type} (x : Except Diagnostic α) : Echoes id x x := by
  cases x with
  | ok a => exact .ok a
  | error e => exact .error ⟨rfl, rfl, rfl⟩

theorem Echoes.bind {α β : Type} {g : α → α} {h : β → β} {x y : Except Diagnostic α}
    {next next' : α → Except Diagnostic β} (first : Echoes g x y)
    (rest : ∀ a, Echoes h (next a) (next' (g a))) : Echoes h (x >>= next) (y >>= next') := by
  cases first with
  | ok a => exact rest a
  | error like => exact .error like

theorem Echoes.map {α β : Type} {x y : Except Diagnostic α} (first : Echoes id x y)
    (get : α → β) : Echoes id (x.map get) (y.map get) := by
  cases first with
  | ok a => exact .ok _
  | error like => exact .error like

/-- What a type fault says does not matter. -/
theorem echoes_require (holds : Bool) (pos : Position) (fault fault' : TypeFault) :
    Echoes id (require holds pos fault) (require holds pos fault') := by
  cases holds with
  | true => exact .ok ()
  | false => exact .error ⟨rfl, rfl, rfl⟩

/-! ## Names -/

section

variable {r : String → String} {f : Key → Key}

theorem lookup_rename (renames : Renames r f) (Γ : Env) (name : String) :
    (Γ.rename r).lookup (r name) = Γ.lookup name := by
  induction Γ with
  | nil => rfl
  | cons known Γ ih =>
    obtain ⟨key, entry⟩ := known
    have same : (r name == r key) = (name == key) := by
      rw [Bool.eq_iff_iff, beq_iff_eq, beq_iff_eq]
      exact renames.injective.eq_iff
    simp only [Env.rename, List.map_cons, List.lookup_cons, same] at ih ⊢
    rw [ih]

theorem find_rename (renames : Renames r f) (Γ : Env) (k : Key) :
    Echoes id (find Γ k) (find (Γ.rename r) (f k)) := by
  rw [find, find, renames.firstName, lookup_rename renames Γ]
  cases Γ.lookup k.firstName with
  | some entry => exact .ok entry
  | none => exact .error ⟨rfl, rfl, congrArg some (renames.pos k)⟩

/-! ## Expressions -/

mutual

theorem kindOf_rename (renames : Renames r f) (Γ : Env) : (e : Expression) →
    Echoes id (kindOf Γ e) (kindOf (Γ.rename r) (e.rename f))
  | .constant _ => .refl _
  | .key k => (find_rename renames Γ k).map Entry.kind
  | .call _ _ args => (kindsOf_rename renames Γ args).bind fun _ => .refl _
  | .parenthesized e => kindOf_rename renames Γ e
  | .not _ e | .negate _ e => (kindOf_rename renames Γ e).bind fun _ => .refl _
  | .binary _ _ l r =>
    (kindOf_rename renames Γ l).bind fun _ =>
      (kindOf_rename renames Γ r).bind fun _ => .refl _

theorem kindsOf_rename (renames : Renames r f) (Γ : Env) : (es : List Expression) →
    Echoes id (kindsOf Γ es) (kindsOf (Γ.rename r) (Expression.renameAll f es))
  | [] => .refl _
  | e :: es =>
    (kindOf_rename renames Γ e).bind fun _ => (kindsOf_rename renames Γ es).bind fun _ => .refl _

end

/-! ## Statements -/

theorem checkCondition_rename (renames : Renames r f) (Γ : Env) (pos : Position)
    (construct : Construct) (c : Expression) :
    Echoes id (checkCondition Γ pos construct c)
      (checkCondition (Γ.rename r) pos construct (c.rename f)) :=
  (kindOf_rename renames Γ c).bind fun _ => .refl _

theorem checkDeclare_rename (renames : Renames r f) (Γ : Env) (pos : Position) (name : String)
    (type : DeclaredType) :
    Echoes (Env.rename r) (checkDeclare Γ pos name type)
      (checkDeclare (Γ.rename r) pos (r name) type) := by
  unfold checkDeclare
  cases declaredKind? type with
  | none => exact .ok Γ
  | some κ =>
    simp only [lookup_rename renames Γ]
    cases Γ.lookup name with
    | some entry => exact .error ⟨rfl, rfl, rfl⟩
    | none =>
      have declared : (Γ.declare name κ pos).rename r = (Γ.rename r).declare (r name) κ pos :=
        List.map_append
      exact declared ▸ .ok _

mutual

theorem check_rename (renames : Renames r f) (Γ : Env) : (s : Statement) →
    Echoes (Env.rename r) (check Γ s) (check (Γ.rename r) (s.rename r f))
  | .output _ e | .printInt _ e | .printReal _ e =>
    (kindOf_rename renames Γ e).bind fun _ => (Echoes.refl _).bind fun _ => .ok Γ
  | .input _ k => by
    refine (find_rename renames Γ k).bind fun _ => ?_
    rw [renames.pos]
    exact (echoes_require _ k.pos _ _).bind fun _ => .ok Γ
  | .declare pos name type => checkDeclare_rename renames Γ pos name type
  | .assign _ k e => by
    refine (find_rename renames Γ k).bind fun _ => (kindOf_rename renames Γ e).bind fun _ => ?_
    rw [renames.pos]
    exact (echoes_require _ k.pos _ _).bind fun _ => .ok Γ
  | .ifElse pos c thenBranch (some elseBranch) =>
    (checkCondition_rename renames Γ pos .if c).bind fun _ =>
      (checkAll_rename renames Γ thenBranch).bind fun Γ₁ => checkAll_rename renames Γ₁ elseBranch
  | .ifElse pos c thenBranch none =>
    (checkCondition_rename renames Γ pos .if c).bind fun _ =>
      (checkAll_rename renames Γ thenBranch).bind fun Γ₁ => .ok Γ₁
  | .while pos c body =>
    (checkCondition_rename renames Γ pos .while c).bind fun _ => checkAll_rename renames Γ body
  | .repeat pos body c =>
    (checkAll_rename renames Γ body).bind fun Γ₁ =>
      (checkCondition_rename renames Γ₁ pos .repeat c).bind fun _ => .ok Γ₁
  | .call _ _ _ args =>
    (kindsOf_rename renames Γ args).bind fun _ => (Echoes.refl _).bind fun _ => .ok Γ
  | .empty _ => .ok Γ

theorem checkAll_rename (renames : Renames r f) (Γ : Env) : (ss : List Statement) →
    Echoes (Env.rename r) (checkAll Γ ss) (checkAll (Γ.rename r) (Program.rename r f ss))
  | [] => .ok Γ
  | s :: rest => (check_rename renames Γ s).bind fun Γ₁ => checkAll_rename renames Γ₁ rest

end

end

end Typing

end Pseudocode
