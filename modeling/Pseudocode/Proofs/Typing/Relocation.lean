import Pseudocode.Proofs.Parsing.Relocation
import Pseudocode.Proofs.Typing.Check

/-! # The rules do not look at places

A program with each thing at another place breaks the same rule, and the error is told of the other
place.

* `Diagnostic.relocate`, `Env.relocate`: an error and the known names, each thing at another place.
* `checkAll_relocate`: checking a relocated program gives the relocated answer.
-/

namespace Pseudocode

variable (f : Position → Position)

def ResolutionFault.relocate : ResolutionFault → ResolutionFault
  | .redefined what name previous => .redefined what name (previous.map f)
  | fault => fault

/-- The error of a relocated program. What is wrong with a text is no matter of programs. -/
def Diagnostic.relocate : Diagnostic → Diagnostic
  | .resolution pos fault => .resolution (f pos) (fault.relocate f)
  | .type pos fault => .type (f pos) fault
  | x => x

namespace Typing

def Entry.relocate (entry : Entry) : Entry := { entry with declaredAt := entry.declaredAt.map f }

def Env.relocate (Γ : Env) : Env := Γ.map fun (name, entry) => (name, entry.relocate f)

/-- The relocated answer of a check, where `g` relocates what it gives. -/
def relocateAnswer {α : Type} (g : α → α) : Except Diagnostic α → Except Diagnostic α
  | .ok a => .ok (g a)
  | .error x => .error (x.relocate f)

variable {f}

theorem relocateAnswer_bind {α β : Type} {g : α → α} {h : β → β} {x x' : Except Diagnostic α}
    {next next' : α → Except Diagnostic β} (first : x' = relocateAnswer f g x)
    (rest : ∀ a, next' (g a) = relocateAnswer f h (next a)) :
    x' >>= next' = relocateAnswer f h (x >>= next) := by
  subst first
  cases x with
  | error e => rfl
  | ok a => exact rest a

theorem relocateAnswer_map {α β : Type} {g : α → α} {h : β → β} {x x' : Except Diagnostic α}
    {get : α → β} (first : x' = relocateAnswer f g x) (same : ∀ a, get (g a) = h (get a)) :
    x'.map get = relocateAnswer f h (x.map get) := by
  subst first
  cases x with
  | error e => rfl
  | ok a => exact congrArg Except.ok (same a)

theorem lookup_relocate (Γ : Env) (name : String) :
    (Γ.relocate f).lookup name = (Γ.lookup name).map (Entry.relocate f) := by
  induction Γ with
  | nil => rfl
  | cons known Γ ih =>
    obtain ⟨name', entry⟩ := known
    simp only [Env.relocate, List.map_cons, List.lookup_cons]
    split
    · rfl
    · exact ih

theorem declare_relocate (Γ : Env) (name : String) (κ : Kind) (pos : Position) :
    (Γ.declare name κ pos).relocate f = (Γ.relocate f).declare name κ (f pos) :=
  List.map_append

theorem find_relocate (Γ : Env) (k : Key) :
    find (Γ.relocate f) (k.relocate f) = relocateAnswer f (Entry.relocate f) (find Γ k) := by
  unfold find
  rw [show (k.relocate f).firstName = k.firstName from rfl, lookup_relocate]
  cases Γ.lookup k.firstName <;> rfl

/-! ## Operators and calls -/

theorem expectTexts_relocate (pos : Position) (name : String) (κs : List Kind) (index : Nat) :
    expectTexts (f pos) name index κs = relocateAnswer f id (expectTexts pos name index κs) := by
  induction κs generalizing index with
  | nil => rfl
  | cons κ κs ih =>
    rw [expectTexts, expectTexts]
    split
    · exact ih (index + 1)
    · rfl

theorem callKind_relocate (pos : Position) (name : String) (κs : List Kind) :
    callKind (f pos) name κs = relocateAnswer f id (callKind pos name κs) := by
  unfold callKind
  split
  · rfl
  · split
    · exact relocateAnswer_map (expectTexts_relocate pos name _ 0) fun _ => rfl
    · rfl

theorem notKind_relocate (pos : Position) (κ : Kind) :
    notKind (f pos) κ = relocateAnswer f id (notKind pos κ) := by
  unfold notKind
  split <;> rfl

theorem negateKind_relocate (pos : Position) (κ : Kind) :
    negateKind (f pos) κ = relocateAnswer f id (negateKind pos κ) := by
  unfold negateKind
  split <;> rfl

theorem binaryKind_relocate (op : Operator) (pos : Position) (l r : Kind) :
    binaryKind op (f pos) l r = relocateAnswer f id (binaryKind op pos l r) := by
  unfold binaryKind
  split
  · rfl
  · split <;> rfl

/-! ## Expressions -/

mutual

theorem kindOf_relocate (Γ : Env) : (e : Expression) →
    kindOf (Γ.relocate f) (e.relocate f) = relocateAnswer f id (kindOf Γ e)
  | .constant _ => rfl
  | .key k => relocateAnswer_map (find_relocate Γ k) fun _ => rfl
  | .call pos name args =>
    relocateAnswer_bind (kindsOf_relocate Γ args) (callKind_relocate pos name)
  | .parenthesized e => kindOf_relocate Γ e
  | .not pos e => relocateAnswer_bind (kindOf_relocate Γ e) (notKind_relocate pos)
  | .negate pos e => relocateAnswer_bind (kindOf_relocate Γ e) (negateKind_relocate pos)
  | .binary op pos l r =>
    relocateAnswer_bind (kindOf_relocate Γ l) fun κ =>
      relocateAnswer_bind (kindOf_relocate Γ r) (binaryKind_relocate op pos κ)

theorem kindsOf_relocate (Γ : Env) : (es : List Expression) →
    kindsOf (Γ.relocate f) (Expression.relocateAll f es) = relocateAnswer f id (kindsOf Γ es)
  | [] => rfl
  | e :: es =>
    relocateAnswer_bind (kindOf_relocate Γ e) fun _ =>
      relocateAnswer_bind (kindsOf_relocate Γ es) fun _ => rfl

end

/-! ## Statements -/

theorem require_relocate (holds : Bool) (pos : Position) (fault : TypeFault) :
    require holds (f pos) fault = relocateAnswer f id (require holds pos fault) := by
  cases holds <;> rfl

theorem checkCondition_relocate (Γ : Env) (pos : Position) (construct : Construct)
    (c : Expression) : checkCondition (Γ.relocate f) (f pos) construct (c.relocate f) =
      relocateAnswer f id (checkCondition Γ pos construct c) :=
  relocateAnswer_bind (kindOf_relocate Γ c) fun _ => require_relocate _ pos _

theorem checkDeclare_relocate (Γ : Env) (pos : Position) (name : String) (type : DeclaredType) :
    checkDeclare (Γ.relocate f) (f pos) name type =
      relocateAnswer f (Env.relocate f) (checkDeclare Γ pos name type) := by
  unfold checkDeclare
  cases declaredKind? type with
  | none => rfl
  | some κ =>
    simp only [lookup_relocate]
    cases Γ.lookup name with
    | some entry => rfl
    | none => exact congrArg Except.ok (declare_relocate Γ name κ pos).symm

mutual

theorem check_relocate (Γ : Env) : (s : Statement) →
    check (Γ.relocate f) (s.relocate f) = relocateAnswer f (Env.relocate f) (check Γ s)
  | .output pos e =>
    relocateAnswer_bind (kindOf_relocate Γ e) fun _ =>
      relocateAnswer_bind (require_relocate _ pos _) fun _ => rfl
  | .input _ k =>
    relocateAnswer_bind (find_relocate Γ k) fun _ =>
      relocateAnswer_bind (require_relocate _ k.pos _) fun _ => rfl
  | .declare pos name type => checkDeclare_relocate Γ pos name type
  | .assign _ k e =>
    relocateAnswer_bind (find_relocate Γ k) fun _ =>
      relocateAnswer_bind (kindOf_relocate Γ e) fun _ =>
        relocateAnswer_bind (require_relocate _ k.pos _) fun _ => rfl
  | .printInt pos e =>
    relocateAnswer_bind (kindOf_relocate Γ e) fun _ =>
      relocateAnswer_bind (require_relocate _ pos _) fun _ => rfl
  | .printReal pos e =>
    relocateAnswer_bind (kindOf_relocate Γ e) fun _ =>
      relocateAnswer_bind (require_relocate _ pos _) fun _ => rfl
  | .ifElse pos c thenBranch (some elseBranch) =>
    relocateAnswer_bind (checkCondition_relocate Γ pos .if c) fun _ =>
      relocateAnswer_bind (checkAll_relocate Γ thenBranch) fun Γ₁ =>
        checkAll_relocate Γ₁ elseBranch
  | .ifElse pos c thenBranch none =>
    relocateAnswer_bind (checkCondition_relocate Γ pos .if c) fun _ =>
      relocateAnswer_bind (checkAll_relocate Γ thenBranch) fun _ => rfl
  | .while pos c body =>
    relocateAnswer_bind (checkCondition_relocate Γ pos .while c) fun _ =>
      checkAll_relocate Γ body
  | .repeat pos body c =>
    relocateAnswer_bind (checkAll_relocate Γ body) fun Γ₁ =>
      relocateAnswer_bind (checkCondition_relocate Γ₁ pos .repeat c) fun _ => rfl
  | .call _ pos name args =>
    relocateAnswer_bind (kindsOf_relocate Γ args) fun κs =>
      relocateAnswer_bind (callKind_relocate pos name κs) fun _ => rfl
  | .empty _ => rfl

theorem checkAll_relocate (Γ : Env) : (ss : List Statement) →
    checkAll (Γ.relocate f) (Program.relocate f ss) =
      relocateAnswer f (Env.relocate f) (checkAll Γ ss)
  | [] => rfl
  | s :: rest => relocateAnswer_bind (check_relocate Γ s) fun Γ₁ => checkAll_relocate Γ₁ rest

end

end Typing

end Pseudocode
