import Pseudocode.Assembly.Value
import Pseudocode.Program

/-! # The static rules

Which programs make sense, said without reference to how they are lowered.

* `Key.firstName` is the name of the variable that a path belongs to.
* `Kind` is what the value of an expression can be, `Env` what is known of names.
* `HasKind Γ e κ` gives an expression its kind.
* `Accepts Γ s Γ'` admits a statement and extends the names by its declarations.

The rules say nothing about order or about errors; `Typing/Check` goes through a
program in the order of evaluation and stops at the first breach.
-/

namespace Pseudocode

/-- The name of the variable that a path belongs to, which is the first one of the path. A path
    without names, which nobody writes, belongs to the variable with the empty name. -/
def Key.firstName (k : Key) : String := (k.path.head?.map KeyPart.name).getD ""

/-- The name that is looked up for a path is its first one. -/
theorem Key.root_eq_firstName (k : Key) : k.root = k.firstName := by
  obtain ⟨pos, path⟩ := k
  cases path <;> rfl

namespace Typing

open Assembly (Ty)

/-! ## Kinds -/

/-- What the value of an expression can be. A text comes with the number of bytes it
    takes, the zero byte behind it among them. -/
inductive Kind where
  | text (size : Nat)
  | int
  | real
  | bool
deriving DecidableEq

namespace Kind

/-- The type of a value of the kind. A text is the address of its bytes. -/
def ty : Kind → Ty
  | .text size => .ptr (.array size .i8)
  | .int => .i32
  | .real => .double
  | .bool => .i1

def stored : Kind → Ty
  | .text size => .array size .i8
  | κ => κ.ty

def isText : Kind → Bool
  | .text _ => true
  | _ => false

theorem isText_iff {κ : Kind} : κ.isText = true ↔ ∃ size, κ = .text size := by
  cases κ <;> simp [isText]

/-- A variable takes the values of its own kind, and a text takes none. -/
theorem stored_eq_ty {κ κ' : Kind} : κ.stored = κ'.ty ↔ κ = κ' ∧ κ'.isText = false := by
  cases κ <;> cases κ' <;> simp [stored, ty, isText]

/-- The kind at which two operands are worked on. Two truth values stay truth values,
    and a truth value next to a whole number counts as one. -/
def join? : Kind → Kind → Option Kind
  | .int, .int => some .int
  | .int, .bool => some .int
  | .bool, .int => some .int
  | .bool, .bool => some .bool
  | .real, .real => some .real
  | _, _ => none

/-- Only a truth value is ever widened, and to a whole number. -/
theorem joins_of_join? {κl κr κ : Kind} (joined : κl.join? κr = some κ) :
    (κl = κ ∨ κl = .bool ∧ κ = .int) ∧ (κr = κ ∨ κr = .bool ∧ κ = .int) := by
  cases κl <;> cases κr <;> cases joined <;> decide

theorem isText_of_join? {κl κr κ : Kind} (joined : κl.join? κr = some κ) : κ.isText = false := by
  cases κl <;> cases κr <;> cases joined <;> rfl

end Kind

/-- The kind of the result, given the kind that the operands are worked on at. -/
def resultKind : Operator → Kind → Kind
  | .compare _, _ => .bool
  | .arithmetic _, κ => κ

def constantKind : Constant → Kind
  | .bool _ => .bool
  | .string s => .text (s.utf8ByteSize + 1)
  | .real _ => .real
  | .integer _ => .int

/-- The kind that a declaration names, if it is one of the language's own. -/
def declaredKind? : DeclaredType → Option Kind
  | .int => some .int
  | .real => some .real
  | .bool => some .bool
  | .custom _ => none

/-! ## Names -/

/-- What is known of a variable: its kind, and where it was declared unless the
    language itself provides it. -/
structure Entry where
  kind : Kind
  declaredAt : Option Position
deriving DecidableEq

/-- The variables that are known, the oldest first. -/
abbrev Env := List (String × Entry)

/-- What is known before the first statement: the two formats, which are texts. -/
def Env.initial : Env :=
  [("printfd_fmt", ⟨.text 9, none⟩), ("printff_fmt", ⟨.text 10, none⟩)]

/-- The variable, declared at the place, is known from here on. -/
def Env.declare (Γ : Env) (name : String) (κ : Kind) (pos : Position) : Env :=
  Γ ++ [(name, ⟨κ, some pos⟩)]

/-! ## Expressions -/

mutual

/-- The expression has the kind. -/
inductive HasKind (Γ : Env) : Expression → Kind → Prop where
  | constant (c : Constant) : HasKind Γ (.constant c) (constantKind c)
  | key {k : Key} {entry : Entry} (found : Γ.lookup k.firstName = some entry) :
      HasKind Γ (.key k) entry.kind
  | parenthesized {e : Expression} {κ : Kind} (inner : HasKind Γ e κ) :
      HasKind Γ (.parenthesized e) κ
  | not {pos : Position} {e : Expression} (operand : HasKind Γ e .bool) :
      HasKind Γ (.not pos e) .bool
  | negate {pos : Position} {e : Expression} {κ : Kind} (operand : HasKind Γ e κ)
      (signed : κ = .int ∨ κ = .real) : HasKind Γ (.negate pos e) κ
  | binary {op : Operator} {pos : Position} {l r : Expression} {κl κr κ : Kind}
      (left : HasKind Γ l κl) (right : HasKind Γ r κr) (joined : κl.join? κr = some κ) :
      HasKind Γ (.binary op pos l r) (resultKind op κ)
  | puts {pos : Position} {e : Expression} {size : Nat} (text : HasKind Γ e (.text size)) :
      HasKind Γ (.call pos "puts" [e]) .int
  | printf {pos : Position} {e : Expression} {es : List Expression} {size : Nat}
      {κs : List Kind} (format : HasKind Γ e (.text size)) (rest : HaveKinds Γ es κs) :
      HasKind Γ (.call pos "printf" (e :: es)) .int
  | getchar {pos : Position} : HasKind Γ (.call pos "getchar" []) .int

/-- The expressions have the kinds, one each. -/
inductive HaveKinds (Γ : Env) : List Expression → List Kind → Prop where
  | nil : HaveKinds Γ [] []
  | cons {e : Expression} {es : List Expression} {κ : Kind} {κs : List Kind}
      (head : HasKind Γ e κ) (tail : HaveKinds Γ es κs) : HaveKinds Γ (e :: es) (κ :: κs)

end

/-! ## Statements -/

mutual

/-- The statement is admitted where the names of `Γ` are known, and those of `Γ'` are
    known behind it, wherever that is in the text. -/
inductive Accepts : Env → Statement → Env → Prop where
  | output {Γ : Env} {pos : Position} {e : Expression} {size : Nat}
      (text : HasKind Γ e (.text size)) : Accepts Γ (.output pos e) Γ
  | input {Γ : Env} {pos : Position} {k : Key} {entry : Entry}
      (found : Γ.lookup k.firstName = some entry) (whole : entry.kind = .int) :
      Accepts Γ (.input pos k) Γ
  | declare {Γ : Env} {pos : Position} {name : String} {type : DeclaredType} {κ : Kind}
      (own : declaredKind? type = some κ) (new : Γ.lookup name = none) :
      Accepts Γ (.declare pos name type) (Γ.declare name κ pos)
  | custom {Γ : Env} {pos : Position} {name : String} {type : String} :
      Accepts Γ (.declare pos name (.custom type)) Γ
  | assign {Γ : Env} {pos : Position} {k : Key} {e : Expression} {entry : Entry}
      (found : Γ.lookup k.firstName = some entry) (assignable : entry.kind.isText = false)
      (value : HasKind Γ e entry.kind) : Accepts Γ (.assign pos k e) Γ
  | printInt {Γ : Env} {pos : Position} {e : Expression} {κ : Kind}
      (value : HasKind Γ e κ) (whole : κ = .int ∨ κ = .bool) : Accepts Γ (.printInt pos e) Γ
  | printReal {Γ : Env} {pos : Position} {e : Expression} (value : HasKind Γ e .real) :
      Accepts Γ (.printReal pos e) Γ
  | ifElse {Γ Γ₁ Γ₂ : Env} {pos : Position} {c : Expression}
      {thenBranch elseBranch : List Statement} (condition : HasKind Γ c .bool)
      (first : AcceptsAll Γ thenBranch Γ₁) (second : AcceptsAll Γ₁ elseBranch Γ₂) :
      Accepts Γ (.ifElse pos c thenBranch (some elseBranch)) Γ₂
  | ifOnly {Γ Γ₁ : Env} {pos : Position} {c : Expression} {thenBranch : List Statement}
      (condition : HasKind Γ c .bool) (first : AcceptsAll Γ thenBranch Γ₁) :
      Accepts Γ (.ifElse pos c thenBranch none) Γ₁
  | while {Γ Γ₁ : Env} {pos : Position} {c : Expression} {body : List Statement}
      (condition : HasKind Γ c .bool) (inner : AcceptsAll Γ body Γ₁) :
      Accepts Γ (.while pos c body) Γ₁
  | repeat {Γ Γ₁ : Env} {pos : Position} {c : Expression} {body : List Statement}
      (inner : AcceptsAll Γ body Γ₁) (condition : HasKind Γ₁ c .bool) :
      Accepts Γ (.repeat pos body c) Γ₁
  | call {Γ : Env} {pos callPos : Position} {name : String} {args : List Expression}
      {κ : Kind} (value : HasKind Γ (.call callPos name args) κ) :
      Accepts Γ (.call pos callPos name args) Γ
  | empty {Γ : Env} {pos : Position} : Accepts Γ (.empty pos) Γ

/-- The statements are admitted in order. -/
inductive AcceptsAll : Env → List Statement → Env → Prop where
  | nil {Γ : Env} : AcceptsAll Γ [] Γ
  | cons {Γ Γ₁ Γ₂ : Env} {s : Statement} {rest : List Statement} (head : Accepts Γ s Γ₁)
      (tail : AcceptsAll Γ₁ rest Γ₂) : AcceptsAll Γ (s :: rest) Γ₂

end

end Typing

end Pseudocode
