import Pseudocode.Double
import Pseudocode.Text.Position

/-! # Programs

The tree of a program: statements over expressions, each construct with the
place it was written at.

* An `Operator` has a `Rank`: products bind tighter than sums, and sums tighter
  than comparisons. A chain of operators of one rank is a tree that leans left.
* A `Key` is a path such as `a`, `rec.field` or `list[3]`. Only the first name
  of the path says which variable is meant.
* Parentheses are kept in the tree.
-/

namespace Pseudocode

/-- The six comparisons. -/
inductive Comparison where
  | eq | ne | lt | gt | le | ge
deriving DecidableEq, Inhabited

/-- The four operations of arithmetic. -/
inductive Arithmetic where
  | add | sub | mul | div
deriving DecidableEq, Inhabited

/-- An operator between two operands. -/
inductive Operator where
  | compare (c : Comparison)
  | arithmetic (a : Arithmetic)
deriving DecidableEq, Inhabited

namespace Operator

def spelling : Operator → String
  | .compare .eq => "="
  | .compare .ne => "<>"
  | .compare .lt => "<"
  | .compare .gt => ">"
  | .compare .le => "<="
  | .compare .ge => ">="
  | .arithmetic .add => "+"
  | .arithmetic .sub => "-"
  | .arithmetic .mul => "*"
  | .arithmetic .div => "/"

end Operator

/-- How tightly operators bind, from the tightest. -/
inductive Rank where
  | product | sum | comparison
deriving DecidableEq, Inhabited

def Operator.rank : Operator → Rank
  | .compare _ => .comparison
  | .arithmetic .add => .sum
  | .arithmetic .sub => .sum
  | .arithmetic .mul => .product
  | .arithmetic .div => .product

/-- The values that are written out. -/
inductive Constant where
  | bool (b : Bool)
  | string (s : String)
  | real (x : Double)
  | integer (n : Int32)
deriving DecidableEq, Inhabited

/-- One step of a path: a name, and an index in brackets if there is one. -/
structure KeyPart where
  name : String
  index : Option Int32
deriving DecidableEq, Inhabited

/-- A path to a variable. -/
structure Key where
  pos : Position
  path : List KeyPart
deriving DecidableEq, Inhabited

/-- The name of the variable that the path starts from. -/
def Key.root (k : Key) : String :=
  match k.path with
  | [] => ""
  | part :: _ => part.name

/-- What has a value. The place of an operator is that of its symbol, the place
    of a call that of the name. -/
inductive Expression where
  | constant (c : Constant)
  | key (k : Key)
  | call (pos : Position) (name : String) (args : List Expression)
  | parenthesized (e : Expression)
  | not (pos : Position) (e : Expression)
  | negate (pos : Position) (e : Expression)
  | binary (op : Operator) (pos : Position) (lhs rhs : Expression)
deriving Inhabited

/-- The type that a declaration names. -/
inductive DeclaredType where
  | int | real | bool
  | custom (name : String)
deriving DecidableEq, Inhabited

/-- What a program does, step by step. A statement has the place of its first
    word; a call inside it has its own. -/
inductive Statement where
  | output (pos : Position) (value : Expression)
  | input (pos : Position) (target : Key)
  | declare (pos : Position) (name : String) (type : DeclaredType)
  | assign (pos : Position) (target : Key) (value : Expression)
  | printInt (pos : Position) (value : Expression)
  | printReal (pos : Position) (value : Expression)
  | ifElse (pos : Position) (condition : Expression) (thenBranch : List Statement)
      (elseBranch : Option (List Statement))
  | while (pos : Position) (condition : Expression) (body : List Statement)
  /-- The body runs before the condition is asked, and the loop ends when it holds. -/
  | repeat (pos : Position) (body : List Statement) (condition : Expression)
  /-- The value of the call is dropped. -/
  | call (pos : Position) (callPos : Position) (name : String) (args : List Expression)
  /-- A line with no statement on it. -/
  | empty (pos : Position)
deriving Inhabited

def Statement.pos : Statement → Position
  | .output pos _ => pos
  | .input pos _ => pos
  | .declare pos _ _ => pos
  | .assign pos _ _ => pos
  | .printInt pos _ => pos
  | .printReal pos _ => pos
  | .ifElse pos _ _ _ => pos
  | .while pos _ _ => pos
  | .repeat pos _ _ => pos
  | .call pos _ _ _ => pos
  | .empty pos => pos

/-- Statements, to be run in order. -/
abbrev Program := List Statement

end Pseudocode
