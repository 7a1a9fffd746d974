import Pseudocode.Double.Text
import Pseudocode.Program
import Pseudocode.Text.Quoted

/-! # The outline of a program

An outline shows a tree with every field on a line of its own, indented by four
blanks a level.

* `Outline` is what such a picture is made of, and `Outline.text` draws it.
* `Program.outline` is the picture of a program. Every expression is shown
  through all three ranks of operators, also where a chain has a single operand.
-/

namespace Pseudocode

/-- A tree as it is drawn: a name alone, with named fields or with items in
    parentheses, or a list. -/
inductive Outline where
  | leaf (text : String)
  | fields (name : String) (entries : List (String × Outline))
  | items (name : String) (entries : List Outline)
  | list (entries : List Outline)
deriving Inhabited

namespace Outline

def indent (depth : Nat) : String := "".pushn ' ' (4 * depth)

mutual

/-- Draws the outline, where lines after the first are indented for the depth. -/
def draw (depth : Nat) : Outline → String
  | .leaf text => text
  | .fields name [] => name
  | .fields name entries =>
    name ++ " \x7b\n" ++ drawFields (depth + 1) entries ++ indent depth ++ "\x7d"
  | .items name [] => name
  | .items name entries =>
    name ++ "(\n" ++ drawItems (depth + 1) entries ++ indent depth ++ ")"
  | .list [] => "[]"
  | .list entries => "[\n" ++ drawItems (depth + 1) entries ++ indent depth ++ "]"

def drawFields (depth : Nat) : List (String × Outline) → String
  | [] => ""
  | (name, o) :: rest =>
    indent depth ++ name ++ ": " ++ draw depth o ++ ",\n" ++ drawFields depth rest

def drawItems (depth : Nat) : List Outline → String
  | [] => ""
  | o :: rest => indent depth ++ draw depth o ++ ",\n" ++ drawItems depth rest

end

def text (o : Outline) : String := draw 0 o

def option : Option Outline → Outline
  | none => .leaf "None"
  | some o => .items "Some" [o]

def nat (n : Nat) : Outline := .leaf (toString n)

def string (s : String) : Outline := .leaf (Text.quoted s)

end Outline

/-! ## Leaves -/

namespace Position

def outline (p : Position) : Outline :=
  .fields "Position"
    [("offset", .nat p.offset), ("line", .nat p.line), ("column", .nat p.column)]

end Position

namespace Constant

def outline : Constant → Outline
  | .bool b => .items "Bool" [.leaf (if b then "true" else "false")]
  | .string s => .items "String" [.string s]
  | .real x => .items "Real" [.leaf x.text]
  | .integer n => .items "Integer" [.leaf (toString n.toInt)]

end Constant

namespace Key

def partOutline (part : KeyPart) : Outline :=
  .fields "KeyComponent"
    [("name", .string part.name),
     ("index", .option (part.index.map fun i => .leaf (toString i.toInt)))]

def outline (k : Key) : Outline :=
  .fields "Key" [("pos", k.pos.outline), ("path", .list (k.path.map partOutline))]

end Key

namespace Operator

def name : Operator → String
  | .compare .eq => "Eq"
  | .compare .ne => "Neq"
  | .compare .lt => "Lt"
  | .compare .gt => "Gt"
  | .compare .le => "Le"
  | .compare .ge => "Ge"
  | .arithmetic .add => "Add"
  | .arithmetic .sub => "Sub"
  | .arithmetic .mul => "Mul"
  | .arithmetic .div => "Div"

end Operator

/-! ## Expressions -/

/-- The outline of an expression that is not yet shown through all ranks: that of
    an operand, or a chain of some rank with its first operand and its links. -/
inductive Chain where
  | operand (o : Outline)
  | linked (rank : Rank) (head : Outline) (links : List Outline)
deriving Inhabited

namespace Chain

def rankName : Rank → String
  | .product => "Multiplication"
  | .sum => "Addition"
  | .comparison => "Comparison"

def close (rank : Rank) (head : Outline) (links : List Outline) : Outline :=
  .fields (rankName rank) [("head", head), ("tail", .list links)]

/-- A chain of the next rank down, as the operand of a chain of the rank. A
    looser chain is shown as it is. -/
def below : Rank → Chain → Outline
  | .product, .operand o => o
  | .product, .linked rank head links => close rank head links
  | .sum, .operand o => close .product o []
  | .sum, .linked rank head links => close rank head links
  | .comparison, .operand o => close .sum (close .product o []) []
  | .comparison, .linked .product head links => close .sum (close .product head links) []
  | .comparison, .linked rank head links => close rank head links

/-- The chain at the loosest rank. -/
def whole : Chain → Outline
  | .linked .comparison head links => close .comparison head links
  | c => close .comparison (below .comparison c) []

def link (op : Operator) (pos : Position) (lhs rhs : Chain) : Chain :=
  let rank := op.rank
  let last : Outline :=
    .fields "OpTail"
      [("op", .leaf op.name), ("pos", pos.outline), ("operand", below rank rhs)]
  match lhs with
  | .linked r head links =>
    if r = rank then .linked rank head (links ++ [last]) else .linked rank (below rank lhs) [last]
  | .operand _ => .linked rank (below rank lhs) [last]

end Chain

namespace Expression

/-- An expression inside a statement or between parentheses. -/
def enclose (c : Chain) : Outline := .fields "Expression" [("comparison", c.whole)]

/-- An operand that carries no sign. -/
def primary (name : String) (o : Outline) : Chain :=
  .operand (.items "Primary" [.items name [o]])

/-- The operand below a sign. -/
def signed (name : String) (pos : Position) (c : Chain) : Chain :=
  .operand (.items name [pos.outline, c.below .product])

def callOutline (pos : Position) (name : String) (args : List Outline) : Outline :=
  .fields "FunctionCall" [("pos", pos.outline), ("name", .string name), ("args", .list args)]

mutual

def chain : Expression → Chain
  | .constant c => primary "Constant" c.outline
  | .key k => primary "Key" k.outline
  | .call pos name args => primary "Call" (callOutline pos name (argumentOutlines args))
  | .parenthesized e => primary "Parenthesized" (enclose e.chain)
  | .not pos e => signed "Not" pos e.chain
  | .negate pos e => signed "Negate" pos e.chain
  | .binary op pos lhs rhs => .link op pos lhs.chain rhs.chain

def argumentOutlines : List Expression → List Outline
  | [] => []
  | e :: rest => enclose e.chain :: argumentOutlines rest

end

def outline (e : Expression) : Outline := enclose e.chain

end Expression

/-! ## Statements -/

namespace DeclaredType

def outline : DeclaredType → Outline
  | .int => .leaf "Int"
  | .real => .leaf "Real"
  | .bool => .leaf "Bool"
  | .custom name => .items "Custom" [.string name]

end DeclaredType

namespace Statement

mutual

def kindOutline : Statement → Outline
  | .output _ e => .items "Output" [e.outline]
  | .input _ k => .items "Input" [k.outline]
  | .declare _ name type => .fields "Declare" [("name", .string name), ("ty", type.outline)]
  | .assign _ k e => .fields "Assign" [("target", k.outline), ("value", e.outline)]
  | .printInt _ e => .items "DebugPrintInt" [e.outline]
  | .printReal _ e => .items "DebugPrintReal" [e.outline]
  | .ifElse _ e thenBranch elseBranch =>
    .fields "If"
      [("condition", e.outline), ("then_branch", .list (outlines thenBranch)),
       ("else_branch", .option
          (match elseBranch with
          | none => none
          | some b => some (.list (outlines b))))]
  | .while _ e body => .fields "While" [("condition", e.outline), ("body", .list (outlines body))]
  | .repeat _ body e =>
    .fields "Repeat" [("body", .list (outlines body)), ("condition", e.outline)]
  | .call _ pos name args =>
    .items "Call" [Expression.callOutline pos name (Expression.argumentOutlines args)]
  | .empty _ => .leaf "Empty"

def outlines : List Statement → List Outline
  | [] => []
  | s :: rest =>
    .fields "Statement" [("pos", s.pos.outline), ("kind", kindOutline s)] :: outlines rest

end

end Statement

def Program.outline (p : Program) : Outline :=
  .fields "Program" [("statements", .list (Statement.outlines p))]

end Pseudocode
