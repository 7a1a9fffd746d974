import Pseudocode.Program.Parser
import Pseudocode.Program

/-! # Reading expressions

    expression = sum { comparison sum }
    sum        = product { ("+" | "-") product }
    product    = unary { ("*" | "/") unary }
    unary      = ("!" | "-") unary | primary
    primary    = constant | key | call | "(" expression ")"
    key        = part { "." part }
    part       = name [ "[" integer "]" ]
    call       = name "(" [ expression { "," expression } ] ")"

A chain of operators leans left. A name is a call when a parenthesis follows it
at once. The operand of a sign, an argument and what stands between parentheses
lie one level deeper; the number a parser is given says how many levels may
still be opened.
-/

namespace Pseudocode.Parser

/-! ## Keys and calls -/

def index : Parser (Option Int32) := do
  if ← accept (.symbol .openBracket) then
    match ← peek with
    | some ⟨.integer n, _⟩ =>
      advance
      expect (.symbol .closeBracket)
      return some n
    | _ => expected .index
  else return none

def keyPart : Parser (KeyPart × Position) := do
  let (n, pos) ← name
  return (⟨n, ← index⟩, pos)

def furtherPart : Parser (Option KeyPart) := do
  if ← accept (.symbol .dot) then return some (← keyPart).1 else return none

def key : Parser Key := do
  let (first, pos) ← keyPart
  return ⟨pos, first :: (← repeatedly furtherPart)⟩

def furtherArgument (argument : Parser Expression) : Parser (Option Expression) := do
  if ← accept (.symbol .comma) then return some (← argument) else return none

/-- Reads arguments up to the closing parenthesis, which is left in place. -/
def arguments (argument : Parser Expression) : Parser (List Expression) := do
  match ← peek with
  | some ⟨.symbol .closeParen, _⟩ => return []
  | _ =>
    let first ← argument
    return first :: (← repeatedly (furtherArgument argument))

/-- Reads a call: the place and the name of the function, and the arguments. -/
def call (argument : Parser Expression) : Parser (Position × String × List Expression) := do
  let (n, pos) ← name
  expect (.symbol .openParen)
  let args ← arguments argument
  expect (.symbol .closeParen)
  return (pos, n, args)

/-! ## Operators -/

def comparison? : Token → Option Operator
  | .symbol .equal => some (.compare .eq)
  | .symbol .unequal => some (.compare .ne)
  | .symbol .less => some (.compare .lt)
  | .symbol .greater => some (.compare .gt)
  | .symbol .atMost => some (.compare .le)
  | .symbol .atLeast => some (.compare .ge)
  | _ => none

def sumOperator? : Token → Option Operator
  | .symbol .plus => some (.arithmetic .add)
  | .symbol .minus => some (.arithmetic .sub)
  | _ => none

def productOperator? : Token → Option Operator
  | .symbol .star => some (.arithmetic .mul)
  | .symbol .slash => some (.arithmetic .div)
  | _ => none

/-- An operator with its place and the operand to its right. -/
structure Link where
  op : Operator
  pos : Position
  rhs : Expression

/-- Reads an operator and the operand behind it, if an operator comes. -/
def link (operator? : Token → Option Operator) (operand : Parser Expression) :
    Parser (Option Link) := do
  match ← peek with
  | some next =>
    match operator? next.token with
    | some op =>
      advance
      return some ⟨op, next.pos, ← operand⟩
    | none => return none
  | none => return none

def chainOf (first : Expression) (links : List Link) : Expression :=
  links.foldl (fun lhs l => .binary l.op l.pos lhs l.rhs) first

/-- Reads a chain of operands with operators of one rank between them. -/
def chain (operator? : Token → Option Operator) (operand : Parser Expression) :
    Parser Expression := do
  let first ← operand
  return chainOf first (← repeatedly (link operator? operand))

/-- Reads an expression, given how an operand without operators is read. -/
def expressionOver (unary : Parser Expression) : Parser Expression :=
  chain comparison? (chain sumOperator? (chain productOperator? unary))

/-! ## Operands -/

def constant? : Token → Option Constant
  | .keyword .true => some (.bool true)
  | .keyword .false => some (.bool false)
  | .string s => some (.string s)
  | .real x => some (.real x)
  | .integer n => some (.integer n)
  | _ => none

/-- Reads an operand that starts with a name: a call or a key. -/
def named (inner : Parser Expression) : Parser Expression := do
  match ← peekSecond with
  | some ⟨.symbol .openParen, _⟩ =>
    let (pos, n, args) ← call inner
    return .call pos n args
  | _ => return .key (← key)

/-- Reads an operand without a sign. What lies between its parentheses is read by `inner`. -/
def primary (inner : Parser Expression) : Parser Expression := do
  match ← peek with
  | some ⟨.name _, _⟩ => named inner
  | some ⟨.symbol .openParen, _⟩ =>
    advance
    let e ← inner
    expect (.symbol .closeParen)
    return .parenthesized e
  | some next =>
    match constant? next.token with
    | some c =>
      advance
      return .constant c
    | none => expected .expression
  | none => expected .expression

/-- Reads an operand. What its sign stands before is read by `operand`. -/
def unaryOver (operand inner : Parser Expression) : Parser Expression := do
  match ← peek with
  | some ⟨.symbol .bang, pos⟩ =>
    advance
    return .not pos (← operand)
  | some ⟨.symbol .minus, pos⟩ =>
    advance
    return .negate pos (← operand)
  | _ => primary inner

/-- Reads an operand in which so many levels may be opened. -/
def unary : (levels : Nat) → Parser Expression
  | 0 => unaryOver tooDeep tooDeep
  | levels + 1 => unaryOver (unary levels) (expressionOver (unary levels))

/-- Reads an expression in which so many levels may be opened. -/
def expression (levels : Nat) : Parser Expression := expressionOver (unary levels)

/-- Reads a call in whose arguments one level less may be opened. -/
def callStatement : (levels : Nat) → Parser (Position × String × List Expression)
  | 0 => call tooDeep
  | levels + 1 => call (expression levels)

end Pseudocode.Parser
