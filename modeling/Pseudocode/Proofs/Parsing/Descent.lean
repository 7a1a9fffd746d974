import Pseudocode.Program.Parser.Statement

/-! # Recursive descent with a cursor and a counter

The same grammar read by one object, which counts where it is in the tokens and how many levels are
open. Nothing bounds its loops and its recursion but a clock, and no step looks at the clock: if
that runs out, there is no outcome at all.

* `Reader`: the tokens, the cursor, the counter, and all places that these have been at.
* `Descent`: a descent takes a clock and a reader. It fails like a parser, and leaves a reader then
  as well.
* `advance`: the cursor is moved without a look at the end of the tokens.
* `nested`: the counter is raised, and lowered again whether or not what is between fails.
* `repeatedly`: a step is run until it has nothing, with no other way to stop.
* `expression`, `statement`, `program`: what is read.
-/

namespace Pseudocode

/-- Where a reader is, and how many levels are open. -/
structure Mark where
  cursor : Nat
  depth : Nat

/-- Tokens that are read by moving a cursor. The trail has all marks in it up to the present one. -/
structure Reader where
  tokens : List Located
  cursor : Nat
  depth : Nat
  trail : List Mark

namespace Reader

def start (tokens : List Located) : Reader := ⟨tokens, 0, 0, [⟨0, 0⟩]⟩

/-- The tokens that remain. -/
def rest (r : Reader) : List Located := r.tokens.drop r.cursor

def moveTo (r : Reader) (cursor depth : Nat) : Reader :=
  { r with cursor, depth, trail := r.trail ++ [⟨cursor, depth⟩] }

end Reader

/-- Reads with a clock, unless that runs out. -/
def Descent (α : Type) : Type := Nat → Reader → Option (Except ParseFault α × Reader)

namespace Descent

variable {α β : Type}

protected def bind (first : Descent α) (more : α → Descent β) : Descent β := fun clock r =>
  match first clock r with
  | some (.ok a, r') => more a clock r'
  | some (.error fault, r') => some (.error fault, r')
  | none => none

instance : Monad Descent where
  pure a := fun _ r => some (.ok a, r)
  bind := Descent.bind

/-! ## Steps -/

/-- The clock has run out. -/
def unfinished : Descent α := fun _ _ => none

def fail (fault : ParseFault) : Descent α := fun _ r => some (.error fault, r)

def expected (what : Expectation) : Descent α := fail (.expected what)

def peek : Descent (Option Located) := fun _ r => some (.ok r.tokens[r.cursor]?, r)

def peekSecond : Descent (Option Located) := fun _ r => some (.ok r.tokens[r.cursor + 1]?, r)

def advance : Descent Unit := fun _ r => some (.ok (), r.moveTo (r.cursor + 1) r.depth)

/-- Reads one level deeper, if another one may be opened. -/
def nested (q : Descent α) : Descent α := fun clock r =>
  if nestingLimit ≤ r.depth then some (.error .tooDeep, r)
  else
    match q clock (r.moveTo r.cursor (r.depth + 1)) with
    | some (outcome, r') => some (outcome, r'.moveTo r'.cursor (r'.depth - 1))
    | none => none

/-- Runs a step until it has nothing, so many times at most. -/
def repeatFor (step : Descent (Option α)) : Nat → Descent (List α)
  | 0 => unfinished
  | n + 1 => do
    match ← step with
    | some a => return a :: (← repeatFor step n)
    | none => return []

def repeatedly (step : Descent (Option α)) : Descent (List α) := fun clock =>
  repeatFor step clock clock

def accept (t : Token) : Descent Bool := do
  match ← peek with
  | some next => if next.token = t then advance; return true else return false
  | none => return false

def expect (t : Token) : Descent Unit := do
  unless ← accept t do expected (.token t)

def name : Descent (String × Position) := do
  match ← peek with
  | some ⟨.name n, pos⟩ => advance; return (n, pos)
  | _ => expected .name

def lineEnd : Descent Unit := do
  match ← peek with
  | some ⟨.newline, _⟩ => advance
  | some _ => expected .lineEnd
  | none => return ()

def newline : Descent (Option Unit) := do
  if ← accept .newline then return some () else return none

def newlines : Descent Unit := do
  let _ ← repeatedly newline
  return ()

/-! ## Keys and calls -/

def index : Descent (Option Int32) := do
  if ← accept (.symbol .openBracket) then
    match ← peek with
    | some ⟨.integer n, _⟩ =>
      advance
      expect (.symbol .closeBracket)
      return some n
    | _ => expected .index
  else return none

def keyPart : Descent (KeyPart × Position) := do
  let (n, pos) ← name
  return (⟨n, ← index⟩, pos)

def furtherPart : Descent (Option KeyPart) := do
  if ← accept (.symbol .dot) then return some (← keyPart).1 else return none

def key : Descent Key := do
  let (first, pos) ← keyPart
  return ⟨pos, first :: (← repeatedly furtherPart)⟩

def furtherArgument (argument : Descent Expression) : Descent (Option Expression) := do
  if ← accept (.symbol .comma) then return some (← argument) else return none

def arguments (argument : Descent Expression) : Descent (List Expression) := do
  match ← peek with
  | some ⟨.symbol .closeParen, _⟩ => return []
  | _ =>
    let first ← argument
    return first :: (← repeatedly (furtherArgument argument))

def call (argument : Descent Expression) : Descent (Position × String × List Expression) := do
  let (n, pos) ← name
  expect (.symbol .openParen)
  let args ← arguments argument
  expect (.symbol .closeParen)
  return (pos, n, args)

/-! ## Expressions -/

def link (operator? : Token → Option Operator) (operand : Descent Expression) :
    Descent (Option Parser.Link) := do
  match ← peek with
  | some next =>
    match operator? next.token with
    | some op =>
      advance
      return some ⟨op, next.pos, ← operand⟩
    | none => return none
  | none => return none

def chain (operator? : Token → Option Operator) (operand : Descent Expression) :
    Descent Expression := do
  let first ← operand
  return Parser.chainOf first (← repeatedly (link operator? operand))

def expressionOver (unary : Descent Expression) : Descent Expression :=
  chain Parser.comparison? (chain Parser.sumOperator? (chain Parser.productOperator? unary))

def named (inner : Descent Expression) : Descent Expression := do
  match ← peekSecond with
  | some ⟨.symbol .openParen, _⟩ =>
    let (pos, n, args) ← call inner
    return .call pos n args
  | _ => return .key (← key)

def primary (inner : Descent Expression) : Descent Expression := do
  match ← peek with
  | some ⟨.name _, _⟩ => named inner
  | some ⟨.symbol .openParen, _⟩ =>
    advance
    let e ← inner
    expect (.symbol .closeParen)
    return .parenthesized e
  | some next =>
    match Parser.constant? next.token with
    | some c =>
      advance
      return .constant c
    | none => expected .expression
  | none => expected .expression

def unaryOver (operand inner : Descent Expression) : Descent Expression := do
  match ← peek with
  | some ⟨.symbol .bang, pos⟩ =>
    advance
    return .not pos (← operand)
  | some ⟨.symbol .minus, pos⟩ =>
    advance
    return .negate pos (← operand)
  | _ => primary inner

/-- Reads an operand, so many times at most one in the other. -/
def unaryWithin : Nat → Descent Expression
  | 0 => unfinished
  | n + 1 => unaryOver (nested (unaryWithin n)) (nested (expressionOver (unaryWithin n)))

def expressionWithin (n : Nat) : Descent Expression := expressionOver (unaryWithin n)

def expression : Descent Expression := fun clock => expressionWithin clock clock

def callStatement : Descent (Position × String × List Expression) := call (nested expression)

/-! ## Statements -/

def type : Descent DeclaredType := do
  match ← peek with
  | some ⟨.keyword .int, _⟩ => advance; return .int
  | some ⟨.keyword .real, _⟩ => advance; return .real
  | some ⟨.keyword .bool, _⟩ => advance; return .bool
  | some ⟨.name n, _⟩ => advance; return .custom n
  | _ => expected .type

def blockStep (statement : Descent Statement) (construct : Construct) (pos : Position)
    (closers : List Keyword) : Descent (Option Statement) := do
  match ← peek with
  | some ⟨.keyword k, _⟩ =>
    if k ∈ closers then return none else return some (← statement)
  | some _ => return some (← statement)
  | none => fail (.unterminated construct pos.line closers)

def block (statement : Descent Statement) (construct : Construct) (pos : Position)
    (closers : List Keyword) : Descent (List Statement) :=
  repeatedly (blockStep statement construct pos closers)

def elseBranch (statement : Descent Statement) (pos : Position) :
    Descent (Option (List Statement)) := do
  if ← accept (.keyword .else) then
    lineEnd
    return some (← block statement .if pos [.endIf])
  else return none

def construct (expression : Descent Expression) (statement : Descent Statement) (pos : Position) :
    Construct → Descent Statement
  | .if => do
    expect (.keyword .if)
    let condition ← expression
    newlines
    expect (.keyword .then)
    lineEnd
    let thenBranch ← block statement .if pos [.else, .endIf]
    let elseBranch ← elseBranch statement pos
    expect (.keyword .endIf)
    lineEnd
    return .ifElse pos condition thenBranch elseBranch
  | .while => do
    expect (.keyword .while)
    let condition ← expression
    expect (.keyword .do)
    lineEnd
    let body ← block statement .while pos [.endWhile]
    expect (.keyword .endWhile)
    lineEnd
    return .while pos condition body
  | .repeat => do
    expect (.keyword .repeat)
    lineEnd
    let body ← block statement .repeat pos [.until]
    expect (.keyword .until)
    let condition ← expression
    lineEnd
    return .repeat pos body condition

def declaration (pos : Position) : Descent Statement := do
  let (n, _) ← name
  expect (.symbol .colon)
  return .declare pos n (← type)

def assignment (expression : Descent Expression) (pos : Position) : Descent Statement := do
  let target ← key
  expect (.symbol .arrow)
  return .assign pos target (← expression)

def simple (expression : Descent Expression)
    (call : Descent (Position × String × List Expression)) (pos : Position) :
    Keyword → Descent Statement
  | .output => do advance; return .output pos (← expression)
  | .input => do advance; return .input pos (← key)
  | .call => do
    advance
    let (callPos, n, args) ← call
    return .call pos callPos n args
  | .printInt => do advance; return .printInt pos (← expression)
  | .printReal => do advance; return .printReal pos (← expression)
  | .declare => do advance; declaration pos
  | _ => expected .statement

def line (q : Descent Statement) : Descent Statement := do
  let s ← q
  lineEnd
  return s

def statementOver (expression : Descent Expression)
    (call : Descent (Position × String × List Expression))
    (construct : Position → Construct → Descent Statement) : Descent Statement := do
  match ← peek with
  | some ⟨.newline, pos⟩ =>
    advance
    return .empty pos
  | some ⟨.keyword k, pos⟩ =>
    match Parser.construct? k with
    | some c => construct pos c
    | none => line (simple expression call pos k)
  | some ⟨.name _, pos⟩ => line (assignment expression pos)
  | _ => expected .statement

/-- Reads a statement, so many times at most one in the other. -/
def statementWithin : Nat → Descent Statement
  | 0 => unfinished
  | n + 1 => statementOver expression callStatement fun pos c =>
      nested (construct expression (statementWithin n) pos c)

def statement : Descent Statement := fun clock => statementWithin clock clock

def nextStatement (statement : Descent Statement) : Descent (Option Statement) := do
  match ← peek with
  | some _ => return some (← statement)
  | none => return none

def program : Descent Program := repeatedly (nextStatement statement)

end Descent

/-! ## Calls -/

/-- What a reader is called for. -/
inductive Call where
  | expression | program
deriving DecidableEq

inductive Answer where
  | expression (e : Expression)
  | program (p : Program)

namespace Call

/-- What the parser does that is called. -/
def parser : Call → Parser Answer
  | expression => do return .expression (← Parser.expression nestingLimit)
  | program => do return .program (← Parser.program)

def descent : Call → Descent Answer
  | expression => do return .expression (← Descent.expression)
  | program => do return .program (← Descent.program)

/-- The reader behind calls in a row. Each of them goes on where the one before has ended, even
    behind a fault. -/
def after (clock : Nat) : List Call → Reader → Option Reader
  | [], r => some r
  | c :: cs, r =>
    match c.descent clock r with
    | some (_, r') => after clock cs r'
    | none => none

end Call

end Pseudocode
