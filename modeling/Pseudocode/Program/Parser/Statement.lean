import Pseudocode.Program.Parser.Expression

/-! # Reading statements

    program   = { statement }
    statement = newline | simple end | if end | while end | repeat end
    simple    = "OUTPUT" expression | "INPUT" key | "DECLARE" name ":" type
              | "CALL" call | "PrintfD" expression | "PrintfF" expression
              | key "<-" expression
    if        = "IF" expression { newline } "THEN" end block [ "ELSE" end block ] "ENDIF"
    while     = "WHILE" expression "DO" end block "ENDWHILE"
    repeat    = "REPEAT" end block "UNTIL" expression
    type      = "INT" | "REAL" | "BOOL" | name
    block     = { statement }

where `end` is a newline or the end of the tokens. An IF, a WHILE or a REPEAT
opens one more level for all that it consists of.
-/

namespace Pseudocode.Parser

def type : Parser DeclaredType := do
  match ← peek with
  | some ⟨.keyword .int, _⟩ => advance; return .int
  | some ⟨.keyword .real, _⟩ => advance; return .real
  | some ⟨.keyword .bool, _⟩ => advance; return .bool
  | some ⟨.name n, _⟩ => advance; return .custom n
  | _ => expected .type

def newlines : Parser Unit := fun ts => .ok () (ts.dropWhile (·.token = .newline))

/-- Reads the next statement of a block, unless a keyword comes that closes it. -/
def blockStep (statement : Parser Statement) (construct : Construct) (pos : Position)
    (closers : List Keyword) : Parser (Option Statement) := do
  match ← peek with
  | some ⟨.keyword k, _⟩ =>
    if k ∈ closers then return none else return some (← statement)
  | some _ => return some (← statement)
  | none => throw (.unterminated construct pos.line closers)

/-- Reads a block up to a keyword that closes it, which is left in place. -/
def block (statement : Parser Statement) (construct : Construct) (pos : Position)
    (closers : List Keyword) : Parser (List Statement) :=
  repeatedly (blockStep statement construct pos closers)

def elseBranch (statement : Parser Statement) (pos : Position) :
    Parser (Option (List Statement)) := do
  if ← accept (.keyword .else) then
    lineEnd
    return some (← block statement .if pos [.endIf])
  else return none

/-- Reads a construct that starts at the place with its keyword. -/
def construct (expression : Parser Expression) (statement : Parser Statement) (pos : Position) :
    Construct → Parser Statement
  | .if => do
    expect (.keyword .if)
    let condition ← expression
    newlines
    expect (.keyword .then)
    lineEnd
    let thenBranch ← block statement .if pos [.else, .endIf]
    let elseBranch ← elseBranch statement pos
    expect (.keyword .endIf)
    lineEnd
    return .ifElse pos condition thenBranch elseBranch
  | .while => do
    expect (.keyword .while)
    let condition ← expression
    expect (.keyword .do)
    lineEnd
    let body ← block statement .while pos [.endWhile]
    expect (.keyword .endWhile)
    lineEnd
    return .while pos condition body
  | .repeat => do
    expect (.keyword .repeat)
    lineEnd
    let body ← block statement .repeat pos [.until]
    expect (.keyword .until)
    let condition ← expression
    lineEnd
    return .repeat pos body condition

def declaration (pos : Position) : Parser Statement := do
  let (n, _) ← name
  expect (.symbol .colon)
  return .declare pos n (← type)

def assignment (expression : Parser Expression) (pos : Position) : Parser Statement := do
  let target ← key
  expect (.symbol .arrow)
  return .assign pos target (← expression)

def simple (expression : Parser Expression)
    (call : Parser (Position × String × List Expression)) (pos : Position) :
    Keyword → Parser Statement
  | .output => do advance; return .output pos (← expression)
  | .input => do advance; return .input pos (← key)
  | .call => do
    advance
    let (callPos, n, args) ← call
    return .call pos callPos n args
  | .printInt => do advance; return .printInt pos (← expression)
  | .printReal => do advance; return .printReal pos (← expression)
  | .declare => do advance; declaration pos
  | _ => expected .statement

def line (p : Parser Statement) : Parser Statement := do
  let s ← p
  lineEnd
  return s

def construct? : Keyword → Option Construct
  | .if => some .if
  | .while => some .while
  | .repeat => some .repeat
  | _ => none

/-- Reads a statement, given how its parts and how constructs are read. -/
def statementOver (expression : Parser Expression)
    (call : Parser (Position × String × List Expression))
    (construct : Position → Construct → Parser Statement) : Parser Statement := do
  match ← peek with
  | some ⟨.newline, pos⟩ =>
    advance
    return .empty pos
  | some ⟨.keyword k, pos⟩ =>
    match construct? k with
    | some c => construct pos c
    | none => line (simple expression call pos k)
  | some ⟨.name _, pos⟩ => line (assignment expression pos)
  | _ => expected .statement

/-- Reads a statement in which so many levels may be opened. -/
def statement : (levels : Nat) → Parser Statement
  | 0 => statementOver (expression 0) (callStatement 0) fun _ _ => tooDeep
  | levels + 1 =>
    statementOver (expression (levels + 1)) (callStatement (levels + 1)) fun pos c =>
      construct (expression levels) (statement levels) pos c

def programStep : Parser (Option Statement) := do
  match ← peek with
  | some _ => return some (← statement nestingLimit)
  | none => return none

def program : Parser Program := repeatedly programStep

end Pseudocode.Parser

namespace Pseudocode

/-- The program that the tokens of a text with these lines are. -/
def Program.ofTokens (lines : Text.Lines) (tokens : List Located) : Except ParseError Program :=
  (Parser.program.runOn lines tokens).1

end Pseudocode
