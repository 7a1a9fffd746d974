import Pseudocode.Text.Lines
import Pseudocode.Token

/-! # Reading tokens

A parser takes tokens from the front of a list. It gives a value or fails, and
in both cases says which tokens remain, so that the one who called it may go on
from there.

* `ParseFault` is why a parser fails. A fault is always about the first of the
  remaining tokens, or about the end if none remains.
* `ParseError` is a fault as it is reported, with its place and the line there.
* `Parser.repeatedly` runs a step until it declines. It stops as well after a
  step that took no token, so that it ends for every step.
-/

namespace Pseudocode

/-- The three constructs that are closed by a keyword. -/
inductive Construct where
  | if | while | repeat
deriving DecidableEq, Inhabited

def Construct.keyword : Construct → Keyword
  | .if => .if
  | .while => .while
  | .repeat => .repeat

/-- What could have stood at the place of a fault. -/
inductive Expectation where
  | token (t : Token)
  | name
  | index
  | expression
  | statement
  | type
  | lineEnd
deriving DecidableEq, Inhabited

def Expectation.text : Expectation → String
  | .token t => s!"'{t.text}'"
  | .name => "identifier"
  | .index => "an integer index"
  | .expression => "an expression"
  | .statement => "a statement"
  | .type => "a type (INT, REAL, BOOL or a type name)"
  | .lineEnd => "end of line"

/-- Why no token list that starts like this one can be read. -/
inductive ParseFault where
  /-- Something else had to come here. -/
  | expected (what : Expectation)
  /-- Another level of nesting would be one too many. -/
  | tooDeep
  /-- The tokens ended before the construct that was opened on the line was closed. -/
  | unterminated (construct : Construct) (line : Nat) (closers : List Keyword)
deriving DecidableEq, Inhabited

/-- The greatest depth to which blocks, parentheses, arguments and signs may be nested. -/
def nestingLimit : Nat := 128

/-- The wording of the fault, given the token it is about. -/
def ParseFault.message (found : Option Token) : ParseFault → String
  | .expected what =>
    let found := match found with | some t => s!"'{t.text}'" | none => "end of input"
    s!"Expected {what.text}, found {found}"
  | .tooDeep => s!"Nesting too deep (more than {nestingLimit} levels)"
  | .unterminated construct line closers =>
    let names := " or ".intercalate (closers.map Keyword.spelling)
    s!"Unterminated {construct.keyword.spelling} starting at line {line}: expected {names}"

/-- A fault with the token it is about, its place, and the line there. -/
structure ParseError where
  pos : Position
  context : String
  fault : ParseFault
  found : Option Token
deriving DecidableEq

namespace ParseError

def reason (e : ParseError) : String := e.fault.message e.found

def message (e : ParseError) : String :=
  s!"Parse error at line {e.pos.line}, column {e.pos.column}: {e.reason}\n  Context: {e.context}"

/-- A fault in front of the remaining tokens of a text with these lines. -/
def ofFault (lines : Text.Lines) (fault : ParseFault) (rest : List Located) : ParseError :=
  let pos := match rest with | t :: _ => t.pos | [] => lines.endPosition
  ⟨pos, lines.context pos.offset, fault, rest.head?.map (·.token)⟩

end ParseError

/-- Takes tokens from the front of a list. -/
abbrev Parser := EStateM ParseFault (List Located)

namespace Parser

variable {α : Type}

/-- Runs the parser on the tokens of a text with these lines. Gives the value or
    the error, and the tokens that remain. -/
def runOn (p : Parser α) (lines : Text.Lines) (tokens : List Located) :
    Except ParseError α × List Located :=
  match p tokens with
  | .ok a rest => (.ok a, rest)
  | .error fault rest => (.error (.ofFault lines fault rest), rest)

def expected (what : Expectation) : Parser α := throw (.expected what)

/-- The next token, which is left in place. -/
def peek : Parser (Option Located) := fun ts => .ok ts.head? ts

/-- The token behind the next one. -/
def peekSecond : Parser (Option Located) := fun ts => .ok ts[1]? ts

def advance : Parser Unit := fun ts => .ok () ts.tail

def accept (t : Token) : Parser Bool := do
  match ← peek with
  | some next => if next.token = t then advance; return true else return false
  | none => return false

def expect (t : Token) : Parser Unit := do
  unless ← accept t do expected (.token t)

def name : Parser (String × Position) := do
  match ← peek with
  | some ⟨.name n, pos⟩ => advance; return (n, pos)
  | _ => expected .name

/-- Takes the line break behind a statement, or finds the end of the tokens. -/
def lineEnd : Parser Unit := do
  match ← peek with
  | some ⟨.newline, _⟩ => advance
  | some _ => expected .lineEnd
  | none => return ()

/-- Fails because no further level may be opened. -/
def tooDeep : Parser α := throw .tooDeep

/-- The values of a step, which is run until it has none. -/
def repeatedly (step : Parser (Option α)) (ts : List Located) :
    EStateM.Result ParseFault (List Located) (List α) :=
  match step ts with
  | .error fault rest => .error fault rest
  | .ok none rest => .ok [] rest
  | .ok (some a) rest =>
    if rest.length < ts.length then
      match repeatedly step rest with
      | .ok as rest => .ok (a :: as) rest
      | .error fault rest => .error fault rest
    else .ok [a] rest
termination_by ts.length

end Parser

end Pseudocode
