import Pseudocode.Assembly.Function
import Pseudocode.Program.Parser
import Pseudocode.Program
import Pseudocode.Scope
import Pseudocode.Token.Scan

/-! # Diagnostics

What can be wrong with a program, and how it is told.

* `ResolutionFault` is about names and the number of arguments, `TypeFault` about
  types; each has its wording.
* `Diagnostic` is any error, from the first character of a text to the last
  instruction. `Diagnostic.message` is its text, and `Diagnostic.cause?` the
  text of the error underneath it, if it wraps one.
-/

namespace Pseudocode

open Assembly (Ty Fault)

/-! ## Names -/

/-- What a name can be declared as. -/
inductive Noun where
  | variable | function
deriving DecidableEq, Inhabited

def Noun.text : Noun → String
  | .variable => "Variable"
  | .function => "Function"

def Noun.lowerText : Noun → String
  | .variable => "variable"
  | .function => "function"

/-- The sorts of faults with names. -/
inductive ResolutionKind where
  | variableRedefinition | functionRedefinition | functionOutsideRoot
  | undefinedVariable | undefinedFunction | argumentCountMismatch
deriving DecidableEq, Inhabited

def ResolutionKind.text : ResolutionKind → String
  | .variableRedefinition => "VariableRedefinition"
  | .functionRedefinition => "FunctionRedefinition"
  | .functionOutsideRoot => "FunctionOutsideRoot"
  | .undefinedVariable => "UndefinedVariable"
  | .undefinedFunction => "UndefinedFunction"
  | .argumentCountMismatch => "ArgumentCountMismatch"

/-- What is wrong with a name. -/
inductive ResolutionFault where
  /-- The name was declared before: at the place, or by the language itself. -/
  | redefined (what : Noun) (name : String) (previous : Option Position)
  | functionOutsideRoot (name : String)
  | scopeGone (what : Noun)
  | undefinedVariable (name : String)
  | undefinedFunction (name : String)
  | argumentCount (name : String) (variadic : Bool) (expected found : Nat)
deriving DecidableEq, Inhabited

namespace ResolutionFault

/-- The sort of the fault. A declaration in a scope that is gone counts as one with
    an undefined variable. -/
def kind : ResolutionFault → ResolutionKind
  | .redefined .variable .. => .variableRedefinition
  | .redefined .function .. => .functionRedefinition
  | .functionOutsideRoot _ => .functionOutsideRoot
  | .scopeGone _ => .undefinedVariable
  | .undefinedVariable _ => .undefinedVariable
  | .undefinedFunction _ => .undefinedFunction
  | .argumentCount .. => .argumentCountMismatch

def message : ResolutionFault → String
  | .redefined what name previous =>
    let origin := match previous with
      | some pos => s!"previously declared at {pos.text}"
      | none => "reserved by the runtime"
    s!"{what.text} '{name}' is already defined in this scope ({origin})"
  | .functionOutsideRoot name => s!"Function '{name}' can only be declared at the top level"
  | .scopeGone what => s!"Cannot declare {what.lowerText} in a scope that no longer exists"
  | .undefinedVariable name => s!"Undefined variable '{name}'"
  | .undefinedFunction name => s!"Undefined function '{name}'"
  | .argumentCount name variadic expected found =>
    let least := if variadic then "at least " else ""
    s!"Function '{name}' expects {least}{expected} argument(s), got {found}"

end ResolutionFault

/-! ## Types -/

/-- An operation that not every type has. -/
inductive Operation where
  | binary (op : Operator)
  | not
  | negation
deriving DecidableEq, Inhabited

def Operation.text : Operation → String
  | .binary op => s!"Operator '{op.spelling}'"
  | .not => "'!'"
  | .negation => "Negation"

/-- What is wrong with a type. -/
inductive TypeFault where
  | undefinedFor (operation : Operation) (found : Ty)
  | mixedOperands (op : Operator) (lhs rhs : Ty)
  | integerExpected (found : Ty)
  | realExpected (found : Ty)
  | textExpected (user : String) (found : Ty)
  | conditionExpected (construct : Construct) (found : Ty)
  | assignment (name : String) (expected : Option Ty) (found : Ty)
  | inputTarget (name : String) (held : Option Ty)
  | argument (index : Nat) (name : String) (expected found : Ty)
deriving DecidableEq, Inhabited

/-- The wording of the fault. Arguments are counted from one. -/
def TypeFault.message : TypeFault → String
  | .undefinedFor operation found =>
    s!"{operation.text} is not defined for values of type {found.text}"
  | .mixedOperands op lhs rhs =>
    s!"Operator '{op.spelling}' cannot combine {lhs.text} with {rhs.text}"
  | .integerExpected found => s!"PrintfD expects an integer, found {found.text}"
  | .realExpected found => s!"PrintfF expects a real, found {found.text}"
  | .textExpected user found => s!"{user} expects a string, found a value of type {found.text}"
  | .conditionExpected construct found =>
    s!"{construct.keyword.spelling} condition must be BOOL, found {found.text}"
  | .assignment name expected found =>
    let expected := match expected with | some t => t.text | none => "nothing"
    s!"Cannot assign a value of type {found.text} to '{name}' of type {expected}"
  | .inputTarget name held =>
    let held := match held with | some t => t.text | none => "not a variable"
    s!"INPUT can only read into an INT variable, '{name}' is {held}"
  | .argument index name expected found =>
    s!"Argument {index + 1} of '{name}' expects {expected.text}, found {found.text}"

/-! ## Errors -/

/-- What is wrong with a program. -/
inductive Diagnostic where
  | lexical (e : LexicalError)
  | parse (e : ParseError)
  | resolution (pos : Position) (fault : ResolutionFault)
  | type (pos : Position) (fault : TypeFault)
  /-- The instructions came out broken, which is no fault of the program. -/
  | consistency (fault : Fault)
deriving DecidableEq

namespace Diagnostic

def message : Diagnostic → String
  | .lexical e => s!"Lexical error: {e.message}"
  | .parse e => e.message
  | .resolution pos fault =>
    s!"ResolutionError:{fault.kind.text} ({pos.text}) - {fault.message}"
  | .type pos fault => s!"TypeError ({pos.text}) - {fault.message}"
  | .consistency fault => s!"Internal IR error: {fault.message}"

def cause? : Diagnostic → Option String
  | .lexical e => some e.message
  | .consistency fault => some fault.message
  | _ => none

/-- The error for a declaration at the place that was refused. -/
def ofScopeFault (what : Noun) (pos : Position) : ScopeFault → Diagnostic
  | .redefinition name previous => .resolution pos (.redefined what name previous)
  | .notRoot name => .resolution pos (.functionOutsideRoot name)
  | .unknownScope => .resolution pos (.scopeGone what)

end Diagnostic

end Pseudocode
