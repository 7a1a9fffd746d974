import Pseudocode.Assembly.Value
import Pseudocode.Text.Quoted

/-! # Events

What happens while a program is compiled is told as a list of events, each with
a level, a message and some fields.

* `Event.line` is an event as a line of a log, where a text that was taken from the
  program is quoted.
-/

namespace Pseudocode

open Assembly (Value)

/-- How much an event matters, from the least. -/
inductive Level where
  | trace | debug | info
deriving DecidableEq, Inhabited

def Level.text : Level → String
  | .trace => "TRACE"
  | .debug => "DEBUG"
  | .info => "INFO"

def Level.rank : Level → Nat
  | .trace => 0
  | .debug => 1
  | .info => 2

/-- Something that happened. -/
inductive Event where
  | lexed (count : Nat)
  | runtimeReady
  | allocatedBlock (index : Nat)
  | enteredScope (depth : Nat)
  | leftScope (depth : Nat)
  | stringAdded (address : Value)
  | declaredVariable (name : String) (storage : Value)
  | ignoredDeclaration (name type : String)
  | finished (blocks globals : Nat)
deriving DecidableEq, Inhabited

/-- The value of a field: a text that is quoted in a log, or one that is not. -/
inductive FieldValue where
  | quoted (s : String)
  | plain (s : String)
deriving DecidableEq, Inhabited

namespace FieldValue

def text : FieldValue → String
  | .quoted s => s
  | .plain s => s

def logText : FieldValue → String
  | .quoted s => Text.quoted s
  | .plain s => s

def nat (n : Nat) : FieldValue := .plain (toString n)

end FieldValue

namespace Event

def level : Event → Level
  | .lexed _ => .trace
  | .finished .. => .info
  | _ => .debug

def message : Event → String
  | .lexed _ => "lexed source"
  | .runtimeReady => "runtime intrinsics installed"
  | .allocatedBlock _ => "allocated block"
  | .enteredScope _ => "entered scope"
  | .leftScope _ => "left scope"
  | .stringAdded _ => "hoisted string literal"
  | .declaredVariable .. => "declared variable"
  | .ignoredDeclaration .. => "ignoring declaration of custom type"
  | .finished .. => "compilation finished"

def fields : Event → List (String × FieldValue)
  | .lexed count => [("count", .nat count)]
  | .runtimeReady => []
  | .allocatedBlock index => [("block", .nat index)]
  | .enteredScope depth => [("depth", .nat depth)]
  | .leftScope depth => [("depth", .nat depth)]
  | .stringAdded address => [("global", .plain address.text)]
  | .declaredVariable name storage =>
    [("variable", .quoted name), ("storage", .plain storage.text)]
  | .ignoredDeclaration name type => [("variable", .quoted name), ("type_name", .plain type)]
  | .finished blocks globals => [("blocks", .nat blocks), ("globals", .nat globals)]

/-- The event as a line of a log, with its line feed. The level is five characters
    wide. -/
def line (e : Event) : String :=
  let level := "".pushn ' ' (5 - e.level.text.length) ++ e.level.text
  let fields := String.join (e.fields.map fun (name, value) => s!" {name}={value.logText}")
  s!"{level} {e.message}{fields}\n"

end Event

end Pseudocode
