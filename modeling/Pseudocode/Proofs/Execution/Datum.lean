import Pseudocode.Assembly.Module
import Pseudocode.Program

/-! # What a run works on and what is seen of it

A program and the module that it becomes are run by rules of their own. Both runs work on
the same data, in the same surroundings, and are compared by what is seen of them.

* `Datum` is what a variable holds or a function is called with.
* `Environment` is everything a run depends on besides the program: what external calls
  answer, and how doubles are calculated with.
* `Observation` is a call or a change of a variable, `Log` all of these up to now.
* `Ending` is how a run ends.
* `SameBehavior` says that two runs cannot be told apart.
-/

namespace Pseudocode.Execution

/-! ## Data -/

/-- What a variable holds or a function is called with. A truth value is an integer of one
    bit. A text is its bytes, the zero byte behind it among them. -/
inductive Datum where
  | int (bits : Nat) (value : BitVec bits)
  | real (x : Double)
  | text (bytes : List UInt8)
deriving DecidableEq

def Datum.truth (b : Bool) : Datum := .int 1 (.ofBool b)

def Datum.ofString (s : String) : Datum := .text (s.toUTF8.data.toList ++ [0])

/-! ## Surroundings -/

/-- What a run depends on besides the program. -/
structure Environment where
  /-- What the external calls answer, counted from zero. -/
  answer : Nat → BitVec 32
  /-- The operations on doubles. -/
  calculate : Arithmetic → Double → Double → Double
  /-- How two doubles compare, unless they are unordered. -/
  order : Double → Double → Option Ordering

/-- Something that is seen of a run. -/
inductive Observation where
  | called (function : String) (args : List Datum)
  | assigned (name : String) (value : Datum)
deriving DecidableEq

/-- What was seen up to now, the oldest first, and how many calls are among it. -/
structure Log where
  calls : Nat
  trace : List Observation

def Log.empty : Log := ⟨0, []⟩

def Log.called (l : Log) (function : String) (args : List Datum) : Log :=
  ⟨l.calls + 1, l.trace ++ [.called function args]⟩

def Log.assigned (l : Log) (name : String) (value : Datum) : Log :=
  ⟨l.calls, l.trace ++ [.assigned name value]⟩

/-! ## Endings -/

/-- How a run ends: with a status; at an operation without a result, such as a division by
    zero; at something that makes no sense; or not yet. -/
inductive Ending where
  | finished (status : BitVec 32)
  | undefined
  | stuck
  | unfinished
deriving DecidableEq

/-- A run that may take so much time, and what is seen until it ends. -/
abbrev Behavior := Nat → Ending × List Observation

/-- The observations are the first ones of the run. -/
def Behavior.Shows (r : Behavior) (trace : List Observation) : Prop :=
  ∃ n, trace <+: (r n).2

/-- The run ends so, with these observations. -/
def Behavior.Ends (r : Behavior) (ending : Ending) (trace : List Observation) : Prop :=
  ending ≠ .unfinished ∧ ∃ n, r n = (ending, trace)

/-- The same is seen of two runs, however long they take, and they end in the same way. -/
structure SameBehavior (r r' : Behavior) : Prop where
  shows : ∀ trace, r.Shows trace ↔ r'.Shows trace
  ends : ∀ ending trace, r.Ends ending trace ↔ r'.Ends ending trace

/-! ## Other names for variables -/

def Observation.rename (ρ : String → String) : Observation → Observation
  | .called function args => .called function args
  | .assigned name value => .assigned (ρ name) value

def Behavior.rename (ρ : String → String) (r : Behavior) : Behavior :=
  fun n => ((r n).1, (r n).2.map (Observation.rename ρ))

def Log.rename (ρ : String → String) (l : Log) : Log := ⟨l.calls, l.trace.map (Observation.rename ρ)⟩

@[simp] theorem Log.rename_called (ρ : String → String) (l : Log) (function : String)
    (args : List Datum) :
    (l.called function args).rename ρ = (l.rename ρ).called function args := by
  simp [Log.rename, Log.called, Observation.rename]

@[simp] theorem Log.rename_assigned (ρ : String → String) (l : Log) (name : String)
    (value : Datum) :
    (l.assigned name value).rename ρ = (l.rename ρ).assigned (ρ name) value := by
  simp [Log.rename, Log.assigned, Observation.rename]

end Pseudocode.Execution
