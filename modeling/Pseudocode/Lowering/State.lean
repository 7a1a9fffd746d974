import Pseudocode.Assembly.Module
import Pseudocode.Diagnostic
import Pseudocode.Event

/-! # The state of a compilation

A program is turned into a module step by step. A step works on the module and
the scopes built so far; it may fail, and then leaves the state as it was when it
failed.

* `Lowering.State` is the module, the scopes, the place where instructions are
  added, the counters for names, and the events up to now.
* `Lower` is a step. `emit`, `terminate`, `freshTemp`, `addBlock`, `addGlobal` and
  `bindVariable` are the small ones.
* `inNewScope` runs a step in a scope of its own, which is closed afterwards
  whether the step succeeds or not.
* `start` opens the function `main`, `finish` closes it.
-/

namespace Pseudocode

open Assembly

namespace Lowering

/-- What has been built, and where building goes on. -/
structure State where
  target : Assembly.Module
  scopes : Scopes
  /-- The scope that names are looked up from. -/
  scope : ScopeId
  function : FunctionId
  block : BlockId
  /-- How many temporaries were named. -/
  temps : Nat
  /-- How many string literals were named. -/
  strings : Nat
  /-- What happened, the oldest first. -/
  events : List Event
deriving Inhabited

def State.empty : State where
  target := .empty
  scopes := .start
  scope := Scopes.root
  function := ⟨0⟩
  block := ⟨0⟩
  temps := 0
  strings := 0
  events := []

end Lowering

/-- A step of a compilation. -/
abbrev Lower := EStateM Diagnostic Lowering.State

namespace Lowering

def tell (e : Event) : Lower Unit :=
  modify fun s => { s with events := s.events ++ [e] }

/-- Fails with a fault of the module under construction. -/
def ofFault {α : Type} : Except Fault α → Lower α
  | .ok a => pure a
  | .error fault => throw (.consistency fault)

def failName {α : Type} (pos : Position) (fault : ResolutionFault) : Lower α :=
  throw (.resolution pos fault)

def failType {α : Type} (pos : Position) (fault : TypeFault) : Lower α :=
  throw (.type pos fault)

/-! ## Blocks and instructions -/

def getFunction : Lower Function := do
  let s ← get
  ofFault (s.target.function s.function)

/-- Puts a function in place of the one that is being built. -/
def setFunction (f : Function) : Lower Unit :=
  modify fun s => { s with target := s.target.setFunction s.function f }

def freshTemp (type : Ty) : Lower Value := do
  let s ← get
  set { s with temps := s.temps + 1 }
  return .temp s!"t{s.temps}" type

def addBlock : Lower BlockId := do
  let f ← getFunction
  setFunction f.addBlock
  tell (.allocatedBlock f.nextBlock.index)
  return f.nextBlock

/-- Goes on in another block. -/
def enterBlock (b : BlockId) : Lower Unit :=
  modify fun s => { s with block := b }

def emit (i : Instr) : Lower Unit := do
  let s ← get
  let f ← getFunction
  setFunction (← ofFault (f.push s.block i))

def terminateAt (b : BlockId) (t : Terminator) : Lower Unit := do
  let f ← getFunction
  setFunction (← ofFault (f.terminate b t))

def terminate (t : Terminator) : Lower Unit := do
  let s ← get
  terminateAt s.block t

def zext (v : Value) (type : Ty) : Lower Value := do
  let dst ← freshTemp type
  emit (.cast dst .zext v)
  return dst

/-- Reads an address as one of another type. -/
def bitcast (v : Value) (type : Ty) : Lower Value := do
  let dst ← freshTemp type
  emit (.cast dst .bitcast v)
  return dst

/-! ## Globals and names -/

def addGlobal (base : String) (init : Initializer) (constant : Bool) : Lower Value := do
  let s ← get
  set { s with target := s.target.addGlobal base init constant }
  return (s.target.newGlobal base init constant).address

def addFunction (f : Function) : Lower Unit :=
  modify fun s => { s with target := s.target.addFunction f }

/-- Binds a variable in a scope, as declared at the place. -/
def bindVariable (scope : ScopeId) (name : String) (b : Binding) (pos : Position) :
    Lower Unit := do
  let s ← get
  match s.scopes.bindVariable scope name b with
  | .ok scopes => set { s with scopes }
  | .error fault => throw (.ofScopeFault .variable pos fault)

/-- Makes a function known in a scope, as declared at the place. -/
def bindFunction (scope : ScopeId) (name : String) (f : Signature) (pos : Position) :
    Lower Unit := do
  let s ← get
  match s.scopes.bindFunction scope name f with
  | .ok scopes => set { s with scopes }
  | .error fault => throw (.ofScopeFault .function pos fault)

def resolve? (name : String) : Lower (Option Binding) := do
  let s ← get
  return s.scopes.resolve s.scope name

def function? (name : String) : Lower (Option Signature) := do
  let s ← get
  return s.scopes.function? name

/-- Gives a string literal a global of its own, also if the text occurred before. -/
def addString (text : String) : Lower Value := do
  let s ← get
  set { s with strings := s.strings + 1 }
  let address ← addGlobal s!".str.{s.strings}" (.ofText text) true
  tell (.stringAdded address)
  return address

/-! ## Scopes -/

def enterScope (s : State) : State :=
  let scopes := s.scopes.openScope s.scope
  { s with
    scopes
    scope := s.scopes.nextScope
    events := s.events ++ [.enteredScope scopes.depth] }

/-- The state `s` back in the scope that `outer` is in, with the scope closed that
    was opened there. -/
def leaveScope (outer s : State) : State :=
  let scopes := s.scopes.close outer.scopes.nextScope
  { s with scopes, scope := outer.scope, events := s.events ++ [.leftScope scopes.depth] }

def inNewScope {α : Type} (body : Lower α) : Lower α := fun s =>
  match body (enterScope s) with
  | .ok a s' => .ok a (leaveScope s s')
  | .error e s' => .error e (leaveScope s s')

/-! ## What the language provides -/

/-- Writes a text and a line feed. -/
def putsName : String := "puts"

/-- Writes values under the control of a format. -/
def printfName : String := "printf"

/-- Reads a character. -/
def getcharName : String := "getchar"

def intFormatName : String := "printfd_fmt"

def realFormatName : String := "printff_fmt"

def builtins : List Signature :=
  [⟨putsName, .i32, [.bytePtr], false⟩,
   ⟨printfName, .i32, [.bytePtr], true⟩,
   ⟨getcharName, .i32, [], false⟩]

/-- The formats, by the name of the global that holds each. -/
def formats : List (String × String) :=
  [(intFormatName, "Int: %d\n"), (realFormatName, "Real: %f\n")]

def provideFunction (f : Signature) : Lower Unit := do
  addFunction (.declared f)
  bindFunction Scopes.root f.name f .nowhere

def provideFormat (format : String × String) : Lower Unit := do
  let storage ← addGlobal format.1 (.ofText format.2) true
  bindVariable Scopes.root format.1 ⟨storage, none⟩ .nowhere

def provideAll : Lower Unit := do
  builtins.forM provideFunction
  formats.forM provideFormat
  tell .runtimeReady

/-! ## The main function -/

def mainSignature : Signature := ⟨"main", .i32, [], false⟩

/-- Adds the main function and goes on in its first block. -/
def openMain : Lower Unit :=
  modify fun s =>
    { s with
      target := s.target.addFunction (Function.declared mainSignature).addBlock
      function := s.target.nextFunction
      block := ⟨0⟩ }

def start : Lower Unit := do
  provideAll
  openMain

/-- Closes the main function and gives the module, every block of which is ended. -/
def finish : Lower Assembly.Module := do
  terminate (.ret (.i32 0))
  let s ← get
  ofFault s.target.verify
  let f ← getFunction
  tell (.finished f.blocks.length s.target.globals.length)
  return s.target

end Lowering

end Pseudocode
