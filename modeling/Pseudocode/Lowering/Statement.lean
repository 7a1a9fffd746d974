import Pseudocode.Lowering.Expression

/-! # Lowering statements

A branch or a loop becomes blocks of the main function, and its body is lowered
in a scope of its own. A variable is a global and is bound at the root, so that
it stays known after the body it is declared in.

* `Lowering.statement` and `Lowering.block` lower statements.
* `lower` turns a program into a module.
-/

namespace Pseudocode

open Assembly

namespace Lowering

/-! ## Variables -/

/-- What a variable of the type holds at the start. Types of the program's own are
    not lowered. -/
def initializer? : DeclaredType → Option Initializer
  | .int => some (.int 32 0)
  | .real => some (.double .zero)
  | .bool => some (.int 1 0)
  | .custom _ => none

def customName : DeclaredType → String
  | .custom name => name
  | _ => ""

/-- Lowers a declaration. The global is added before the name is bound, and remains when
    the name is refused. -/
def declare (pos : Position) (name : String) (type : DeclaredType) : Lower Unit :=
  match initializer? type with
  | none => tell (.ignoredDeclaration name (customName type))
  | some init => do
    let storage ← addGlobal name init false
    tell (.declaredVariable name storage)
    bindVariable Scopes.root name ⟨storage, some pos⟩ pos

/-- Lowers an assignment. The value has to be of the type that the variable holds. -/
def assign (target : Key) (value : Expression) : Lower Unit := do
  let storage ← storageOf target
  let v ← expression value
  let held := storage.type.pointee?
  if held = some v.type then emit (.store v storage)
  else failType target.pos (.assignment target.root held v.type)

/-! ## Input and output -/

/-- Calls a function that the language provides, with arguments that fit it. -/
def callProvided (pos : Position) (name : String) (args : List Value) : Lower Value := do
  match ← function? name with
  | some f => emitCall f args
  | none => failName pos (.undefinedFunction name)

def input (k : Key) : Lower Unit := do
  let storage ← storageOf k
  let held := storage.type.pointee?
  if held = some .i32 then do
    let c ← callProvided k.pos getcharName []
    emit (.store c storage)
  else failType k.pos (.inputTarget k.root held)

/-- Reads an address as that of a text; `user` is who needs it. -/
def textPointer (pos : Position) (user : String) (v : Value) : Lower Value :=
  if v.type = .bytePtr then return v
  else if v.type.isPointer then bitcast v .bytePtr
  else failType pos (.textExpected user v.type)

def output (pos : Position) (value : Expression) : Lower Unit := do
  let v ← expression value
  let text ← textPointer pos "OUTPUT" v
  let _ ← callProvided pos putsName [text]

/-- Lowers the writing of a value under the control of a format. -/
def printFormatted (pos : Position) (formatName : String) (v : Value) : Lower Unit := do
  match ← resolve? formatName with
  | some b =>
    let format ← bitcast b.storage .bytePtr
    let _ ← callProvided pos printfName [format, v]
  | none => failName pos (.undefinedVariable formatName)

/-- Lowers the writing of a whole number or a truth value. -/
def printInt (pos : Position) (value : Expression) : Lower Unit := do
  let v ← expression value
  match v.type.width? with
  | some bits =>
    if bits = 32 then printFormatted pos intFormatName v
    else if bits < 32 then do
      let wide ← zext v .i32
      printFormatted pos intFormatName wide
    else failType pos (.integerExpected v.type)
  | none => failType pos (.integerExpected v.type)

def printReal (pos : Position) (value : Expression) : Lower Unit := do
  let v ← expression value
  if v.type.isDouble then printFormatted pos realFormatName v
  else failType pos (.realExpected v.type)

/-! ## Branches and loops -/

def condition (pos : Position) (construct : Construct) (e : Expression) : Lower Value := do
  let v ← expression e
  if v.type = .i1 then return v
  else failType pos (.conditionExpected construct v.type)

/-- Lowers a branch: both bodies lead to a common block, and the block that has
    the condition is ended last. -/
def ifElse (pos : Position) (e : Expression) (thenBranch elseBranch : Lower Unit) :
    Lower Unit := do
  let cond ← condition pos .if e
  let origin := (← get).block
  let thenBlock ← addBlock
  let elseBlock ← addBlock
  let next ← addBlock
  enterBlock thenBlock
  inNewScope thenBranch
  terminate (.br next)
  enterBlock elseBlock
  inNewScope elseBranch
  terminate (.br next)
  terminateAt origin (.condBr cond thenBlock elseBlock)
  enterBlock next

/-- Lowers a loop that asks its condition before each run of the body. -/
def whileLoop (pos : Position) (e : Expression) (body : Lower Unit) : Lower Unit := do
  let condBlock ← addBlock
  let bodyBlock ← addBlock
  let next ← addBlock
  terminate (.br condBlock)
  enterBlock condBlock
  inNewScope do
    let cond ← condition pos .while e
    terminate (.condBr cond bodyBlock next)
    enterBlock bodyBlock
    body
    terminate (.br condBlock)
  enterBlock next

/-- Lowers a loop that asks its condition after each run of the body and ends when
    it holds. -/
def repeatLoop (pos : Position) (body : Lower Unit) (e : Expression) : Lower Unit := do
  let bodyBlock ← addBlock
  let next ← addBlock
  terminate (.br bodyBlock)
  enterBlock bodyBlock
  inNewScope do
    body
    let cond ← condition pos .repeat e
    terminate (.condBr cond next bodyBlock)
  enterBlock next

/-! ## Statements -/

mutual

def statement : Statement → Lower Unit
  | .output pos value => output pos value
  | .input _ target => input target
  | .declare pos name type => declare pos name type
  | .assign _ target value => assign target value
  | .printInt pos value => printInt pos value
  | .printReal pos value => printReal pos value
  | .ifElse pos e thenBranch elseBranch =>
    ifElse pos e (block thenBranch)
      (match elseBranch with
      | some b => block b
      | none => pure ())
  | .while pos e body => whileLoop pos e (block body)
  | .repeat pos body e => repeatLoop pos (block body) e
  | .call _ pos name args => do
    let args ← expressions args
    let _ ← call pos name args
  | .empty _ => pure ()

def block : List Statement → Lower Unit
  | [] => pure ()
  | s :: rest => do
    statement s
    block rest

end

def program (p : Program) : Lower Assembly.Module := do
  start
  block p
  finish

end Lowering

/-- What happened while something was compiled, and what came of it. -/
structure Compilation where
  events : List Event
  result : Except Diagnostic Assembly.Module

def lower (p : Program) : Compilation :=
  match Lowering.program p .empty with
  | .ok m s => ⟨s.events, .ok m⟩
  | .error e s => ⟨s.events, .error e⟩

end Pseudocode
