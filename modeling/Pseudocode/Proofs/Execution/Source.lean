import Pseudocode.Lowering.State
import Pseudocode.Proofs.Execution.Datum
import Pseudocode.Proofs.Typing.Rules

/-! # Running a program

A program is run directly on its tree: statements in order, operands and arguments from
left to right. Expressions only read variables; calls inside them are seen from outside.

* `eval` gives the value of an expression.
* `exec` runs a statement. No loop may go around more than `fuel` times, so that every
  run ends; `source` is the run of a program for any bound.
* `undefined` is the division of integers without a result; `stuck` is anything that a
  program which follows the static rules does not do.
-/

namespace Pseudocode.Execution

/-! ## Operators -/

/-- An operation on signed integers of one width, modulo the numbers of that width. A
    quotient is rounded towards zero and has to fit the width. -/
def ofInts {w : Nat} (a : Arithmetic) (x y : BitVec w) : Option (BitVec w) :=
  match a with
  | .add => some (x + y)
  | .sub => some (x - y)
  | .mul => some (x * y)
  | .div =>
    let quotient := BitVec.ofInt w (x.toInt.tdiv y.toInt)
    if y = 0 ∨ quotient.toInt ≠ x.toInt.tdiv y.toInt then none else some quotient

def compareInts {w : Nat} (c : Comparison) (x y : BitVec w) : Bool :=
  match c with
  | .eq => x.toInt = y.toInt
  | .ne => x.toInt ≠ y.toInt
  | .lt => x.toInt < y.toInt
  | .gt => x.toInt > y.toInt
  | .le => x.toInt ≤ y.toInt
  | .ge => x.toInt ≥ y.toInt

/-- A comparison of doubles, given how they compare. It fails when they are unordered. -/
def compareReals (c : Comparison) (order : Option Ordering) : Bool :=
  match order with
  | none => false
  | some o =>
    match c with
    | .eq => o = .eq
    | .ne => o ≠ .eq
    | .lt => o = .lt
    | .gt => o = .gt
    | .le => o ≠ .gt
    | .ge => o ≠ .lt

def operateInts {w : Nat} (op : Operator) (x y : BitVec w) : Except Ending Datum :=
  match op with
  | .arithmetic a =>
    match ofInts a x y with
    | some z => .ok (.int w z)
    | none => .error .undefined
  | .compare c => .ok (.truth (compareInts c x y))

def operateReals (env : Environment) (op : Operator) (x y : Double) : Datum :=
  match op with
  | .arithmetic a => .real (env.calculate a x y)
  | .compare c => .truth (compareReals c (env.order x y))

/-- An operator on two data. Of two integers the narrower one is widened by zeros. -/
def operate (env : Environment) (op : Operator) (l r : Datum) : Except Ending Datum :=
  match l, r with
  | .int w x, .int w' y => operateInts op (x.setWidth (max w w')) (y.setWidth (max w w'))
  | .real x, .real y => .ok (operateReals env op x y)
  | _, _ => .error .stuck

def negate (env : Environment) : Datum → Except Ending Datum
  | .int 32 n => .ok (.int 32 (0 - n))
  | .real x => .ok (.real (env.calculate .sub .zero x))
  | _ => .error .stuck

def not : Datum → Except Ending Datum
  | .int 1 b => .ok (.int 1 (~~~ b))
  | _ => .error .stuck

/-! ## Expressions -/

def ofConstant : Constant → Datum
  | .bool b => .truth b
  | .integer n => .int 32 n.toBitVec
  | .real x => .real x
  | .string s => .ofString s

/-- An argument as it is passed: a truth value as a whole number. -/
def passed : Datum → Datum
  | .int w n => if w < 32 then .int 32 (n.setWidth 32) else .int w n
  | d => d

abbrev Variables := String → Option Datum

/-- A part of a run that does not change any variable. -/
abbrev Evaluation := EStateM Ending Log

/-- A call, which is seen, and its answer. -/
def performCall (env : Environment) (name : String) (args : List Datum) : Evaluation Datum :=
  fun log => .ok (.int 32 (env.answer log.calls)) (log.called name args)

def orFail : Except Ending Datum → Evaluation Datum
  | .ok d => pure d
  | .error e => throw e

mutual

def eval (env : Environment) (σ : Variables) : Expression → Evaluation Datum
  | .constant c => pure (ofConstant c)
  | .key k =>
    match σ k.firstName with
    | some d => pure d
    | none => throw .stuck
  | .call _ name args => do
    let ds ← evalAll env σ args
    performCall env name (ds.map passed)
  | .parenthesized e => eval env σ e
  | .not _ e => do
    let d ← eval env σ e
    orFail (not d)
  | .negate _ e => do
    let d ← eval env σ e
    orFail (negate env d)
  | .binary op _ lhs rhs => do
    let l ← eval env σ lhs
    let r ← eval env σ rhs
    orFail (operate env op l r)

def evalAll (env : Environment) (σ : Variables) : List Expression → Evaluation (List Datum)
  | [] => pure []
  | e :: es => do
    let d ← eval env σ e
    let ds ← evalAll env σ es
    return d :: ds

end

/-! ## Statements -/

/-- The values of variables, and what was seen. -/
structure State where
  values : Variables
  log : Log

/-- A part of a run. -/
abbrev Action := EStateM Ending State

/-- Does something that changes no variable. -/
def evaluating {α : Type} (f : Variables → Evaluation α) : Action α := fun s =>
  match f s.values s.log with
  | .ok a log => .ok a { s with log }
  | .error e log => .error e { s with log }

def value (env : Environment) (e : Expression) : Action Datum :=
  evaluating fun σ => eval env σ e

def perform (env : Environment) (name : String) (args : List Datum) : Action Datum :=
  evaluating fun _ => performCall env name args

/-- Gives a variable, which has to exist, another value. -/
def assign (name : String) (d : Datum) : Action Unit := fun s =>
  match s.values name with
  | some _ => .ok ()
      ⟨fun name' => if name' = name then some d else s.values name', s.log.assigned name d⟩
  | none => .error .stuck s

def asks (env : Environment) (c : Expression) : Action Bool := do
  match ← value env c with
  | .int 1 b => return b = 1
  | _ => throw .stuck

/-- Does something again and again, as long as it says so, but not more than so many times. -/
def iterate : (fuel : Nat) → Action Bool → Action Unit
  | 0, _ => throw .unfinished
  | fuel + 1, body => do
    let again ← body
    if again then iterate fuel body else pure ()

mutual

/-- Runs a statement. A declaration does nothing. -/
def exec (env : Environment) (fuel : Nat) : Statement → Action Unit
  | .output _ e => do
    let d ← value env e
    let _ ← perform env "puts" [d]
  | .input _ k => do
    let c ← perform env "getchar" []
    assign k.firstName c
  | .declare _ _ _ => pure ()
  | .assign _ k e => do
    let d ← value env e
    assign k.firstName d
  | .printInt _ e => do
    let d ← value env e
    let _ ← perform env "printf" [.ofString "Int: %d\n", passed d]
  | .printReal _ e => do
    let d ← value env e
    let _ ← perform env "printf" [.ofString "Real: %f\n", d]
  | .ifElse _ c thenBranch elseBranch => do
    let holds ← asks env c
    if holds then execAll env fuel thenBranch
    else
      match elseBranch with
      | some b => execAll env fuel b
      | none => pure ()
  | .while _ c body =>
    iterate fuel do
      let holds ← asks env c
      if holds then execAll env fuel body
      return holds
  | .repeat _ body c =>
    iterate fuel do
      execAll env fuel body
      let holds ← asks env c
      return !holds
  | .call _ pos name args => do
    let _ ← value env (.call pos name args)
  | .empty _ => pure ()

def execAll (env : Environment) (fuel : Nat) : List Statement → Action Unit
  | [] => pure ()
  | s :: rest => do
    exec env fuel s
    execAll env fuel rest

end

/-! ## Programs -/

/-- What a variable of the type holds at the start. Types of the program's own have no
    variables. -/
def initialDatum? : DeclaredType → Option Datum
  | .int => some (.int 32 0)
  | .real => some (.real .zero)
  | .bool => some (.int 1 0)
  | .custom _ => none

mutual

/-- The variables that the statement declares, wherever in it, with what they hold at the
    start. -/
def declared : Statement → List (String × Datum)
  | .declare _ name type =>
    match initialDatum? type with
    | some d => [(name, d)]
    | none => []
  | .ifElse _ _ thenBranch elseBranch =>
    declaredAll thenBranch ++
      match elseBranch with
      | some b => declaredAll b
      | none => []
  | .while _ _ body => declaredAll body
  | .repeat _ body _ => declaredAll body
  | _ => []

def declaredAll : List Statement → List (String × Datum)
  | [] => []
  | s :: rest => declared s ++ declaredAll rest

end

/-- The variables in front of a run: the formats, and all that the program declares. -/
def initialVariables (p : Program) : List (String × Datum) :=
  Lowering.formats.map (fun (name, text) => (name, .ofString text)) ++ declaredAll p

/-- The run of a program in which no loop goes around more than so many times. -/
def source (env : Environment) (p : Program) : Behavior := fun fuel =>
  match execAll env fuel p ⟨fun name => (initialVariables p).lookup name, .empty⟩ with
  | .ok _ s => (.finished 0, s.log.trace)
  | .error e s => (e, s.log.trace)

end Pseudocode.Execution
