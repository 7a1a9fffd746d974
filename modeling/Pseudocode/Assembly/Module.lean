import Pseudocode.Assembly.Function

/-! # Modules

A module is a list of globals and a list of functions.

* `Module.freshSymbol` makes a name that no global and no function has.
* `Module.addGlobal` and `Module.addFunction` add to a module.
* `Module.verify` checks that every block of every function has its terminator.
* `Module.text` writes the module: globals, declarations, definitions.
-/

namespace Pseudocode.Assembly

/-- What a global holds at the start. -/
inductive Initializer where
  | int (bits : Nat) (value : Int)
  | double (x : Double)
  | bytes (bs : List UInt8)
deriving DecidableEq, Inhabited

namespace Initializer

/-- The bytes of a text and a zero byte behind them. -/
def ofText (text : String) : Initializer := .bytes (text.toUTF8.data.toList ++ [0])

def type : Initializer → Ty
  | .int bits _ => .int bits
  | .double _ => .double
  | .bytes bs => .array bs.length .i8

/-- A digit of the base sixteen, as a capital letter above nine. -/
def hexDigit (n : Nat) : Char := (Nat.digitChar n).toUpper

/-- A byte inside a quoted constant: visible characters and the blank stand for
    themselves, but for the quote and the backslash; any other byte is a backslash and two
    hexadecimal digits. -/
def escapeByte (b : UInt8) : List Char :=
  let n := b.toNat
  if 0x20 ≤ n && n ≤ 0x7E && n ≠ 0x22 && n ≠ 0x5C then [Char.ofNat n]
  else ['\\', hexDigit (n / 16), hexDigit (n % 16)]

def bytesText (bs : List UInt8) : String :=
  String.ofList ('c' :: '"' :: bs.flatMap escapeByte ++ ['"'])

/-- The initial value as it is written, without its type. -/
def text : Initializer → String
  | .int bits n => Value.intText bits n
  | .double x => x.hexText
  | .bytes bs => bytesText bs

end Initializer

/-- Storage that lives as long as the program runs. A constant is never written to. -/
structure Global where
  name : String
  init : Initializer
  constant : Bool
deriving DecidableEq, Inhabited

namespace Global

def type (g : Global) : Ty := g.init.type

def address (g : Global) : Value := .global g.name (.ptr g.type)

def text (g : Global) : String :=
  let kind := if g.constant then "private unnamed_addr constant" else "global"
  s!"@{g.name} = {kind} {g.type.text} {g.init.text}"

end Global

/-- The number of a function in its module. -/
structure FunctionId where
  index : Nat
deriving DecidableEq, Inhabited

/-- Globals and functions, in the order they were added, and the names that were given to them. The
    names are a set: in which order they are told, and how often, is of no account. -/
structure Module where
  globals : List Global
  functions : List Function
  symbols : List String
deriving DecidableEq, Inhabited

namespace Module

def empty : Module := ⟨[], [], []⟩

def numbered (base : String) (n : Nat) : String := s!"{base}.{n}"

/-- The name `base` if it is not among the names, else `base.n` for the least `n`
    from one on that makes it new. There are more numbers to try than there are names. Numbers have
    no bound here; those of 32 bits with a sign give out behind 2147483647 names from one base. -/
def freshName (names : List String) (base : String) : String :=
  if base ∈ names then
    match (List.range' 1 (names.length + 1)).find? fun n => numbered base n ∉ names with
    | some n => numbered base n
    | none => base
  else base

/-- A name made from `base` that was not given yet. -/
def freshSymbol (m : Module) (base : String) : String := freshName m.symbols base

def newGlobal (m : Module) (base : String) (init : Initializer) (constant : Bool) : Global :=
  ⟨m.freshSymbol base, init, constant⟩

def addGlobal (m : Module) (base : String) (init : Initializer) (constant : Bool) : Module :=
  let g := m.newGlobal base init constant
  { m with globals := m.globals ++ [g], symbols := g.name :: m.symbols }

/-- A function keeps the name that it comes with, also if that was given before. -/
def addFunction (m : Module) (f : Function) : Module :=
  { m with functions := m.functions ++ [f], symbols := m.symbols ++ [f.name] }

def nextFunction (m : Module) : FunctionId := ⟨m.functions.length⟩

def function (m : Module) (id : FunctionId) : Except Fault Function :=
  match m.functions[id.index]? with
  | some f => .ok f
  | none => .error (.unknownFunction id.index)

/-- Puts a function in place of the one of the number. -/
def setFunction (m : Module) (id : FunctionId) (f : Function) : Module :=
  { m with functions := m.functions.set id.index f }

def functionNamed? (m : Module) (name : String) : Option Function :=
  m.functions.find? (·.name = name)

def globalNamed? (m : Module) (name : String) : Option Global :=
  m.globals.find? (·.name = name)

/-- The fault of a function with a block that has no terminator. -/
def openFault? (f : Function) : Option Fault :=
  f.firstOpen?.map fun b => .unterminated f.name b.label

def verify (m : Module) : Except Fault Unit :=
  match m.functions.findSome? openFault? with
  | some fault => .error fault
  | none => .ok ()

/-- The module as it is written: a line for each global, then, behind a blank line
    each, the functions that are only declared and those that are defined. -/
def text (m : Module) : String :=
  let declarations := m.functions.filter (·.isDeclaration)
  let definitions := m.functions.filter (!·.isDeclaration)
  String.join (m.globals.map fun g => s!"{g.text}\n") ++
    String.join (declarations.map fun f => s!"\n{f.text}\n") ++
    String.join (definitions.map fun f => s!"\n{f.text}\n")

end Module

end Pseudocode.Assembly
