import Pseudocode.Lowering.Statement
import Pseudocode.Proofs.Assembly.Rules
import Pseudocode.Proofs.Typing.Rules

/-! # What a program keeps in globals, and where it gets at them

Said by recursion over programs, and without reference to how they are lowered.

* `itemsAll`: the variables that are declared and the literals that occur, in order.
* `visitsAll`: every place at which a variable or a literal is loaded, stored or taken by
  its address, in order, with the number of the block that does so.
* `uses`: how an instruction gets at globals, by their names.
* `Table`, `Place.symbol?`: items with their globals, and the name that a place has by them.
-/

namespace Pseudocode.Globals

open Assembly Lowering

/-! ## Items -/

/-- What a variable can hold. -/
inductive Cell where
  | int | real | bool
deriving DecidableEq

def Cell.zero : Cell → Initializer
  | .int => .int 32 0
  | .real => .double .zero
  | .bool => .int 1 0

def cell? : DeclaredType → Option Cell
  | .int => some .int
  | .real => some .real
  | .bool => some .bool
  | .custom _ => none

/-- What gets a global of its own. -/
inductive Item where
  | declared (name : String) (cell : Cell)
  | literal (text : String)
deriving DecidableEq

namespace Item

def isLiteral : Item → Bool
  | .declared .. => false
  | .literal _ => true

@[simp] theorem isLiteral_declared (name : String) (cell : Cell) :
    (declared name cell).isLiteral = false := rfl

@[simp] theorem isLiteral_literal (text : String) : (literal text).isLiteral = true := rfl

/-- The name that the program has for it. -/
def name? : Item → Option String
  | .declared name _ => some name
  | .literal _ => none

@[simp] theorem name?_declared (name : String) (cell : Cell) :
    (declared name cell).name? = some name := rfl

@[simp] theorem name?_literal (text : String) : (literal text).name? = none := rfl

/-- What the global of the item holds at the start. Behind a text comes a zero byte. -/
def init : Item → Initializer
  | .declared _ cell => cell.zero
  | .literal text => .bytes (text.toUTF8.data.toList ++ [0])

/-- The global is one for the item, whatever its name is. -/
structure Kept (item : Item) (g : Global) : Prop where
  init : g.init = item.init
  constant : g.constant = item.isLiteral

end Item

mutual

/-- The texts that occur in the expression. -/
def literals : Expression → List String
  | .constant (.string s) => [s]
  | .constant _ => []
  | .key _ => []
  | .call _ _ args => literalsAll args
  | .parenthesized e => literals e
  | .not _ e => literals e
  | .negate _ e => literals e
  | .binary _ _ lhs rhs => literals lhs ++ literals rhs

def literalsAll : List Expression → List String
  | [] => []
  | e :: es => literals e ++ literalsAll es

end

mutual

/-- What gets a global in the statement. -/
def items : Statement → List Item
  | .output _ e => (literals e).map .literal
  | .input _ _ => []
  | .declare _ name type => (cell? type).toList.map (.declared name)
  | .assign _ _ e => (literals e).map .literal
  | .printInt _ e => (literals e).map .literal
  | .printReal _ e => (literals e).map .literal
  | .ifElse _ e thenBranch elseBranch =>
    (literals e).map .literal ++ (itemsAll thenBranch ++ itemsElse elseBranch)
  | .while _ e body => (literals e).map .literal ++ itemsAll body
  | .repeat _ body e => itemsAll body ++ (literals e).map .literal
  | .call _ _ _ args => (literalsAll args).map .literal
  | .empty _ => []

def itemsElse : Option (List Statement) → List Item
  | none => []
  | some b => itemsAll b

def itemsAll : List Statement → List Item
  | [] => []
  | s :: rest => items s ++ itemsAll rest

end

/-- The formats, which every module has in front of the items of the program. -/
def formatGlobals : List Global := formats.map fun format => ⟨format.1, .ofText format.2, true⟩

/-! ## Accesses -/

/-- What is done with a global. -/
inductive Way where
  | load | store | address
deriving DecidableEq

/-- What a program means by a global: a format of the runtime, a variable, or the literal that so
    many others come in front of. -/
inductive Place where
  | format (name : String)
  | declared (name : String)
  | literal (number : Nat)
deriving DecidableEq

structure Access where
  way : Way
  place : Place
deriving DecidableEq

def isFormat (name : String) : Bool := formats.any (·.1 = name)

/-- The text that an expression is, if it is one. So many literals come in front of it. -/
def text? (before : Nat) : Expression → Option Place
  | .constant (.string _) => some (.literal before)
  | .key k => if isFormat k.firstName then some (.format k.firstName) else none
  | .parenthesized e => text? before e
  | _ => none

/-- A text is used by its address. -/
def addressOf (place : Option Place) : List Access := place.toList.map (⟨.address, ·⟩)

def textsAll (before : Nat) : List Expression → List (Option Place)
  | [] => []
  | e :: es => text? before e :: textsAll (before + (literals e).length) es

mutual

/-- The accesses of an expression. Behind the arguments of a call, those that are texts are
    passed. -/
def accesses (before : Nat) : Expression → List Access
  | .constant _ => []
  | .key k => if isFormat k.firstName then [] else [⟨.load, .declared k.firstName⟩]
  | .call _ _ args => accessesAll before args ++ (textsAll before args).flatMap addressOf
  | .parenthesized e => accesses before e
  | .not _ e => accesses before e
  | .negate _ e => accesses before e
  | .binary _ _ lhs rhs => accesses before lhs ++ accesses (before + (literals lhs).length) rhs

def accessesAll (before : Nat) : List Expression → List Access
  | [] => []
  | e :: es => accesses before e ++ accessesAll (before + (literals e).length) es

end

/-- Where the blocks of a program are counted: the current block, the next one that is added, and
    how many literals there were. -/
structure Cursor where
  block : Nat
  next : Nat
  literals : Nat
deriving DecidableEq

namespace Cursor

def start : Cursor := ⟨0, 1, 0⟩

/-- Behind so many literals. -/
def past (c : Cursor) (literals : List String) : Cursor :=
  { c with literals := c.literals + literals.length }

/-- In the first of so many new blocks. -/
def enter (c : Cursor) (count : Nat) : Cursor := ⟨c.next, c.next + count, c.literals⟩

/-- In the block that is so many behind the next one of `c`, when building has led to `c'`. -/
def behind (c : Cursor) (i : Nat) (c' : Cursor) : Cursor := ⟨c.next + i, c'.next, c'.literals⟩

end Cursor

mutual

/-- Where a statement leads to. -/
def advance (c : Cursor) : Statement → Cursor
  | .output _ e => c.past (literals e)
  | .input _ _ => c
  | .declare _ _ _ => c
  | .assign _ _ e => c.past (literals e)
  | .printInt _ e => c.past (literals e)
  | .printReal _ e => c.past (literals e)
  | .ifElse _ e thenBranch elseBranch =>
    let c₀ := c.past (literals e)
    c₀.behind 2 (advanceElse (c₀.behind 1 (advanceAll (c₀.enter 3) thenBranch)) elseBranch)
  | .while _ e body =>
    c.behind 2 (advanceAll (c.behind 1 ((c.enter 3).past (literals e))) body)
  | .repeat _ body e => c.behind 1 ((advanceAll (c.enter 2) body).past (literals e))
  | .call _ _ _ args => c.past (literalsAll args)
  | .empty _ => c

def advanceElse (c : Cursor) : Option (List Statement) → Cursor
  | none => c
  | some b => advanceAll c b

def advanceAll (c : Cursor) : List Statement → Cursor
  | [] => c
  | s :: rest => advanceAll (advance c s) rest

end

/-- Accesses in the block of the cursor. -/
def Cursor.here (c : Cursor) (as : List Access) : List (Nat × Access) := as.map (c.block, ·)

/-- The accesses of an expression in the block of the cursor. -/
def Cursor.reads (c : Cursor) (e : Expression) : List (Nat × Access) :=
  c.here (accesses c.literals e)

mutual

/-- The accesses of a statement, in order, each with the number of its block. -/
def visits (c : Cursor) : Statement → List (Nat × Access)
  | .output _ e => c.reads e ++ c.here (addressOf (text? c.literals e))
  | .input _ k => c.here [⟨.store, .declared k.firstName⟩]
  | .declare _ _ _ => []
  | .assign _ k e => c.reads e ++ c.here [⟨.store, .declared k.firstName⟩]
  | .printInt _ e => c.reads e ++ c.here [⟨.address, .format intFormatName⟩]
  | .printReal _ e => c.reads e ++ c.here [⟨.address, .format realFormatName⟩]
  | .ifElse _ e thenBranch elseBranch =>
    let c₀ := c.past (literals e)
    c.reads e ++ (visitsAll (c₀.enter 3) thenBranch ++
      visitsElse (c₀.behind 1 (advanceAll (c₀.enter 3) thenBranch)) elseBranch)
  | .while _ e body =>
    (c.enter 3).reads e ++ visitsAll (c.behind 1 ((c.enter 3).past (literals e))) body
  | .repeat _ body e =>
    visitsAll (c.enter 2) body ++ (advanceAll (c.enter 2) body).reads e
  | .call _ pos name args => c.reads (.call pos name args)
  | .empty _ => []

def visitsElse (c : Cursor) : Option (List Statement) → List (Nat × Access)
  | none => []
  | some b => visitsAll c b

def visitsAll (c : Cursor) : List Statement → List (Nat × Access)
  | [] => []
  | s :: rest => visits c s ++ visitsAll (advance c s) rest

end

/-- The accesses that the block of the number makes. -/
def accessesAt (i : Nat) (as : List (Nat × Access)) : List Access :=
  as.filterMap fun a => if a.1 = i then some a.2 else none

/-! ## Uses -/

def globalName? : Value → Option String
  | .global name _ => some name
  | _ => none

/-- The globals among the operands, all got at in one way. -/
def named (way : Way) (vs : List Value) : List (Way × String) :=
  vs.filterMap fun v => (globalName? v).map (way, ·)

/-- How the instruction gets at globals. One that neither is loaded nor stored to is taken by its
    address. -/
def uses : Instr → List (Way × String)
  | .load _ src => named .load [src]
  | .store value dst => named .address [value] ++ named .store [dst]
  | i => named .address i.operands

/-! ## Tables -/

/-- Items, each next to its global. -/
abbrev Table := List (Item × Global)

/-- The name of the global that is meant. -/
def Place.symbol? (T : Table) : Place → Option String
  | .format name => some name
  | .declared name => (T.find? (·.1.name? = some name)).map (·.2.name)
  | .literal number => (T.filter (·.1.isLiteral))[number]?.map (·.2.name)

/-- The use is the access. -/
structure Gets (T : Table) (use : Way × String) (access : Access) : Prop where
  way : use.1 = access.way
  symbol : access.place.symbol? T = some use.2

end Pseudocode.Globals
