import Pseudocode.Assembly.Instr

/-! # Functions

A function is a list of blocks; one without blocks is only declared. A block
takes instructions until it is given its terminator, after which it never
changes.

* `Function.addBlock`, `Function.push` and `Function.terminate` build a function.
* `Fault` is why one of them refuses.
-/

namespace Pseudocode.Assembly

/-- A breach of the rules for building a module. -/
inductive Fault where
  | alreadyTerminated (function label : String)
  | unterminated (function label : String)
  | unknownBlock (function : String) (index : Nat)
  | unknownFunction (index : Nat)
  | notAPointer (name : String)
deriving DecidableEq, Inhabited

def Fault.message : Fault → String
  | .alreadyTerminated function label =>
    s!"block '{label}' in '{function}' is already terminated"
  | .unterminated function label => s!"block '{label}' in '{function}' has no terminator"
  | .unknownBlock function index => s!"block #{index} does not exist in '{function}'"
  | .unknownFunction index => s!"function #{index} does not exist"
  | .notAPointer name => s!"storage bound to '{name}' is not a pointer"

/-- Instructions, and the terminator once there is one. -/
structure Block where
  instrs : List Instr
  terminator : Option Terminator
deriving DecidableEq, Inhabited

def Block.empty : Block := ⟨[], none⟩

def BlockId.label (b : BlockId) : String :=
  if b.index = 0 then "entry" else s!"bb{b.index}"

/-- A function with its blocks. -/
structure Function where
  signature : Signature
  blocks : List Block
deriving DecidableEq, Inhabited

namespace Function

def declared (signature : Signature) : Function := ⟨signature, []⟩

def name (f : Function) : String := f.signature.name

def isDeclaration (f : Function) : Bool := f.blocks.isEmpty

def nextBlock (f : Function) : BlockId := ⟨f.blocks.length⟩

def addBlock (f : Function) : Function := { f with blocks := f.blocks ++ [.empty] }

/-- The block of the number, if it exists and still takes instructions. -/
def openBlock (f : Function) (b : BlockId) : Except Fault Block :=
  match f.blocks[b.index]? with
  | none => .error (.unknownBlock f.name b.index)
  | some block =>
    if block.terminator.isSome then .error (.alreadyTerminated f.name b.label) else .ok block

/-- The function with another block in place of the one of the number. -/
def setBlock (f : Function) (b : BlockId) (block : Block) : Function :=
  { f with blocks := f.blocks.set b.index block }

def push (f : Function) (b : BlockId) (i : Instr) : Except Fault Function :=
  (f.openBlock b).map fun block => f.setBlock b { block with instrs := block.instrs ++ [i] }

def terminate (f : Function) (b : BlockId) (t : Terminator) : Except Fault Function :=
  (f.openBlock b).map fun block => f.setBlock b { block with terminator := some t }

def successors (f : Function) (b : BlockId) : List BlockId :=
  match f.blocks[b.index]? with
  | some ⟨_, some t⟩ => t.successors
  | _ => []

def firstOpen? (f : Function) : Option BlockId :=
  (f.blocks.findIdx? (·.terminator.isNone)).map (⟨·⟩)

/-! ## Text -/

def targetText (f : Function) (b : BlockId) : String :=
  if b.index < f.blocks.length then b.label else "<invalid>"

def terminatorText (f : Function) : Terminator → String
  | .br target => s!"br label %{f.targetText target}"
  | .condBr cond thenBlock elseBlock =>
    s!"br {cond.typed}, label %{f.targetText thenBlock}, label %{f.targetText elseBlock}"
  | .ret value => s!"ret {value.typed}"

def blockText (f : Function) (b : BlockId) (block : Block) : String :=
  s!"{b.label}:\n" ++ String.join (block.instrs.map fun i => s!"  {i.text}\n") ++
    match block.terminator with
    | some t => s!"  {f.terminatorText t}\n"
    | none => ""

/-- The blocks from the number on, with a blank line between two of them. -/
def blocksText (f : Function) (first : Nat) (blocks : List Block) : String :=
  "\n".intercalate (blocks.mapIdx fun i block => f.blockText ⟨first + i⟩ block)

def headText (f : Function) : String :=
  s!"{f.signature.result.text} @{f.name}({f.signature.paramText})"

/-- The function as it is written, without a line feed at the end. -/
def text (f : Function) : String :=
  if f.isDeclaration then s!"declare {f.headText}"
  else s!"define {f.headText} \x7b\n{f.blocksText 0 f.blocks}\x7d"

end Function

end Pseudocode.Assembly
