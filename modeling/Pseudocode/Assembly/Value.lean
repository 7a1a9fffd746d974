import Pseudocode.Double.Text

/-! # Types and values of the assembly

* `Ty` is the type of a value: an integer of some width, a double, a pointer, or
  an array.
* `Value` is what an instruction works on: a constant, the address of a global,
  or the result of an instruction before it.
-/

namespace Pseudocode.Assembly

/-- The type of a value. -/
inductive Ty where
  | int (bits : Nat)
  | double
  | ptr (pointee : Ty)
  | array (length : Nat) (element : Ty)
deriving DecidableEq, Inhabited

namespace Ty

abbrev i1 : Ty := .int 1

abbrev i8 : Ty := .int 8

abbrev i32 : Ty := .int 32

abbrev bytePtr : Ty := .ptr .i8

def width? : Ty → Option Nat
  | .int bits => some bits
  | _ => none

def isDouble : Ty → Bool
  | .double => true
  | _ => false

def isPointer : Ty → Bool
  | .ptr _ => true
  | _ => false

def isArray : Ty → Bool
  | .array .. => true
  | _ => false

/-- What an address of the type leads to. -/
def pointee? : Ty → Option Ty
  | .ptr t => some t
  | _ => none

def text : Ty → String
  | .int bits => s!"i{bits}"
  | .double => "double"
  | .ptr t => s!"{t.text}*"
  | .array length t => s!"[{length} x {t.text}]"

end Ty

/-- What an instruction works on. -/
inductive Value where
  | int (bits : Nat) (value : Int)
  | double (x : Double)
  /-- The address of a global. The type is that of the address. -/
  | global (name : String) (type : Ty)
  /-- The result of an instruction. -/
  | temp (name : String) (type : Ty)
deriving DecidableEq, Inhabited

namespace Value

def i32 (n : Int32) : Value := .int 32 n.toInt

def bool (b : Bool) : Value := .int 1 (if b then 1 else 0)

def type : Value → Ty
  | .int bits _ => .int bits
  | .double _ => .double
  | .global _ t => t
  | .temp _ t => t

/-- The text of an integer constant of the width. Truth values have names. -/
def intText (bits : Nat) (n : Int) : String :=
  if bits = 1 then (if n ≠ 0 then "true" else "false") else toString n

/-- The value as it is written. A double is written by its bits, which is exact. -/
def text : Value → String
  | .int bits n => intText bits n
  | .double x => x.hexText
  | .global name _ => s!"@{name}"
  | .temp name _ => s!"%{name}"

def typed (v : Value) : String := s!"{v.type.text} {v.text}"

end Value

end Pseudocode.Assembly
