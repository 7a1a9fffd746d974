import Pseudocode.Assembly.Instr
import Pseudocode.Text.Position

/-! # Scopes

Scopes form a tree. They are kept in a list, each with the number of its parent,
and only the newest can be closed, so that its number is free for the next scope
that is opened. The root has the number zero, has no parent, and is never closed.

* `Scopes.bindVariable` binds a name to storage in one scope.
* `Scopes.lookup` finds a name in one scope, `Scopes.resolve` in a scope or
  the nearest scope around it.
* Functions are known everywhere, but declared at the root only.
-/

namespace Pseudocode

open Assembly (Value Ty Signature)

/-- The number of a scope. -/
structure ScopeId where
  index : Nat
deriving DecidableEq, Inhabited

/-- What a variable's name stands for: the address of its storage, and the place of
    its declaration unless the language itself provides it. -/
structure Binding where
  storage : Value
  declaredAt : Option Position
deriving DecidableEq, Inhabited

/-- The type of what the storage holds, if the storage is an address. -/
def Binding.valueType? (b : Binding) : Option Ty := b.storage.type.pointee?

/-- Why a declaration is refused. -/
inductive ScopeFault where
  /-- The scope has the name already, declared at the place. -/
  | redefinition (name : String) (previous : Option Position)
  /-- A function was to be declared in another scope than the root. -/
  | notRoot (name : String)
  /-- There is no scope of that number. -/
  | unknownScope
deriving DecidableEq, Inhabited

/-- One scope: the number of the scope around it, and its variables, the oldest first. -/
structure Scope where
  parent : Option ScopeId
  bindings : List (String × Binding)
deriving DecidableEq, Inhabited

namespace Scope

def find? (s : Scope) (name : String) : Option Binding := s.bindings.lookup name

def bind (s : Scope) (name : String) (b : Binding) : Scope :=
  { s with bindings := s.bindings ++ [(name, b)] }

end Scope

/-- All scopes that are open, by their number, and the functions. -/
structure Scopes where
  opened : List Scope
  functions : List (String × Signature)
deriving DecidableEq, Inhabited

namespace Scopes

def root : ScopeId := ⟨0⟩

def start : Scopes := ⟨[⟨none, []⟩], []⟩

def isRoot (id : ScopeId) : Bool := id.index = 0

def depth (t : Scopes) : Nat := t.opened.length

def scope? (t : Scopes) (id : ScopeId) : Option Scope := t.opened[id.index]?

def parent? (t : Scopes) (id : ScopeId) : Option ScopeId := (t.scope? id).bind (·.parent)

def nextScope (t : Scopes) : ScopeId := ⟨t.opened.length⟩

def openScope (t : Scopes) (parent : ScopeId) : Scopes :=
  { t with opened := t.opened ++ [⟨some parent, []⟩] }

/-- Closes a scope. Nothing happens unless it is the newest, and not the root. -/
def close (t : Scopes) (id : ScopeId) : Scopes :=
  if id.index ≠ 0 ∧ id.index + 1 = t.opened.length then { t with opened := t.opened.dropLast }
  else t

def lookup (t : Scopes) (id : ScopeId) (name : String) : Option Binding :=
  (t.scope? id).bind (·.find? name)

def bindVariable (t : Scopes) (id : ScopeId) (name : String) (b : Binding) :
    Except ScopeFault Scopes :=
  match t.scope? id with
  | none => .error .unknownScope
  | some s =>
    match s.find? name with
    | some old => .error (.redefinition name old.declaredAt)
    | none => .ok { t with opened := t.opened.set id.index (s.bind name b) }

def function? (t : Scopes) (name : String) : Option Signature := t.functions.lookup name

/-- Makes a function known under a name, for which the scope has to be the root. -/
def bindFunction (t : Scopes) (id : ScopeId) (name : String) (f : Signature) :
    Except ScopeFault Scopes :=
  if !isRoot id then .error (.notRoot name)
  else if (t.function? name).isSome then .error (.redefinition name none)
  else .ok { t with functions := t.functions ++ [(name, f)] }

/-- Follows the parents from a scope for so many scopes, up to one that binds the name. -/
def resolveWithin (t : Scopes) (name : String) : (count : Nat) → ScopeId → Option Binding
  | 0, _ => none
  | count + 1, id =>
    match t.scope? id with
    | none => none
    | some s =>
      match s.find? name, s.parent with
      | some b, _ => some b
      | none, some parent => resolveWithin t name count parent
      | none, none => none

/-- What the scope, or else the nearest scope around it, binds the name to. Unless
    the parents go in a circle, there are no more of them than scopes are open. -/
def resolve (t : Scopes) (id : ScopeId) (name : String) : Option Binding :=
  resolveWithin t name t.depth id

end Scopes

end Pseudocode
