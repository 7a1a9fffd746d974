import Pseudocode.CommandLine.Files

/-! # Trees of files

A tree of files holds what is known of a file system: the files at some places.
There is a folder at a place if a file lies below it; besides, the folder that a
program works in, those above it and the root always exist.

* `FileTree.target` follows a path from the working folder, or from the root.
* `FileTree.read` and `FileTree.write` do with a file what a system does, and
  refuse what a system refuses: a path is followed from left to right, and the
  first step that cannot be taken gives the fault.
* `FileTree.access` reads and writes in a tree that is a state.
-/

namespace Pseudocode.CommandLine

/-- Where a way to a file starts. -/
inductive Base where
  /-- So many folders above the working folder. -/
  | above (count : Nat)
  /-- The root of all folders. -/
  | root
deriving DecidableEq, Inhabited

/-- A place in a file system: the names that lead to it. -/
structure Location where
  base : Base
  names : List String
deriving DecidableEq, Inhabited

namespace Location

def working : Location := ⟨.above 0, []⟩

def root : Location := ⟨.root, []⟩

/-- The file that is empty, whatever is written to it. -/
def nullDevice : Location := ⟨.root, ["dev", "null"]⟩

def child (l : Location) (name : String) : Location := { l with names := l.names ++ [name] }

/-- The folder around the place. The root is its own. -/
def parent (l : Location) : Location :=
  match l.names, l.base with
  | [], .above count => ⟨.above (count + 1), []⟩
  | [], .root => root
  | names, base => ⟨base, names.dropLast⟩

def isBelow (l folder : Location) : Bool :=
  l.base = folder.base && folder.names.isPrefixOf l.names && l.names ≠ folder.names

end Location

/-- The files of a file system with their content. -/
structure FileTree where
  files : List (Location × ByteArray)
deriving Inhabited

namespace FileTree

/-! ## Places -/

def systemFolders : List String :=
  ["bin", "dev", "etc", "home", "lib", "opt", "proc", "root", "run", "sbin", "sys", "tmp", "usr",
   "var"]

def hasFolder (t : FileTree) (l : Location) : Bool :=
  match l with
  | ⟨_, []⟩ => true
  | ⟨.root, [name]⟩ => name ∈ systemFolders || t.files.any (·.1.isBelow l)
  | _ => t.files.any (·.1.isBelow l)

def content? (t : FileTree) (l : Location) : Option ByteArray :=
  if l = .nullDevice then some .empty else t.files.lookup l

/-- Puts a file at the place, instead of one that is there already. -/
def put (t : FileTree) (l : Location) (content : ByteArray) : FileTree :=
  if l = .nullDevice then t else ⟨(l, content) :: t.files.filter (·.1 ≠ l)⟩

/-! ## Paths -/

def steps (path : String) : List String := (path.splitOn "/").filter (· ≠ "")

/-- The step is not a name but stays in the folder or leaves it. -/
def isDots (step : String) : Bool := step = "." || step = ".."

def nameLimit : Nat := 255

def pathLimit : Nat := 4095

def isTooLong (name : String) : Bool := nameLimit < name.utf8ByteSize

/-- Goes from a folder to the one that a step leads to. -/
def enter (t : FileTree) (l : Location) (step : String) : Except FileFault Location :=
  if step = "." then .ok l
  else if step = ".." then .ok l.parent
  else if isTooLong step then .error .nameTooLong
  else if t.hasFolder (l.child step) then .ok (l.child step)
  else if (t.content? (l.child step)).isSome then .error .notDirectory
  else .error .notFound

/-- What a path leads to. -/
inductive Target where
  | folder
  /-- A name in a folder that is not the name of a folder. The path may ask for
      a folder all the same. -/
  | entry (folder : Location) (name : String) (asFolder : Bool)

def target (t : FileTree) (path : String) : Except FileFault Target :=
  if path = "" then .error .notFound
  else if pathLimit < path.utf8ByteSize then .error .nameTooLong
  else
    let start := if path.startsWith "/" then Location.root else Location.working
    match (steps path).getLast? with
    | none => .ok .folder
    | some last => do
      let folder ← (steps path).dropLast.foldlM t.enter start
      if isDots last || t.hasFolder (folder.child last) then return .folder
      else return .entry folder last (path.endsWith "/")

/-! ## Files -/

def ofFiles (files : List (String × ByteArray)) : FileTree :=
  ⟨files.map fun (path, content) => (⟨.above 0, steps path⟩, content)⟩

def read (t : FileTree) (path : String) : Except FileFault ByteArray := do
  match ← t.target path with
  | .folder => .error .isDirectory
  | .entry folder name asFolder =>
    if isTooLong name then .error .nameTooLong
    else
      match t.content? (folder.child name) with
      | some content => if asFolder then .error .notDirectory else .ok content
      | none => .error .notFound

def write (t : FileTree) (path text : String) : Except FileFault FileTree := do
  match ← t.target path with
  | .folder => .error .isDirectory
  | .entry folder name asFolder =>
    if asFolder then .error .isDirectory
    else if isTooLong name then .error .nameTooLong
    else .ok (t.put (folder.child name) text.toUTF8)

def access : FileAccess (StateM FileTree) where
  read path := do return (← get).read path
  write path text := do
    match (← get).write path text with
    | .ok t => set t; return .ok ()
    | .error fault => return .error fault

end FileTree

end Pseudocode.CommandLine
