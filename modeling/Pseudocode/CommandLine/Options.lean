/-! # The options of the command line

    [FILE] [-o FILE | --output FILE] [--tokens] [--ast] [-v | --verbose]…

* `Options.parse?` reads the arguments. It has none for arguments that make no
  sense: an unknown option, a value that is missing, empty or not asked for, or
  anything but `-v` given twice.

Behind `--` every argument is a file. The value of an option is the rest of its
argument, or else the next argument, which then is no option; a single `-` is a
file.
-/

namespace Pseudocode.CommandLine

/-- What was asked for. -/
structure Options where
  /-- The file to compile; a sample if there is none. -/
  file : Option String
  /-- The file to write the assembly to. -/
  output : Option String
  /-- Show the tokens and stop. -/
  tokens : Bool
  /-- Show the tree of the program and stop. -/
  ast : Bool
  /-- How often a more detailed log was asked for. -/
  verbosity : Nat
deriving DecidableEq, Inhabited

namespace Options

def nothing : Options := ⟨none, none, false, false, 0⟩

def setFile? (o : Options) (path : String) : Option Options :=
  if path = "" ∨ o.file.isSome then none else some { o with file := path }

def setOutput? (o : Options) (path : String) : Option Options :=
  if path = "" ∨ o.output.isSome then none else some { o with output := path }

def setTokens? (o : Options) : Option Options :=
  if o.tokens then none else some { o with tokens := true }

def setAst? (o : Options) : Option Options :=
  if o.ast then none else some { o with ast := true }

def addVerbosity (o : Options) : Options := { o with verbosity := o.verbosity + 1 }

/-- What an argument leaves to be read. -/
inductive Pending where
  | nothing
  /-- The next argument is the file to write to. -/
  | output
deriving DecidableEq

def letters? (o : Options) : List Char → Option (Options × Pending)
  | [] => some (o, .nothing)
  | 'v' :: rest => letters? o.addVerbosity rest
  | ['o'] => some (o, .output)
  | 'o' :: '=' :: value => (o.setOutput? (String.ofList value)).map (·, .nothing)
  | 'o' :: value => (o.setOutput? (String.ofList value)).map (·, .nothing)
  | _ => none

/-- Reads what stands behind two dashes: a name, and a value behind a sign of
    equality. -/
def long? (o : Options) (cs : List Char) : Option (Options × Pending) :=
  let name := String.ofList (cs.takeWhile (· ≠ '='))
  match cs.dropWhile (· ≠ '=') with
  | [] =>
    if name = "output" then some (o, .output)
    else if name = "tokens" then o.setTokens?.map (·, .nothing)
    else if name = "ast" then o.setAst?.map (·, .nothing)
    else if name = "verbose" then some (o.addVerbosity, .nothing)
    else none
  | _ :: value =>
    if name = "output" then (o.setOutput? (String.ofList value)).map (·, .nothing) else none

def files? (o : Options) (args : List String) : Option Options := args.foldlM setFile? o

def read? (o : Options) (pending : Pending) : List String → Option Options
  | [] => if pending = .nothing then some o else none
  | arg :: rest =>
    match arg.toList, pending with
    | ['-', '-'], .nothing => files? o rest
    | '-' :: '-' :: cs, .nothing =>
      match long? o cs with
      | some (o, pending) => read? o pending rest
      | none => none
    | '-' :: c :: cs, .nothing =>
      match letters? o (c :: cs) with
      | some (o, pending) => read? o pending rest
      | none => none
    | '-' :: _ :: _, .output => none
    | _, .output =>
      match o.setOutput? arg with
      | some o => read? o .nothing rest
      | none => none
    | _, .nothing =>
      match o.setFile? arg with
      | some o => read? o .nothing rest
      | none => none

def parse? (args : List String) : Option Options := read? nothing .nothing args

end Options

end Pseudocode.CommandLine
