import Pseudocode.CommandLine.Files
import Pseudocode.CommandLine.Options
import Pseudocode.Compile
import Pseudocode.Program.Outline

/-! # The command line

* `Outcome` is what a run leaves: an exit code, what it wrote to the two streams.
* `run` compiles a file, or a sample if no file is named. It shows the tokens or the
  tree if that is asked for, and else gives the assembly, on the output stream or
  in a file.

The log goes to the error stream, and so does an error, with the error underneath
it if there is one.
-/

namespace Pseudocode.CommandLine

/-- What a run leaves. -/
structure Outcome where
  exitCode : UInt32
  stdout : String
  stderr : String
deriving DecidableEq, Inhabited

def sample : String :=
  "DECLARE x : INT
DECLARE total : INT
x <- 1
total <- 0
WHILE x <= 10 DO
    total <- total + x
    x <- x + 1
ENDWHILE
IF total = 55 THEN
    OUTPUT \"sum is 55\"
ELSE
    OUTPUT \"unexpected sum\"
ENDIF
PrintfD total"

/-! ## Texts -/

def padLeft (width : Nat) (s : String) : String := "".pushn ' ' (width - s.length) ++ s

def padRight (width : Nat) (s : String) : String := s.pushn ' ' (width - s.length)

def tokenLine (t : Located) : String :=
  s!"{padLeft 4 (toString t.pos.line)}:{padRight 3 (toString t.pos.column)} {t.token.text}\n"

def minLevel? (verbosity : Nat) : Option Level :=
  if verbosity = 0 then none else if verbosity = 1 then some .debug else some .trace

def log (verbosity : Nat) (events : List Event) : String :=
  match minLevel? verbosity with
  | none => ""
  | some least =>
    String.join ((events.filter fun e => least.rank ≤ e.level.rank).map Event.line)

/-- A text with four blanks in front of each of its lines. -/
def indented (text : String) : String :=
  "\n".intercalate ((text.splitOn "\n").map ("    " ++ ·))

/-- The report of an error, with the error underneath it. -/
def report (message : String) (cause? : Option String) : String :=
  let cause := match cause? with
    | some cause => s!"\n\nCaused by:\n{indented cause}"
    | none => ""
  s!"Error: {message}{cause}\n"

/-! ## Runs -/

/-- What a run with arguments that make no sense leaves. It says nothing on either stream. -/
def usageError : Outcome := ⟨2, "", ""⟩

def failed (log message : String) (cause? : Option String) : Outcome :=
  ⟨1, "", log ++ report message cause?⟩

def rejected (log : String) (e : Diagnostic) : Outcome := failed log e.message e.cause?

/-- The tokens and the event of reading them, or the error. -/
def tokensOf (text : String) : List Event × Except Diagnostic (List Located) :=
  match tokenize text with
  | .ok tokens => ([.lexed tokens.length], .ok tokens)
  | .error e => ([], .error (.lexical e))

def showTokens (verbosity : Nat) (text : String) : Outcome :=
  match tokensOf text with
  | (events, .ok tokens) => ⟨0, String.join (tokens.map tokenLine), log verbosity events⟩
  | (events, .error e) => rejected (log verbosity events) e

def showTree (verbosity : Nat) (text : String) : Outcome :=
  let log := log verbosity (tokensOf text).1
  match parse text with
  | .ok p => ⟨0, p.outline.text ++ "\n", log⟩
  | .error e => rejected log e

def showAssembly (verbosity : Nat) (text : String) : Outcome :=
  let c := compile text
  let log := log verbosity c.events
  match c.result with
  | .ok m => ⟨0, m.text, log⟩
  | .error e => rejected log e

variable {m : Type → Type} [Monad m]

def writeAssembly (files : FileAccess m) (verbosity : Nat) (path text : String) : m Outcome := do
  let shown := showAssembly verbosity text
  if shown.exitCode = 0 then
    match ← files.write path shown.stdout with
    | .ok () => return { shown with stdout := "" }
    | .error fault => return failed shown.stderr s!"Error writing IR to '{path}'" fault.message
  else return shown

def process (files : FileAccess m) (o : Options) (text : String) : m Outcome :=
  if o.tokens then return showTokens o.verbosity text
  else if o.ast then return showTree o.verbosity text
  else
    match o.output with
    | some path => writeAssembly files o.verbosity path text
    | none => return showAssembly o.verbosity text

def run (files : FileAccess m) (args : List String) : m Outcome :=
  match Options.parse? args with
  | none => return usageError
  | some o =>
    match o.file with
    | none => process files o sample
    | some path => do
      match ← files.readText path with
      | .ok text => process files o text
      | .error fault => return failed "" s!"Error reading file '{path}'" fault.message

end Pseudocode.CommandLine
