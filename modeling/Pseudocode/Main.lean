import Pseudocode.CommandLine

/-! # The program

Runs the command line on the files of the system.
-/

namespace Pseudocode.CommandLine

def FileFault.ofError : IO.Error → FileFault
  | .noFileOrDirectory .. => .notFound
  | .inappropriateType _ 20 _ => .notDirectory
  | .inappropriateType .. => .isDirectory
  | .invalidArgument _ 36 _ => .nameTooLong
  | .permissionDenied _ 13 _ => .permissionDenied
  | e => .other (toString e)

def systemFiles : FileAccess IO where
  read path := do
    try return .ok (← IO.FS.readBinFile path)
    catch e => return .error (.ofError e)
  write path text := do
    try
      IO.FS.writeFile path text
      return .ok ()
    catch e => return .error (.ofError e)

end Pseudocode.CommandLine

open Pseudocode.CommandLine in
def main (args : List String) : IO UInt32 := do
  let outcome ← run systemFiles args
  IO.print outcome.stdout
  IO.eprint outcome.stderr
  return outcome.exitCode
