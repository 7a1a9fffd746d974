import Pseudocode.Lowering.Statement
import Pseudocode.Program.Parser.Statement

/-! # From text to assembly

* `parse` reads a text as a program.
* `compile` turns a text into a module and tells what happened on the way.
* `compileToText` gives the module as it is written.
-/

namespace Pseudocode

def parseTokens (text : String) (tokens : List Located) : Except Diagnostic Program :=
  (Program.ofTokens (.ofText text) tokens).mapError .parse

def parse (text : String) : Except Diagnostic Program :=
  match tokenize text with
  | .ok tokens => parseTokens text tokens
  | .error e => .error (.lexical e)

def compile (text : String) : Compilation :=
  match tokenize text with
  | .error e => ⟨[], .error (.lexical e)⟩
  | .ok tokens =>
    let lexed := Event.lexed tokens.length
    match parseTokens text tokens with
    | .error e => ⟨[lexed], .error e⟩
    | .ok p =>
      let c := lower p
      ⟨lexed :: c.events, c.result⟩

def compileToText (text : String) : Except Diagnostic String :=
  (compile text).result.map Assembly.Module.text

end Pseudocode
