import Pseudocode.Text.Lines
import Pseudocode.Token.Piece

/-! # From text to tokens

* `Scan.ofChars` cuts a text into pieces and keeps the tokens, each with the
  place it starts at, up to the first piece that is rejected. It counts bytes
  and asks for the place of an offset.
* `scan` does so for a whole text, whose lines tell the places, and describes
  the rejected piece.
* `tokenize` gives the tokens of a text in which nothing is rejected.
-/

namespace Pseudocode

/-- The description of a piece that is no token: where it starts, the piece, and
    the line around it. -/
structure LexicalError where
  pos : Position
  lexeme : String
  context : String
deriving DecidableEq

def LexicalError.message (e : LexicalError) : String :=
  s!"Unrecognized input '{e.lexeme}' at line {e.pos.line}, column {e.pos.column}\n  Context: {e.context}"

/-- The tokens before the first rejected piece, and that piece with its place. -/
structure Scan where
  tokens : List Located
  rejected : Option (Position × List Char)

namespace Scan

def cons (t : Located) (s : Scan) : Scan := { s with tokens := t :: s.tokens }

/-- The scan of what is left of a text from the offset on. -/
def ofChars (place : Nat → Position) (offset : Nat) : List Char → Scan
  | [] => ⟨[], none⟩
  | c :: cs =>
    let piece := Piece.first c cs
    let behind := offset + Text.byteCount piece.chars
    match piece.reading with
    | .skipped => ofChars place behind (Piece.rest c cs)
    | .token t => cons ⟨t, place offset⟩ (ofChars place behind (Piece.rest c cs))
    | .rejected => ⟨[], some (place offset, piece.chars)⟩
termination_by cs => cs.length
decreasing_by all_goals exact Nat.lt_succ_of_le (Piece.length_rest_le c cs)

end Scan

/-- The tokens of a text up to the first thing that is none, and the error if there is one. -/
def scan (text : String) : List Located × Option LexicalError :=
  let lines := Text.Lines.ofText text
  let s := Scan.ofChars lines.position 0 text.toList
  (s.tokens, s.rejected.map fun (pos, lexeme) =>
    ⟨pos, String.ofList lexeme, lines.context pos.offset⟩)

def tokenize (text : String) : Except LexicalError (List Located) :=
  match scan text with
  | (tokens, none) => .ok tokens
  | (_, some e) => .error e

end Pseudocode
