import Pseudocode.Text.Position
import Pseudocode.Text.Blank

/-! # The lines of a text

A text is cut at its line feeds into lines, each of which knows the byte offset
it starts at. The table of lines answers where an offset lies.

* `Lines.ofText` makes the table.
* `Lines.position` gives line and column of an offset. An offset that is no
  boundary between characters, or lies behind the end, still has a line, and its
  column then counts bytes.
* `Lines.context` is the line around an offset without the blanks at its ends;
  `Lines.context?` has none for an offset inside a character.
-/

namespace Pseudocode.Text

/-- A line without its line feed, and the offset it starts at. -/
structure Line where
  start : Nat
  chars : List Char

/-- The lines of a text, of which there is always a first. -/
structure Lines where
  first : Line
  others : List Line

namespace Lines

def ofChars (start : Nat) (cs : List Char) : Lines :=
  let line := cs.takeWhile (· ≠ '\n')
  match h : cs.dropWhile (· ≠ '\n') with
  | [] => ⟨⟨start, line⟩, []⟩
  | _ :: rest =>
    let next := ofChars (start + byteCount line + 1) rest
    ⟨⟨start, line⟩, next.first :: next.others⟩
termination_by cs.length
decreasing_by
  have := (List.dropWhile_suffix (l := cs) (p := (· ≠ '\n'))).length_le
  rw [h, List.length_cons] at this
  omega

def ofText (text : String) : Lines := ofChars 0 text.toList

/-- The number and the text of the last line that starts at or before the
    offset, where `line` is the one numbered `number`. -/
def search (offset number : Nat) (line : Line) : List Line → Nat × Line
  | [] => (number, line)
  | next :: rest =>
    if next.start ≤ offset then search offset (number + 1) next rest else (number, line)

def lineAt (ls : Lines) (offset : Nat) : Nat × Line := search offset 1 ls.first ls.others

/-- How many characters make up the first `bytes` bytes, if they end with a character. -/
def charCount? : (bytes : Nat) → List Char → Option Nat
  | 0, _ => some 0
  | _ + 1, [] => none
  | bytes + 1, c :: cs =>
    if c.utf8Size ≤ bytes + 1 then (charCount? (bytes + 1 - c.utf8Size) cs).map (· + 1) else none

def position (ls : Lines) (offset : Nat) : Position :=
  let (number, line) := ls.lineAt offset
  let inLine := offset - line.start
  ⟨offset, number, (charCount? inLine line.chars).getD inLine + 1⟩

def size (ls : Lines) : Nat :=
  let last := (ls.first :: ls.others).getLast (by simp)
  last.start + byteCount last.chars

def endPosition (ls : Lines) : Position := ls.position ls.size

/-- The line around the offset without the blanks at its ends. -/
def context (ls : Lines) (offset : Nat) : String :=
  String.ofList (trim (ls.lineAt offset).2.chars)

/-- The line around the offset, for an offset that lies between characters. One
    behind the end of the text stands for the end. -/
def context? (ls : Lines) (offset : Nat) : Option String :=
  let offset := min offset ls.size
  let line := (ls.lineAt offset).2
  (charCount? (offset - line.start) line.chars).map fun _ => ls.context offset

end Lines

end Pseudocode.Text
