/-! # Positions in a text

A place in a text is told by its offset in bytes and, for the reader, by the
line and the column there, both counted from one, the column in characters.

* `Position.advance` moves a position past one character, `Position.after` past
  a whole text.
* `byteCount` is the number of bytes a text takes.
-/

namespace Pseudocode

/-- A place in a text. -/
structure Position where
  offset : Nat
  line : Nat
  column : Nat
deriving DecidableEq, Inhabited

namespace Text

/-- The number of bytes that the text takes in UTF-8. -/
def byteCount : List Char → Nat
  | [] => 0
  | c :: cs => c.utf8Size + byteCount cs

@[simp] theorem byteCount_append (s t : List Char) :
    byteCount (s ++ t) = byteCount s + byteCount t := by
  induction s with
  | nil => simp [byteCount]
  | cons c s ih => simp [byteCount, ih, Nat.add_assoc]

end Text

namespace Position

/-- The first place of every text. -/
def start : Position := ⟨0, 1, 1⟩

/-- A place in no text, for what the language itself declares. -/
def nowhere : Position := ⟨0, 0, 0⟩

def advance (p : Position) (c : Char) : Position :=
  if c = '\n' then ⟨p.offset + c.utf8Size, p.line + 1, 1⟩
  else ⟨p.offset + c.utf8Size, p.line, p.column + 1⟩

def after (p : Position) (cs : List Char) : Position :=
  cs.foldl advance p

@[simp] theorem after_nil (p : Position) : p.after [] = p := rfl

@[simp] theorem after_append (p : Position) (s t : List Char) :
    p.after (s ++ t) = (p.after s).after t := by
  simp [after, List.foldl_append]

@[simp] theorem offset_after (p : Position) (cs : List Char) :
    (p.after cs).offset = p.offset + Text.byteCount cs := by
  induction cs generalizing p with
  | nil => rfl
  | cons c cs ih =>
    show ((p.advance c).after cs).offset = _
    rw [ih]
    unfold advance
    split <;> simp [Text.byteCount, Nat.add_assoc]

def text (p : Position) : String := s!"{p.line}:{p.column}"

end Position

end Pseudocode
