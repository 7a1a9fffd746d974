import Pseudocode.Text.CharSet

/-! # Blank characters

* `blanks` holds the characters with the property `White_Space`, and no others:
  the zero-width space and the byte order mark are not blank.
* `trim` cuts the blanks off both ends of a text. It keeps all that is between
  them (`trimmed_iff`).
-/

namespace Pseudocode.Text

def blanks : CharSet where
  ranges := [
    (0x9, 0xD), (0x20, 0x20), (0x85, 0x85), (0xA0, 0xA0), (0x1680, 0x1680), (0x2000, 0x200A),
    (0x2028, 0x2029), (0x202F, 0x202F), (0x205F, 0x205F), (0x3000, 0x3000)]

def trimStart (cs : List Char) : List Char :=
  cs.dropWhile blanks.contains

def trimEnd (cs : List Char) : List Char :=
  (cs.reverse.dropWhile blanks.contains).reverse

def trim (cs : List Char) : List Char :=
  trimEnd (trimStart cs)

/-- The text is cut out of another one between blanks, and no blank is at its ends. -/
structure Trimmed (cs out : List Char) : Prop where
  cut : ∃ front back, cs = front ++ out ++ back ∧
    (∀ c ∈ front, blanks.contains c) ∧ ∀ c ∈ back, blanks.contains c
  first : ∀ c ∈ out.head?, blanks.contains c = false
  last : ∀ c ∈ out.getLast?, blanks.contains c = false

theorem dropWhile_of_head {P : Char → Bool} {cs : List Char}
    (first : ∀ c ∈ cs.head?, P c = false) : cs.dropWhile P = cs := by
  cases cs with
  | nil => rfl
  | cons c cs => rw [List.dropWhile_cons_of_neg (by simp [first c rfl])]

theorem first_dropWhile {P : Char → Bool} (cs : List Char) :
    ∀ c ∈ (cs.dropWhile P).head?, P c = false := by
  intro c first
  have stopped := List.head?_dropWhile_not P cs
  rwa [first] at stopped

theorem forall_mem_takeWhile {P : Char → Bool} (cs : List Char) : ∀ c ∈ cs.takeWhile P, P c :=
  List.all_eq_true.mp List.all_takeWhile

theorem trimEnd_append {out back : List Char} (blank : ∀ c ∈ back, blanks.contains c)
    (last : ∀ c ∈ out.getLast?, blanks.contains c = false) : trimEnd (out ++ back) = out := by
  rw [trimEnd, List.reverse_append,
    List.dropWhile_append_of_pos fun c member => blank c (List.mem_reverse.mp member),
    dropWhile_of_head (by rwa [List.head?_reverse]), List.reverse_reverse]

theorem exists_trimEnd (cs : List Char) : ∃ back, cs = trimEnd cs ++ back ∧
    (∀ c ∈ back, blanks.contains c) ∧ ∀ c ∈ (trimEnd cs).getLast?, blanks.contains c = false := by
  refine ⟨(cs.reverse.takeWhile blanks.contains).reverse, ?_, fun c member => ?_, ?_⟩
  · rw [trimEnd, ← List.reverse_append, List.takeWhile_append_dropWhile, List.reverse_reverse]
  · exact forall_mem_takeWhile _ c (List.mem_reverse.mp member)
  · rw [trimEnd, List.getLast?_reverse]
    exact first_dropWhile _

theorem exists_trimStart (cs : List Char) : ∃ front, cs = front ++ trimStart cs ∧
    (∀ c ∈ front, blanks.contains c) ∧ ∀ c ∈ (trimStart cs).head?, blanks.contains c = false :=
  ⟨cs.takeWhile blanks.contains, List.takeWhile_append_dropWhile.symm, forall_mem_takeWhile cs,
    first_dropWhile cs⟩

/-- What is trimmed is what stands between the blanks, and nothing else does. -/
theorem trimmed_iff {cs out : List Char} : Trimmed cs out ↔ out = trim cs := by
  constructor
  · rintro ⟨⟨front, back, rfl, blank, blank'⟩, first, last⟩
    rw [trim, trimStart, List.append_assoc, List.dropWhile_append_of_pos blank]
    cases out with
    | nil =>
      rw [List.nil_append, ← List.append_nil back, List.dropWhile_append_of_pos blank']
      rfl
    | cons c out =>
      rw [dropWhile_of_head (by simpa using first), trimEnd_append blank' last]
  · rintro rfl
    obtain ⟨front, split, blank, first⟩ := exists_trimStart cs
    obtain ⟨back, split', blank', last⟩ := exists_trimEnd (trimStart cs)
    refine ⟨⟨front, back, ?_, blank, blank'⟩, fun c head => first c ?_, last⟩
    · rw [List.append_assoc, trim, ← split', ← split]
    · rw [split', List.head?_append, show (trimEnd (trimStart cs)).head? = some c from head]
      rfl

end Pseudocode.Text
