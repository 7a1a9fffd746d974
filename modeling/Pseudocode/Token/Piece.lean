import Pseudocode.Token

/-! # The pieces of a text

A text is cut into pieces, each the longest one that some rule admits where the
piece before it ends. A piece is a token, or it is skipped as blanks and
comments are, or it is rejected.

* `Piece.first` is the first piece of a text that is not empty, and `Piece.rest`
  what remains behind it. Together they make up the text: `Piece.chars_append_rest`.
* A number is digits, with a point only if a digit follows it. A whole number
  that does not fit into 32 bits with a sign is rejected.
* A string runs to its closing quote on the same line. It is rejected when the
  quote is missing, and also when it has an escape that is not known.
-/

namespace Pseudocode

/-- What a piece of text is. -/
inductive Reading where
  | skipped
  | token (t : Token)
  | rejected
deriving DecidableEq

/-- A piece of text and what it is. -/
structure Piece where
  chars : List Char
  reading : Reading

namespace Piece

def isSpace (c : Char) : Bool := c = ' ' || c = '\t'

def isWordStart (c : Char) : Bool := c.isAlpha || c = '_'

def isWordPart (c : Char) : Bool := c.isAlphanum || c = '_'

/-- A word is a keyword or else a name. -/
def word (cs : List Char) : Piece :=
  let w := String.ofList cs
  ⟨cs, .token (match Keyword.ofSpelling? w with | some k => .keyword k | none => .name w)⟩

def digitsValue (ds : List Char) : Nat :=
  ds.foldl (fun n d => 10 * n + (d.toNat - '0'.toNat)) 0

def maxInteger : Nat := 2147483647

def integer (ds : List Char) : Piece :=
  let n := digitsValue ds
  ⟨ds, if n ≤ maxInteger then .token (.integer (Int32.ofNat n)) else .rejected⟩

def real (whole fraction : List Char) : Piece :=
  ⟨whole ++ '.' :: fraction,
    .token (.real (Double.ofDecimal (digitsValue (whole ++ fraction)) fraction.length))⟩

/-- The number that starts with the digit `c` and goes on in `cs`. -/
def number (c : Char) (cs : List Char) : Piece :=
  let whole := c :: cs.takeWhile Char.isDigit
  match cs.dropWhile Char.isDigit with
  | '.' :: d :: rest =>
    if d.isDigit then real whole (d :: rest.takeWhile Char.isDigit) else integer whole
  | _ => integer whole

/-- The longest run of string elements: a backslash with the character behind it,
    or any other character but a quote, none of them a line feed. -/
def elements : List Char → List Char
  | [] => []
  | c :: cs =>
    if c = '"' || c = '\n' then []
    else if c = '\\' then
      match cs with
      | [] => []
      | d :: ds => if d = '\n' then [] else c :: d :: elements ds
    else c :: elements cs

/-- The character that a letter behind a backslash stands for. -/
def escapeValue? (c : Char) : Option Char :=
  if c = 'n' then some '\n'
  else if c = 't' then some '\t'
  else if c = 'r' then some '\r'
  else if c = '0' then some '\x00'
  else if c = '\\' then some '\\'
  else if c = '"' then some '"'
  else none

/-- The text that string elements denote, if all their escapes are known. -/
def unescape? : List Char → Option (List Char)
  | [] => some []
  | c :: cs =>
    if c = '\\' then
      match cs with
      | [] => none
      | d :: ds =>
        match escapeValue? d, unescape? ds with
        | some e, some es => some (e :: es)
        | _, _ => none
    else (unescape? cs).map (c :: ·)

/-- The string that starts with a quote and goes on in `cs`. -/
def string (cs : List Char) : Piece :=
  let body := elements cs
  if (cs.drop body.length).head? = some '"' then
    ⟨'"' :: body ++ ['"'],
      match unescape? body with
      | some s => .token (.string (String.ofList s))
      | none => .rejected⟩
  else ⟨'"' :: body, .rejected⟩

/-- A symbol, or a single character that starts nothing. -/
def symbol (c : Char) (cs : List Char) : Piece :=
  match Symbol.longest? (c :: cs) with
  | some s => ⟨s.spelling.toList, .token (.symbol s)⟩
  | none => ⟨[c], .rejected⟩

def first (c : Char) (cs : List Char) : Piece :=
  if isSpace c then ⟨c :: cs.takeWhile isSpace, .skipped⟩
  else if c = '/' && cs.head? = some '/' then ⟨c :: cs.takeWhile (· ≠ '\n'), .skipped⟩
  else if isWordStart c then word (c :: cs.takeWhile isWordPart)
  else if c.isDigit then number c cs
  else if c = '"' then string cs
  else if c = '\n' then ⟨[c], .token .newline⟩
  else if c = '\r' && cs.head? = some '\n' then ⟨['\r', '\n'], .token .newline⟩
  else symbol c cs

/-- What remains of the text `c :: cs` behind its first piece. A piece is never
    empty, so one character at least is gone. -/
def rest (c : Char) (cs : List Char) : List Char :=
  cs.drop ((first c cs).chars.length - 1)

theorem length_rest_le (c : Char) (cs : List Char) : (rest c cs).length ≤ cs.length := by
  simp [rest]

/-! ## Pieces as parts of the text -/

/-- The elements of a string stand at the front of the text they were found in. -/
theorem elements_isPrefix : ∀ cs : List Char, elements cs <+: cs
  | [] => List.prefix_rfl
  | c :: cs => by
    unfold elements
    split
    · exact List.nil_prefix
    split
    · match cs with
      | [] => exact List.nil_prefix
      | d :: ds =>
        dsimp only
        split
        · exact List.nil_prefix
        · exact (List.prefix_cons_inj c).2 ((List.prefix_cons_inj d).2 (elements_isPrefix ds))
    · exact (List.prefix_cons_inj c).2 (elements_isPrefix cs)

theorem number_isPrefix (c : Char) (cs : List Char) :
    ∃ t, t <+: cs ∧ (number c cs).chars = c :: t := by
  unfold number
  dsimp only
  split
  · rename_i d rest h
    split
    · have e := List.takeWhile_append_dropWhile (p := Char.isDigit) (l := cs)
      rw [h] at e
      refine ⟨cs.takeWhile Char.isDigit ++ '.' :: d :: rest.takeWhile Char.isDigit,
        ⟨rest.dropWhile Char.isDigit, ?_⟩, by simp [real]⟩
      simp [List.takeWhile_append_dropWhile, e]
    · exact ⟨_, List.takeWhile_prefix _, rfl⟩
  · exact ⟨_, List.takeWhile_prefix _, rfl⟩

theorem string_isPrefix (cs : List Char) :
    ∃ t, t <+: cs ∧ (string cs).chars = '"' :: t := by
  obtain ⟨rest, h⟩ := elements_isPrefix cs
  have hd : cs.drop (elements cs).length = rest := by
    have hl : (elements cs ++ rest).drop (elements cs).length = rest := List.drop_left
    rwa [h] at hl
  unfold string
  dsimp only
  rw [hd]
  split
  · rename_i hq
    obtain ⟨tail, ht⟩ := List.head?_eq_some_iff.1 hq
    refine ⟨elements cs ++ ['"'], ⟨tail, ?_⟩, rfl⟩
    rw [List.append_assoc, List.singleton_append, ← ht, h]
  · exact ⟨_, elements_isPrefix cs, rfl⟩

theorem symbol_isPrefix (c : Char) (cs : List Char) :
    ∃ t, t <+: cs ∧ (symbol c cs).chars = c :: t := by
  unfold symbol
  split
  · rename_i s h
    have hp := Symbol.longest?_isPrefix h
    have hn := Symbol.spelling_ne_nil s
    match hs : s.spelling.toList, hn with
    | x :: t, _ =>
      rw [hs] at hp
      obtain ⟨rfl, ht⟩ := List.cons_prefix_cons.1 hp
      exact ⟨t, ht, rfl⟩
  · exact ⟨[], List.nil_prefix, rfl⟩

/-- The first piece starts with the first character and goes on with what follows it. -/
theorem first_isPrefix (c : Char) (cs : List Char) :
    ∃ t, t <+: cs ∧ (first c cs).chars = c :: t := by
  unfold first
  split
  · exact ⟨_, List.takeWhile_prefix _, rfl⟩
  split
  · exact ⟨_, List.takeWhile_prefix _, rfl⟩
  split
  · exact ⟨_, List.takeWhile_prefix _, rfl⟩
  split
  · exact number_isPrefix c cs
  split
  · rename_i hq
    subst hq
    exact string_isPrefix cs
  split
  · exact ⟨[], List.nil_prefix, rfl⟩
  split
  · rename_i hr
    simp only [Bool.and_eq_true, decide_eq_true_eq] at hr
    obtain ⟨rfl, hn⟩ := hr
    obtain ⟨tail, rfl⟩ := List.head?_eq_some_iff.1 hn
    exact ⟨['\n'], ⟨tail, rfl⟩, rfl⟩
  · exact symbol_isPrefix c cs

/-- Nothing is lost: the first piece and what remains make up the text. -/
theorem chars_append_rest (c : Char) (cs : List Char) :
    (first c cs).chars ++ rest c cs = c :: cs := by
  obtain ⟨t, ht, hc⟩ := first_isPrefix c cs
  rw [rest, hc, List.length_cons, Nat.add_sub_cancel, List.cons_append,
    List.prefix_iff_eq_append.1 ht]

end Piece

end Pseudocode
