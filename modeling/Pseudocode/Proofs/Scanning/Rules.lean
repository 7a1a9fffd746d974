import Pseudocode.Token

/-! # The rules for pieces of text

What the pieces of a text may be, said by rules and without reference to how a text is scanned.

* `Matches r s`: the rule `r` admits the whole text `s` as a piece.
* `Longest piece rest`: in front of `rest`, no rule admits a longer piece.
* `Reads s x`: the piece `s` is the token that `x` holds, or is skipped.
* `Cuts cs pieces rest`: the text `cs` is cut into the longest pieces, up to `rest`.
* `Yields pos pieces ts`: the pieces, of which the first starts at `pos`, are these tokens.
* `Rejects cs lexeme`: the text `cs` starts with no valid piece, and `lexeme` is what is
  told of it.
-/

namespace Pseudocode.Scanning

/-! ## Texts that rules admit -/

inductive Rule where
  | blanks | comment | keyword | name | integer | real | string | newline | symbol
deriving DecidableEq

/-- Digits, of which there is at least one. -/
def Digits (s : List Char) : Prop := s ≠ [] ∧ ∀ c ∈ s, c.isDigit = true

/-- What may stand between quotes: characters but for quotes, backslashes and line feeds, and
    backslashes each of which has another character behind it on the line. -/
inductive Elements : List Char → Prop where
  | nil : Elements []
  | plain {c : Char} {s : List Char} (noQuote : c ≠ '"') (noBackslash : c ≠ '\\')
      (sameLine : c ≠ '\n') (more : Elements s) : Elements (c :: s)
  | escape {c : Char} {s : List Char} (sameLine : c ≠ '\n') (more : Elements s) :
      Elements ('\\' :: c :: s)

/-- The rule admits the text as a piece. -/
inductive Matches : Rule → List Char → Prop where
  | blanks {s : List Char} (some : s ≠ []) (blank : ∀ c ∈ s, c = ' ' ∨ c = '\t') :
      Matches .blanks s
  | comment {s : List Char} (sameLine : ∀ c ∈ s, c ≠ '\n') : Matches .comment ('/' :: '/' :: s)
  | keyword (k : Keyword) : Matches .keyword k.spelling.toList
  | name {c : Char} {s : List Char} (start : c.isAlpha = true ∨ c = '_')
      (parts : ∀ d ∈ s, d.isAlphanum = true ∨ d = '_') : Matches .name (c :: s)
  | integer {s : List Char} (digits : Digits s) : Matches .integer s
  | real {whole fraction : List Char} (digits : Digits whole) (digitsBehind : Digits fraction) :
      Matches .real (whole ++ '.' :: fraction)
  | string {s : List Char} (elements : Elements s) : Matches .string ('"' :: s ++ ['"'])
  | lineFeed : Matches .newline ['\n']
  | carriageReturn : Matches .newline ['\r', '\n']
  | symbol (s : Symbol) : Matches .symbol s.spelling.toList

/-- Some rule admits the piece, and none a longer one that the text starts with. -/
def Longest (piece rest : List Char) : Prop :=
  (∃ r, Matches r piece) ∧
    ∀ r longer, Matches r longer → longer <+: piece ++ rest → longer.length ≤ piece.length

/-! ## What pieces denote -/

/-- The escapes that are known, each with the character that it stands for. -/
def escapes : List (Char × Char) :=
  [('n', '\n'), ('t', '\t'), ('r', '\r'), ('0', '\x00'), ('\\', '\\'), ('"', '"')]

/-- The text between quotes stands for the other one. -/
inductive Resolves : List Char → List Char → Prop where
  | nil : Resolves [] []
  | plain {c : Char} {s t : List Char} (noQuote : c ≠ '"') (noBackslash : c ≠ '\\')
      (sameLine : c ≠ '\n') (more : Resolves s t) : Resolves (c :: s) (c :: t)
  | escape {c d : Char} {s t : List Char} (known : (c, d) ∈ escapes) (more : Resolves s t) :
      Resolves ('\\' :: c :: s) (d :: t)

/-- The number that the digits are in the decimal system. -/
def decimal (s : List Char) : Nat := Nat.ofDigitChars 10 s 0

/-- The piece is the token, or it is skipped. -/
inductive Reads : List Char → Option Token → Prop where
  | blanks {s : List Char} (piece : Matches .blanks s) : Reads s none
  | comment {s : List Char} (piece : Matches .comment s) : Reads s none
  | keyword (k : Keyword) : Reads k.spelling.toList (some (.keyword k))
  | name {s : List Char} (piece : Matches .name s) (free : ∀ k : Keyword, s ≠ k.spelling.toList) :
      Reads s (some (.name (String.ofList s)))
  | integer {s : List Char} (piece : Matches .integer s) (small : decimal s ≤ 2147483647) :
      Reads s (some (.integer (Int32.ofNat (decimal s))))
  | real {whole fraction : List Char} (digits : Digits whole) (digitsBehind : Digits fraction) :
      Reads (whole ++ '.' :: fraction)
        (some (.real (Double.ofDecimal (decimal (whole ++ fraction)) fraction.length)))
  | string {s t : List Char} (resolved : Resolves s t) :
      Reads ('"' :: s ++ ['"']) (some (.string (String.ofList t)))
  | newline {s : List Char} (piece : Matches .newline s) : Reads s (some .newline)
  | symbol (s : Symbol) : Reads s.spelling.toList (some (.symbol s))

/-! ## Whole texts -/

/-- The text is cut into pieces, each the longest that starts where the one before it ends. -/
inductive Cuts : List Char → List (List Char) → List Char → Prop where
  | nil {rest : List Char} : Cuts rest [] rest
  | cons {piece rest last : List Char} {pieces : List (List Char)} (longest : Longest piece rest)
      (more : Cuts rest pieces last) : Cuts (piece ++ rest) (piece :: pieces) last

/-- The pieces are read as the tokens in order, each at the place where its piece starts. -/
inductive Yields : Position → List (List Char) → List Located → Prop where
  | nil {pos : Position} : Yields pos [] []
  | skip {pos : Position} {piece : List Char} {pieces : List (List Char)} {ts : List Located}
      (skipped : Reads piece none) (more : Yields (pos.after piece) pieces ts) :
      Yields pos (piece :: pieces) ts
  | token {pos : Position} {piece : List Char} {pieces : List (List Char)} {t : Token}
      {ts : List Located} (read : Reads piece (some t)) (more : Yields (pos.after piece) pieces ts) :
      Yields pos (piece :: pieces) (⟨t, pos⟩ :: ts)

/-- No rule admits anything that the text starts with. -/
def Unmatched (cs : List Char) : Prop := ∀ r s, Matches r s → ¬ s <+: cs

/-- The text starts with no valid piece. What is told of it is a literal that denotes nothing,
    or a quote with all the elements behind it, or a single character. -/
inductive Rejects : List Char → List Char → Prop where
  | invalid {piece rest : List Char} (longest : Longest piece rest) (unread : ∀ x, ¬ Reads piece x) :
      Rejects (piece ++ rest) piece
  | unclosed {cs s : List Char} (unmatched : Unmatched ('"' :: cs)) (elements : Elements s)
      (within : s <+: cs) (all : ∀ s', Elements s' → s' <+: cs → s' <+: s) :
      Rejects ('"' :: cs) ('"' :: s)
  | unknown {c : Char} {cs : List Char} (unmatched : Unmatched (c :: cs)) (noQuote : c ≠ '"') :
      Rejects (c :: cs) [c]

/-! ## Uniqueness -/

/-- A rule admits no empty text. -/
theorem Matches.ne_nil {r : Rule} {s : List Char} (h : Matches r s) : s ≠ [] := by
  cases h with
  | blanks some _ => exact some
  | keyword k => cases k <;> decide
  | integer digits => exact digits.1
  | real => simp
  | symbol s => exact s.spelling_ne_nil
  | comment | name | string | lineFeed | carriageReturn => exact nofun

theorem Resolves.elements {s t : List Char} (h : Resolves s t) : Elements s := by
  induction h with
  | nil => exact .nil
  | plain noQuote noBackslash sameLine _ ih => exact .plain noQuote noBackslash sameLine ih
  | escape known _ ih =>
    refine .escape ?_ ih
    rintro rfl
    simp [escapes] at known

/-- What is read is a piece that some rule admits. -/
theorem Reads.exists_matches {s : List Char} {x : Option Token} (h : Reads s x) :
    ∃ r, Matches r s := by
  cases h with
  | blanks piece => exact ⟨_, piece⟩
  | comment piece => exact ⟨_, piece⟩
  | keyword k => exact ⟨_, .keyword k⟩
  | name piece _ => exact ⟨_, piece⟩
  | integer piece _ => exact ⟨_, piece⟩
  | real digits digitsBehind => exact ⟨_, .real digits digitsBehind⟩
  | string resolved => exact ⟨_, .string resolved.elements⟩
  | newline piece => exact ⟨_, piece⟩
  | symbol s => exact ⟨_, .symbol s⟩

/-- A text starts with one longest piece only. -/
theorem Longest.unique {piece rest piece' rest' : List Char} (first : Longest piece rest)
    (second : Longest piece' rest') (same : piece ++ rest = piece' ++ rest') :
    piece = piece' ∧ rest = rest' := by
  obtain ⟨⟨r, admitted⟩, longest⟩ := first
  obtain ⟨⟨r', admitted'⟩, longest'⟩ := second
  have shorter := longest r' piece' admitted' (same ▸ List.prefix_append piece' rest')
  have longer := longest' r piece admitted (same ▸ List.prefix_append piece rest)
  exact List.append_inj same (Nat.le_antisymm longer shorter)

theorem Unmatched.not_longest {piece rest : List Char} (unmatched : Unmatched (piece ++ rest)) :
    ¬ Longest piece rest := by
  rintro ⟨⟨r, admitted⟩, _⟩
  exact unmatched r piece admitted (List.prefix_append piece rest)

/-- A text that is rejected starts with no piece that is read. -/
theorem Rejects.not_reads {piece rest lexeme : List Char} {x : Option Token}
    (rejected : Rejects (piece ++ rest) lexeme) (longest : Longest piece rest) :
    ¬ Reads piece x := by
  generalize whole : piece ++ rest = cs at rejected
  cases rejected with
  | invalid longest' unread =>
    obtain ⟨rfl, _⟩ := longest.unique longest' whole
    exact unread x
  | unclosed unmatched _ _ _ => exact absurd longest (whole ▸ unmatched).not_longest
  | unknown unmatched _ => exact absurd longest (whole ▸ unmatched).not_longest

/-- What is told of a text that is rejected is the same in any case. -/
theorem Rejects.unique {cs lexeme lexeme' : List Char} (first : Rejects cs lexeme)
    (second : Rejects cs lexeme') : lexeme = lexeme' := by
  cases first with
  | @invalid _ rest longest _ =>
    generalize whole : lexeme ++ rest = cs at second
    cases second with
    | invalid longest' _ => exact (longest.unique longest' whole).1
    | unclosed unmatched _ _ _ => exact absurd longest (whole ▸ unmatched).not_longest
    | unknown unmatched _ => exact absurd longest (whole ▸ unmatched).not_longest
  | unclosed unmatched elements within all =>
    generalize whole : _ :: _ = cs at second unmatched
    cases second with
    | invalid longest' _ => exact absurd longest' unmatched.not_longest
    | unclosed _ elements' within' all' =>
      cases whole
      have same := (all' _ elements within).eq_of_length_le (all _ elements' within').length_le
      rw [same]
    | unknown _ noQuote =>
      cases whole
      exact absurd rfl noQuote
  | unknown unmatched noQuote =>
    generalize whole : _ :: _ = cs at second unmatched
    cases second with
    | invalid longest' _ => exact absurd longest' unmatched.not_longest
    | unclosed _ _ _ _ =>
      cases whole
      exact absurd rfl noQuote
    | unknown _ _ =>
      cases whole
      rfl

/-- What is told of a text that is rejected is not empty, and the text starts with it. -/
theorem Rejects.lexeme {cs lexeme : List Char} (h : Rejects cs lexeme) :
    lexeme ≠ [] ∧ lexeme <+: cs := by
  cases h with
  | invalid longest _ =>
    obtain ⟨⟨_, admitted⟩, _⟩ := longest
    exact ⟨admitted.ne_nil, List.prefix_append _ _⟩
  | unclosed _ _ within _ => exact ⟨nofun, (List.prefix_cons_inj _).mpr within⟩
  | unknown _ _ => exact ⟨nofun, (List.prefix_cons_inj _).mpr List.nil_prefix⟩

/-- The pieces and what remains make up the text. -/
theorem Cuts.flatten_append {cs rest : List Char} {pieces : List (List Char)}
    (h : Cuts cs pieces rest) : pieces.flatten ++ rest = cs := by
  induction h with
  | nil => rfl
  | cons _ _ ih => rw [List.flatten_cons, List.append_assoc, ih]

end Pseudocode.Scanning
