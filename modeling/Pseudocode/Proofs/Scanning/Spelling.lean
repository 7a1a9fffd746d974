import Pseudocode.Proofs.Numbers.Nearest
import Pseudocode.Proofs.Scanning.Tokens

/-! # Spelled words are read back

* `Word`: a word of the language as it is written. It carries what makes it one: a name is no
  keyword, a number is not too large.
* `Word.reads`: a word is read as its token when it stands alone.
* `longest_of_reads`: a space behind a piece ends it, whatever comes then.
* `tokenize_written`: words with single spaces between them are tokenized as these words.
-/

namespace Pseudocode.Scanning

open Piece

/-! ## Spelling -/

/-- A character inside quotes. Those for which there is an escape are escaped. -/
def escaped (c : Char) : List Char :=
  match escapes.find? fun e => e.2 = c with
  | some e => ['\\', e.1]
  | none => [c]

/-- A word of the language, as it is written. -/
inductive Word where
  | keyword (k : Keyword)
  | symbol (s : Symbol)
  | name (n : String) (piece : Matches .name n.toList) (free : ∀ k : Keyword, n ≠ k.spelling)
  | integer (n : Nat) (small : n ≤ maxInteger)
  | real (whole fraction : List Char) (digits : Digits whole) (digitsBehind : Digits fraction)
  | string (s : String)
  | newline

namespace Word

def spelling : Word → List Char
  | keyword k => k.spelling.toList
  | symbol s => s.spelling.toList
  | name n _ _ => n.toList
  | integer n _ => Nat.toDigits 10 n
  | real whole fraction _ _ => whole ++ '.' :: fraction
  | string s => '"' :: s.toList.flatMap escaped ++ ['"']
  | newline => ['\n']

/-- What the word is. A real number is the double that is nearest to its digits. -/
def token : Word → Token
  | keyword k => .keyword k
  | symbol s => .symbol s
  | name n _ _ => .name n
  | integer n _ => .integer (Int32.ofNat n)
  | real whole fraction _ _ =>
    .real (Double.ofDecimal (decimal (whole ++ fraction)) fraction.length)
  | string s => .string s
  | newline => .newline

/-- What a real number is worth as it is written. -/
def worth? : Word → Option ℚ
  | real whole fraction _ _ => some (decimal (whole ++ fraction) / 10 ^ fraction.length)
  | _ => none

theorem exists_nearest {w : Word} {q : ℚ} (worth : w.worth? = some q) :
    ∃ x, w.token = .real x ∧ Double.Nearest q x := by
  cases w with
  | real whole fraction =>
    cases worth
    exact ⟨_, rfl, Double.nearest_ofDecimal _ _⟩
  | _ => cases worth

end Word

/-- The words with a space between any two of them. -/
def written (ws : List Word) : List Char := [' '].intercalate (ws.map Word.spelling)

/-! ## Words that stand alone -/

/-- An escape stands for the character that was escaped. -/
theorem resolves_escaped {s t : List Char} (c : Char) (more : Resolves s t) :
    Resolves (escaped c ++ s) (c :: t) := by
  unfold escaped
  cases found : escapes.find? fun e => e.2 = c with
  | some e =>
    have same : e.2 = c := by simpa using List.find?_some found
    exact .escape (same ▸ List.mem_of_find?_eq_some found) more
  | none =>
    have other (e : Char × Char) (known : e ∈ escapes) : c ≠ e.2 := by
      have := List.find?_eq_none.mp found e known
      exact fun same => this (by simp [same])
    exact .plain (other ('"', '"') (by decide)) (other ('\\', '\\') (by decide))
      (other ('n', '\n') (by decide)) more

theorem resolves_flatMap_escaped (s : List Char) : Resolves (s.flatMap escaped) s := by
  induction s with
  | nil => exact .nil
  | cons c s ih => exact resolves_escaped c ih

theorem digits_toDigits (n : Nat) : Digits (Nat.toDigits 10 n) :=
  ⟨Nat.toDigits_ne_nil, fun _ member => Nat.isDigit_of_mem_toDigits (by decide) (by decide) member⟩

/-- A word is read as its token. -/
theorem Word.reads : ∀ w : Word, Reads w.spelling (some w.token)
  | .keyword k => .keyword k
  | .symbol s => .symbol s
  | .name n piece free => by
    have read := Reads.name piece fun k same => free k (String.toList_inj.mp same)
    rwa [String.ofList_toList] at read
  | .integer n small => by
    have value : decimal (Nat.toDigits 10 n) = n := Nat.ofDigitChars_ten_toDigits
    have read := Reads.integer (.integer (digits_toDigits n)) (value.symm ▸ small)
    rwa [value] at read
  | .real _ _ digits digitsBehind => .real digits digitsBehind
  | .string s => by
    have read := Reads.string (resolves_flatMap_escaped s.toList)
    rwa [String.ofList_toList] at read
  | .newline => .newline .lineFeed

/-! ## Spaces between words -/

/-- Only blanks, comments and strings may have a space inside. -/
theorem space_notMem {r : Rule} {s : List Char} (admitted : Matches r s) (noBlanks : r ≠ .blanks)
    (noComment : r ≠ .comment) (noString : r ≠ .string) : ' ' ∉ s := by
  have noDigit {s : List Char} (digits : Digits s) : ' ' ∉ s := fun member =>
    absurd (digits.2 _ member) (by decide)
  cases admitted with
  | blanks => exact absurd rfl noBlanks
  | comment => exact absurd rfl noComment
  | string => exact absurd rfl noString
  | keyword k => cases k <;> decide
  | symbol s => cases s <;> decide
  | lineFeed => decide
  | carriageReturn => decide
  | integer digits => exact noDigit digits
  | real digits digitsBehind => simp [noDigit digits, noDigit digitsBehind]
  | name start parts =>
    intro member
    rcases List.mem_cons.mp member with rfl | member
    · exact absurd start (by decide)
    · exact absurd (parts _ member) (by decide)

/-- A token that starts with a quote is a string. -/
theorem Reads.elements_of_quote {s : List Char} {t : Token} (read : Reads ('"' :: s) (some t)) :
    ∃ body, Elements body ∧ s = body ++ ['"'] := by
  have alone := read.first_eq
  rw [first_quote] at alone
  by_cases closed : ∃ rest, s = Piece.elements s ++ '"' :: rest
  · obtain ⟨rest, split⟩ := closed
    have elements := elements_elements s
    have whole := string_of_elements elements rest
    rw [← split, alone] at whole
    exact ⟨_, elements, List.cons.inj (congrArg chars whole) |>.2⟩
  · rw [string_of_open closed] at alone
    cases congrArg reading alone

/-- No rule lets a token go on with a space. -/
theorem not_matches_space {piece v : List Char} {t : Token} (read : Reads piece (some t))
    {r : Rule} : ¬ Matches r (piece ++ ' ' :: v) := by
  intro admitted
  have notSkipped : ¬ Reads piece none := fun skipped => nomatch skipped.unique read
  obtain ⟨_, admitted'⟩ := read.exists_matches
  obtain ⟨c, s, rfl⟩ := List.exists_cons_of_ne_nil admitted'.ne_nil
  generalize whole : c :: s ++ ' ' :: v = longer at admitted
  have space : ' ' ∈ longer := by simp [← whole]
  cases admitted with
  | blanks _ blank =>
    have part : ∀ d ∈ c :: s, d ∈ longer := by
      simp only [← whole]
      exact fun d member => List.mem_append_left _ member
    exact notSkipped (.blanks (.blanks nofun fun d member => blank d (part d member)))
  | comment sameLine =>
    cases s with
    | nil => cases whole
    | cons d s =>
      cases whole
      exact notSkipped
        (.comment (.comment fun e member => sameLine e (List.mem_append_left _ member)))
  | @string s' elements =>
    obtain ⟨rfl, whole⟩ := List.cons.inj whole
    obtain ⟨body, elements', rfl⟩ := read.elements_of_quote
    have same := elements_quote elements' (' ' :: v)
    have tail : body ++ '"' :: ' ' :: v = s' ++ ['"'] := by simpa using whole
    rw [tail, elements_quote elements []] at same
    rw [same] at tail
    cases List.append_cancel_left tail
  | keyword k => exact space_notMem (.keyword k) nofun nofun nofun space
  | name start parts => exact space_notMem (.name start parts) nofun nofun nofun space
  | integer digits => exact space_notMem (.integer digits) nofun nofun nofun space
  | real digits behind => exact space_notMem (.real digits behind) nofun nofun nofun space
  | lineFeed => exact space_notMem .lineFeed nofun nofun nofun space
  | carriageReturn => exact space_notMem .carriageReturn nofun nofun nofun space
  | symbol s => exact space_notMem (.symbol s) nofun nofun nofun space

/-- Nothing but its end, or a space, has to come behind a token to end it. -/
theorem longest_of_reads {piece behind : List Char} {t : Token} (read : Reads piece (some t))
    (apart : behind = [] ∨ behind.head? = some ' ') : Longest piece behind := by
  refine ⟨read.exists_matches, fun r longer admitted front => ?_⟩
  by_contra more
  obtain ⟨u, rfl⟩ := List.prefix_of_prefix_length_le (List.prefix_append piece behind) front
    (Nat.le_of_not_le more)
  obtain ⟨w, rfl⟩ := (List.prefix_append_right_inj piece).mp front
  cases u with
  | nil => simp at more
  | cons c v =>
    rcases apart with none | space
    · cases none
    · cases space
      exact not_matches_space read admitted

theorem matches_space : Matches .blanks [' '] := .blanks (List.cons_ne_nil _ _) (by simp)

/-- A single blank is a piece unless another one follows. -/
theorem longest_space {behind : List Char} (apart : ∀ c ∈ behind.head?, isSpace c = false) :
    Longest [' '] behind := by
  have none : behind.takeWhile isSpace = [] := by
    cases behind with
    | nil => rfl
    | cons c cs => exact List.takeWhile_cons_of_neg (by simp [apart c rfl])
  have piece : first ' ' behind = ⟨[' '], .skipped⟩ := by
    rw [first_of_isSpace (by decide), none]
  have admitted : Matches .blanks (first ' ' behind).chars := piece ▸ matches_space
  have longest := longest_first admitted
  rwa [rest, piece] at longest

/-- A token does not start with a blank. -/
theorem Reads.not_isSpace {c : Char} {s : List Char} {t : Token} (read : Reads (c :: s) (some t)) :
    isSpace c = false := by
  by_contra space
  have skipped := read.first_eq.symm.trans (first_of_isSpace (by simpa using space) s)
  cases congrArg reading skipped

/-! ## Whole texts -/

theorem written_cons_cons (w w' : Word) (ws : List Word) :
    written (w :: w' :: ws) = w.spelling ++ ([' '] ++ written (w' :: ws)) := by
  rw [written, List.map_cons, List.map_cons, List.intercalate_cons_cons, List.append_assoc]
  rfl

/-- The words start with the first of them. -/
theorem exists_written_cons (w : Word) (ws : List Word) :
    ∃ behind, written (w :: ws) = w.spelling ++ behind ∧
      (behind = [] ∨ behind.head? = some ' ') := by
  cases ws with
  | nil => exact ⟨[], by simp [written], .inl rfl⟩
  | cons w' ws => exact ⟨_, written_cons_cons w w' ws, .inr rfl⟩

theorem not_isSpace_of_written {w : Word} {ws : List Word} :
    ∀ c ∈ (written (w :: ws)).head?, isSpace c = false := by
  intro c start
  obtain ⟨behind, split, _⟩ := exists_written_cons w ws
  obtain ⟨_, admitted⟩ := w.reads.exists_matches
  obtain ⟨d, s, spelled⟩ := List.exists_cons_of_ne_nil admitted.ne_nil
  rw [split, spelled] at start
  cases start
  exact Reads.not_isSpace (spelled ▸ w.reads)

/-- The words of a text are found again. -/
theorem counted_written (pos : Position) (ws : List Word) :
    (Scan.counted pos (written ws)).tokens.map (·.token) = ws.map Word.token ∧
      (Scan.counted pos (written ws)).rejected = none := by
  induction ws generalizing pos with
  | nil =>
    rw [written, List.map_nil, List.intercalate_nil, Scan.counted]
    exact ⟨rfl, rfl⟩
  | cons w ws ih =>
    cases ws with
    | nil =>
      have alone : written [w] = w.spelling ++ [] := by simp [written]
      rw [alone, counted_append (longest_of_reads w.reads (.inl rfl)) w.reads, Scan.counted]
      exact ⟨rfl, rfl⟩
    | cons w' ws =>
      have space : Longest [' '] (written (w' :: ws)) := longest_space not_isSpace_of_written
      rw [written_cons_cons, counted_append (longest_of_reads w.reads (.inr rfl)) w.reads,
        counted_append space (.blanks matches_space)]
      have behind := ih ((pos.after w.spelling).after [' '])
      exact ⟨congrArg (w.token :: ·) behind.1, behind.2⟩

/-- Spelling and tokenizing are inverse: whatever words are written with single spaces between
    them, the tokens of the text are these words, in order. A real number is the double that is
    nearest to what is written. -/
theorem tokenize_written (ws : List Word) :
    ∃ ts, tokenize (String.ofList (written ws)) = .ok ts ∧
      ts.map (·.token) = ws.map Word.token ∧
      ∀ w ∈ ws, ∀ q ∈ w.worth?, ∃ x, w.token = .real x ∧ Double.Nearest q x := by
  obtain ⟨tokens, rejected⟩ := counted_written .start ws
  refine ⟨_, tokenize_eq_ok.mpr ⟨rfl, ?_⟩, ?_, fun _ _ _ => Word.exists_nearest⟩
  · rw [String.toList_ofList]
    exact rejected
  · rw [String.toList_ofList]
    exact tokens

example : String.ofList (written [.symbol .slash, .symbol .slash, .keyword .do, .newline,
      .name "DOT" (.name (by decide) fun d member => isWordPart_iff.mp
        (List.all_eq_true.mp rfl d member)) (by intro k; cases k <;> decide),
      .integer 7 (by decide), .symbol .dot,
      .real ['0', '1'] ['5'] ⟨nofun, List.all_eq_true.mp rfl⟩ ⟨nofun, List.all_eq_true.mp rfl⟩,
      .string "a // \\\n\"é"]) =
    "/ / DO \n DOT 7 . 01.5 \"a // \\\\\\n\\\"é\"" := by
  decide +kernel

end Pseudocode.Scanning
