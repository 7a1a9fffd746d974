import Mathlib.Data.List.TakeWhile
import Pseudocode.Proofs.Scanning.Rules
import Pseudocode.Token.Piece

/-! # The first piece of a text is the longest

* `prefix_first`: whatever a rule admits at the front of a text is no longer than its first
  piece.
* `Reads.first_eq`: a piece that stands alone is read as the rules say.
* `judged_first`: the first piece of a text is read by the rules, or else the text is rejected
  by them.
* `first_of_longest`, `first_of_rejects`: the rules leave no choice of the first piece.
-/

namespace Pseudocode.Scanning

open Piece

/-! ## Characters -/

theorem isSpace_iff {c : Char} : isSpace c = true ↔ c = ' ' ∨ c = '\t' := by
  simp [isSpace]

theorem isWordStart_iff {c : Char} : isWordStart c = true ↔ c.isAlpha = true ∨ c = '_' := by
  simp [isWordStart]

theorem isWordPart_iff {c : Char} : isWordPart c = true ↔ c.isAlphanum = true ∨ c = '_' := by
  simp [isWordPart]

/-- A character with a property is not one without it. -/
theorem ne_of_property {P : Char → Bool} {c d : Char} (has : P c = true) (lacks : P d = false) :
    c ≠ d := by
  rintro rfl
  exact absurd (has.symm.trans lacks) nofun

theorem not_isSpace {P : Char → Bool} {c : Char} (has : P c = true) (blank : P ' ' = false)
    (tab : P '\t' = false) : ¬ isSpace c = true := by
  intro space
  rcases isSpace_iff.mp space with same | same
  · exact ne_of_property has blank same
  · exact ne_of_property has tab same

theorem not_isWordStart_of_isDigit {c : Char} (digit : c.isDigit = true) :
    isWordStart c = false := by
  refine Bool.eq_false_iff.mpr fun start => ?_
  have notUnderscore : c ≠ '_' := ne_of_property digit (by decide)
  rcases isWordStart_iff.mp start with alpha | same
  · have above : 'A'.toNat ≤ c.toNat := by
      rcases Bool.or_eq_true_iff.mp alpha with upper | lower
      · exact UInt32.le_iff_toNat_le.mp (of_decide_eq_true upper).1
      · have first := of_decide_eq_true (Bool.and_eq_true_iff.mp lower).1
        exact Nat.le_trans (by decide) (UInt32.le_iff_toNat_le.mp first)
    exact absurd (Nat.le_trans above (Char.isDigit_iff_toNat.mp digit).2) (by decide)
  · exact notUnderscore same

/-! ## Where the first character leads -/

theorem first_of_isSpace {c : Char} (h : isSpace c = true) (cs : List Char) :
    first c cs = ⟨c :: cs.takeWhile isSpace, .skipped⟩ := if_pos h

theorem not_comment {c : Char} {cs : List Char} (h : c ≠ '/') :
    ¬ (c = '/' && cs.head? = some '/') = true := by
  simp [h]

theorem first_of_isWordStart {c : Char} (h : isWordStart c = true) (cs : List Char) :
    first c cs = word (c :: cs.takeWhile isWordPart) := by
  have noSpace := not_isSpace h (by decide) (by decide)
  rw [first, if_neg noSpace, if_neg (not_comment (ne_of_property h (by decide))), if_pos h]

theorem first_of_isDigit {c : Char} (h : c.isDigit = true) (cs : List Char) :
    first c cs = number c cs := by
  have noSpace := not_isSpace h (by decide) (by decide)
  rw [first, if_neg noSpace, if_neg (not_comment (ne_of_property h (by decide))),
    if_neg (by simp [not_isWordStart_of_isDigit h]), if_pos h]

theorem first_quote (cs : List Char) : first '"' cs = string cs := rfl

theorem first_comment (cs : List Char) :
    first '/' ('/' :: cs) = ⟨'/' :: '/' :: cs.takeWhile (· ≠ '\n'), .skipped⟩ := rfl

/-- A slash is a symbol unless another one follows. -/
theorem first_symbol (s : Symbol) {c : Char} {t cs : List Char} (spelled : s.spelling.toList = c :: t)
    (single : ¬ (c = '/' ∧ cs.head? = some '/')) : first c cs = symbol c cs := by
  have noComment : ¬ (c = '/' && cs.head? = some '/') = true := by simpa using single
  unfold first
  rw [if_neg (c := (c = '/' && cs.head? = some '/') = true) noComment]
  cases s <;> cases spelled <;> rfl

/-! ## Runs of characters -/

theorem prefix_takeWhile {P : Char → Bool} {s l : List Char} (h : s <+: l)
    (all : ∀ c ∈ s, P c = true) : s <+: l.takeWhile P := by
  obtain ⟨rest, rfl⟩ := h
  induction s with
  | nil => exact List.nil_prefix
  | cons c s ih =>
    rw [List.cons_append, List.takeWhile_cons_of_pos (all c (by simp))]
    exact (List.prefix_cons_inj c).mpr (ih fun d member => all d (by simp [member]))

theorem takeWhile_append {P : Char → Bool} {s rest : List Char} {c : Char}
    (all : ∀ d ∈ s, P d = true) (stop : P c = false) : (s ++ c :: rest).takeWhile P = s := by
  rw [List.takeWhile_append_of_pos all, List.takeWhile_cons_of_neg (by simp [stop]),
    List.append_nil]

theorem dropWhile_append {P : Char → Bool} {s rest : List Char} {c : Char}
    (all : ∀ d ∈ s, P d = true) (stop : P c = false) : (s ++ c :: rest).dropWhile P = c :: rest := by
  rw [List.dropWhile_append_of_pos all, List.dropWhile_cons_of_neg (by simp [stop])]

/-! ## Numbers -/

theorem digitsValue_eq (s : List Char) : digitsValue s = decimal s := rfl

/-- Digits with a point and digits behind it, in front of anything. -/
theorem number_of_digits {c d : Char} {s t : List Char} (whole : ∀ e ∈ s, e.isDigit = true)
    (next : d.isDigit = true) :
    number c (s ++ '.' :: d :: t) = real (c :: s) (d :: t.takeWhile Char.isDigit) := by
  unfold number
  simp only [takeWhile_append whole (by decide : Char.isDigit '.' = false),
    dropWhile_append whole (by decide : Char.isDigit '.' = false), next, if_true]

/-- A number starts with all the digits there are. -/
theorem digits_prefix_number (c : Char) (cs : List Char) :
    c :: cs.takeWhile Char.isDigit <+: (number c cs).chars := by
  unfold number
  dsimp only
  split
  · split
    · exact List.prefix_append _ _
    · exact List.prefix_rfl
  · exact List.prefix_rfl

/-- Digits that stand alone are a whole number. -/
theorem number_alone {c : Char} {s : List Char} (digits : ∀ d ∈ s, d.isDigit = true) :
    number c s = integer (c :: s) := by
  simp only [number, List.takeWhile_eq_self_iff.mpr digits, List.dropWhile_eq_nil_iff.mpr digits]

theorem integer_of_small {ds : List Char} (small : decimal ds ≤ 2147483647) :
    integer ds = ⟨ds, .token (.integer (Int32.ofNat (decimal ds)))⟩ := by
  simp only [integer, digitsValue_eq, maxInteger, small, if_true]

theorem integer_of_large {ds : List Char} (large : ¬ decimal ds ≤ 2147483647) :
    integer ds = ⟨ds, .rejected⟩ := by
  simp only [integer, digitsValue_eq, maxInteger, large, if_false]

/-- A number is digits, or digits and a point with digits behind it. -/
theorem number_cases {c : Char} (digit : c.isDigit = true) (cs : List Char) :
    (∃ s t, Digits (c :: s) ∧ Digits t ∧ number c cs = real (c :: s) t) ∨
      ∃ s, Digits (c :: s) ∧ number c cs = integer (c :: s) := by
  have run : ∀ {d : Char} (ds : List Char), d.isDigit = true →
      Digits (d :: ds.takeWhile Char.isDigit) := by
    intro d ds digit
    refine ⟨nofun, fun e member => ?_⟩
    rcases List.mem_cons.mp member with rfl | member
    · exact digit
    · exact List.mem_takeWhile_imp member
  unfold number
  dsimp only
  split
  next d rest _ =>
    split
    next next => exact .inl ⟨_, _, run cs digit, run rest next, rfl⟩
    next => exact .inr ⟨_, run cs digit, rfl⟩
  next => exact .inr ⟨_, run cs digit, rfl⟩

theorem number_isPrefixOf_real {c : Char} {cs s t : List Char}
    (digits : ∀ d ∈ s, d.isDigit = true) (behind : Digits t) (h : s ++ '.' :: t <+: cs) :
    c :: s ++ '.' :: t <+: (number c cs).chars := by
  obtain ⟨rest, rfl⟩ := h
  obtain ⟨some, digitsBehind⟩ := behind
  obtain ⟨d, t, rfl⟩ := List.exists_cons_of_ne_nil some
  have whole := number_of_digits (c := c) (t := t ++ rest) digits (digitsBehind d (by simp))
  have all : ∀ e ∈ t, e.isDigit = true := fun e member => digitsBehind e (by simp [member])
  simp only [List.append_assoc, List.cons_append] at whole ⊢
  rw [whole]
  simpa [real] using prefix_takeWhile (List.prefix_append t rest) all

/-! ## Strings -/

theorem elements_plain {c : Char} (noQuote : c ≠ '"') (noBackslash : c ≠ '\\')
    (sameLine : c ≠ '\n') (cs : List Char) : Piece.elements (c :: cs) = c :: Piece.elements cs := by
  rw [Piece.elements.eq_def]
  simp [noQuote, noBackslash, sameLine]

theorem elements_escape {d : Char} (sameLine : d ≠ '\n') (ds : List Char) :
    Piece.elements ('\\' :: d :: ds) = '\\' :: d :: Piece.elements ds := by
  simp [Piece.elements, sameLine]

/-- The elements of a string end at its closing quote. -/
theorem elements_quote {s : List Char} (h : Elements s) (rest : List Char) :
    Piece.elements (s ++ '"' :: rest) = s := by
  -- An escape takes two characters, so the induction is on the elements, not on the characters.
  induction h with
  | nil => simp [Piece.elements.eq_def]
  | plain noQuote noBackslash sameLine _ ih =>
    rw [List.cons_append, elements_plain noQuote noBackslash sameLine, ih]
  | escape sameLine _ ih =>
    rw [List.cons_append, List.cons_append, elements_escape sameLine, ih]

theorem elements_elements : ∀ cs : List Char, Elements (Piece.elements cs)
  | [] => .nil
  | c :: cs => by
    unfold Piece.elements
    split
    · exact .nil
    next stop =>
      simp only [Bool.or_eq_true, decide_eq_true_eq, not_or] at stop
      split
      next same =>
        subst same
        match cs with
        | [] => exact .nil
        | d :: ds =>
          dsimp only
          split
          · exact .nil
          next sameLine => exact .escape sameLine (elements_elements ds)
      next other => exact .plain stop.1 other stop.2 (elements_elements cs)

/-- No longer run of elements stands at the front of a text. -/
theorem prefix_elements {s : List Char} (h : Elements s) :
    ∀ {cs : List Char}, s <+: cs → s <+: Piece.elements cs := by
  induction h with
  | nil => exact fun _ => List.nil_prefix
  | plain noQuote noBackslash sameLine _ ih =>
    intro cs within
    obtain ⟨rest, rfl⟩ := within
    rw [List.cons_append, elements_plain noQuote noBackslash sameLine]
    exact (List.prefix_cons_inj _).mpr (ih (List.prefix_append _ _))
  | escape sameLine _ ih =>
    intro cs within
    obtain ⟨rest, rfl⟩ := within
    rw [List.cons_append, List.cons_append, elements_escape sameLine]
    exact (List.prefix_cons_inj _).mpr ((List.prefix_cons_inj _).mpr (ih (List.prefix_append _ _)))

/-- A string that is closed. -/
theorem string_of_elements {s : List Char} (h : Elements s) (rest : List Char) :
    string (s ++ '"' :: rest) = ⟨'"' :: s ++ ['"'], match unescape? s with
      | some t => .token (.string (String.ofList t))
      | none => .rejected⟩ := by
  have quote : ((s ++ '"' :: rest).drop (Piece.elements (s ++ '"' :: rest)).length).head?
      = some '"' := by
    rw [elements_quote h, List.drop_left, List.head?_cons]
  have closed : string (s ++ '"' :: rest) = _ := if_pos quote
  rw [elements_quote h] at closed
  exact closed

/-- A string that is not closed. -/
theorem string_of_open {cs : List Char}
    (notClosed : ¬ ∃ rest, cs = Piece.elements cs ++ '"' :: rest) :
    string cs = ⟨'"' :: Piece.elements cs, .rejected⟩ := by
  have noQuote : ¬ (cs.drop (Piece.elements cs).length).head? = some '"' := by
    intro quote
    obtain ⟨more, behind⟩ := List.head?_eq_some_iff.mp quote
    apply notClosed
    refine ⟨more, ?_⟩
    rw [← behind, List.prefix_iff_eq_append.mp (elements_isPrefix cs)]
  unfold string
  simp only [noQuote, if_false]

theorem escapeValue?_eq_some {c d : Char} : escapeValue? c = some d ↔ (c, d) ∈ escapes := by
  unfold escapeValue?
  constructor
  · intro h
    repeat' split at h
    all_goals cases h
    all_goals subst_vars
    all_goals decide
  · intro h
    simp only [escapes, List.mem_cons, Prod.mk.injEq, List.not_mem_nil, or_false] at h
    rcases h with ⟨rfl, rfl⟩ | ⟨rfl, rfl⟩ | ⟨rfl, rfl⟩ | ⟨rfl, rfl⟩ | ⟨rfl, rfl⟩ |
      ⟨rfl, rfl⟩ <;> rfl

theorem unescape?_plain {c : Char} (noBackslash : c ≠ '\\') (cs : List Char) :
    unescape? (c :: cs) = (unescape? cs).map (c :: ·) := by
  rw [unescape?.eq_def]
  simp [noBackslash]

theorem Resolves.unescape?_eq {s t : List Char} (h : Resolves s t) : unescape? s = some t := by
  induction h with
  | nil => rfl
  | plain _ noBackslash _ _ ih => rw [unescape?_plain noBackslash, ih, Option.map_some]
  | escape known _ ih => simp [unescape?, escapeValue?_eq_some.mpr known, ih]

theorem resolves_of_unescape? {s : List Char} (h : Elements s) :
    ∀ {t : List Char}, unescape? s = some t → Resolves s t := by
  induction h with
  | nil =>
    rintro _ ⟨⟩
    exact .nil
  | plain noQuote noBackslash sameLine _ ih =>
    intro t resolved
    rw [unescape?_plain noBackslash] at resolved
    obtain ⟨t, tail, rfl⟩ := Option.map_eq_some_iff.mp resolved
    exact .plain noQuote noBackslash sameLine (ih tail)
  | escape sameLine _ ih =>
    intro t resolved
    simp only [unescape?, if_true] at resolved
    split at resolved
    · cases resolved
      rename_i known rest
      exact .escape (escapeValue?_eq_some.mp known) (ih rest)
    · cases resolved

/-! ## Words and symbols -/

theorem keyword_matches_name (k : Keyword) : Matches .name k.spelling.toList := by
  cases k <;> exact .name (by decide) fun d member =>
    isWordPart_iff.mp (List.all_eq_true.mp (by decide) d member)

theorem Elements.noFeed {s : List Char} (h : Elements s) : '\n' ∉ s := by
  induction h with
  | nil => exact List.not_mem_nil
  | plain _ _ sameLine _ ih => simp [sameLine.symm, ih]
  | escape sameLine _ ih => simp [sameLine.symm, ih]

/-- A piece is on one line, unless it is the end of a line. -/
theorem Matches.noFeed {r : Rule} {s : List Char} (h : Matches r s) (other : r ≠ .newline) :
    '\n' ∉ s := by
  have word {s : List Char} (name : Matches .name s) : '\n' ∉ s := by
    cases name with
    | name start parts =>
      intro member
      rcases List.mem_cons.mp member with rfl | member
      · exact absurd start (by decide)
      · exact absurd (parts _ member) (by decide)
  have number {s : List Char} (digits : Digits s) : '\n' ∉ s := fun member =>
    absurd (digits.2 _ member) (by decide)
  cases h with
  | blanks _ blank => exact fun member => absurd (blank _ member) (by decide)
  | comment sameLine =>
    simp only [List.mem_cons, not_or]
    exact ⟨by decide, by decide, fun member => sameLine _ member rfl⟩
  | keyword k => exact word (keyword_matches_name k)
  | name start parts => exact word (.name start parts)
  | integer digits => exact number digits
  | real digits digitsBehind =>
    simp only [List.mem_append, List.mem_cons, not_or]
    exact ⟨number digits, by decide, number digitsBehind⟩
  | string elements =>
    simp only [List.cons_append, List.mem_cons, List.mem_append, not_or, List.not_mem_nil]
    exact ⟨by decide, elements.noFeed, by decide, not_false⟩
  | lineFeed => exact absurd rfl other
  | carriageReturn => exact absurd rfl other
  | symbol s => cases s <;> decide

theorem ofSpelling?_eq_none {s : List Char} (free : ∀ k : Keyword, s ≠ k.spelling.toList) :
    Keyword.ofSpelling? (String.ofList s) = none := by
  refine List.find?_eq_none.mpr fun k _ same => free k ?_
  rw [of_decide_eq_true same, String.toList_ofList]

theorem word_of_free {s : List Char} (free : ∀ k : Keyword, s ≠ k.spelling.toList) :
    word s = ⟨s, .token (.name (String.ofList s))⟩ := by
  simp only [word, ofSpelling?_eq_none free]

theorem word_spelling (k : Keyword) :
    word k.spelling.toList = ⟨k.spelling.toList, .token (.keyword k)⟩ := by
  simp only [word, String.ofList_toList, Keyword.ofSpelling?_spelling]

theorem all_sorted : Symbol.all.Pairwise fun s t =>
    t.spelling.toList.length ≤ s.spelling.toList.length := by
  decide

/-- No symbol at the front of a text is longer than the one that is found there. -/
theorem prefix_symbol {s : Symbol} {c : Char} {cs : List Char}
    (front : s.spelling.toList <+: c :: cs) : s.spelling.toList <+: (symbol c cs).chars := by
  have found : s.spelling.toList.isPrefixOf (c :: cs) = true := List.isPrefixOf_iff_prefix.mpr front
  have member : s ∈ Symbol.all := by cases s <;> decide
  unfold symbol
  cases first : Symbol.longest? (c :: cs) with
  | none => exact absurd found (List.find?_eq_none.mp first s member)
  | some t =>
    have frontOfFirst := Symbol.longest?_isPrefix first
    obtain ⟨_, before, behind, split, missed⟩ := List.find?_eq_some_iff_append.mp first
    apply List.prefix_of_prefix_length_le front frontOfFirst
    have sorted := all_sorted
    rw [split] at sorted member
    rcases List.mem_append.mp member with early | late
    · have unfound := missed s early
      rw [found] at unfound
      cases unfound
    · rcases List.mem_cons.mp late with rfl | late
      · exact Nat.le_refl _
      · exact List.rel_of_pairwise_cons (List.pairwise_append.mp sorted).2.1 late

/-! ## Nothing longer is admitted -/

theorem name_prefix_first {p : List Char} {c : Char} {cs : List Char} (admitted : Matches .name p)
    (front : p <+: c :: cs) : p <+: (first c cs).chars := by
  cases admitted with
  | name start parts =>
    obtain ⟨rfl, tail⟩ := List.cons_prefix_cons.mp front
    rw [first_of_isWordStart (isWordStart_iff.mpr start)]
    exact (List.prefix_cons_inj _).mpr
      (prefix_takeWhile tail fun d member => isWordPart_iff.mpr (parts d member))

theorem symbol_prefix_first {s : Symbol} {c : Char} {cs : List Char}
    (front : s.spelling.toList <+: c :: cs) : s.spelling.toList <+: (first c cs).chars := by
  obtain ⟨d, t, spelled⟩ := List.exists_cons_of_ne_nil s.spelling_ne_nil
  obtain ⟨rfl, _⟩ := List.cons_prefix_cons.mp (spelled ▸ front)
  by_cases single : d = '/' ∧ cs.head? = some '/'
  · obtain ⟨rfl, twice⟩ := single
    obtain ⟨rest, rfl⟩ := List.head?_eq_some_iff.mp twice
    have short : t = [] := by
      cases s <;> cases spelled
      rfl
    rw [first_comment, spelled, short]
    exact List.prefix_append _ _
  · rw [first_symbol s spelled single]
    exact prefix_symbol front

/-- Whatever a rule admits at the front of a text is no longer than its first piece. -/
theorem prefix_first {r : Rule} {p : List Char} {c : Char} {cs : List Char}
    (admitted : Matches r p) (front : p <+: c :: cs) : p <+: (first c cs).chars := by
  cases admitted with
  | blanks some blank =>
    obtain ⟨d, t, rfl⟩ := List.exists_cons_of_ne_nil some
    obtain ⟨rfl, tail⟩ := List.cons_prefix_cons.mp front
    rw [first_of_isSpace (isSpace_iff.mpr (blank d (by simp)))]
    exact (List.prefix_cons_inj _).mpr
      (prefix_takeWhile tail fun e member => isSpace_iff.mpr (blank e (by simp [member])))
  | @comment s sameLine =>
    obtain ⟨rest, whole⟩ := front
    have split : c :: cs = '/' :: '/' :: (s ++ rest) := by rw [← whole]; rfl
    obtain ⟨rfl, rfl⟩ := List.cons.inj split
    rw [first_comment]
    refine (List.prefix_cons_inj _).mpr ((List.prefix_cons_inj _).mpr ?_)
    exact prefix_takeWhile (List.prefix_append s rest) fun e member => by
      simpa using sameLine e member
  | keyword k => exact name_prefix_first (keyword_matches_name k) front
  | name start parts => exact name_prefix_first (.name start parts) front
  | integer digits =>
    obtain ⟨some, digits⟩ := digits
    obtain ⟨d, t, rfl⟩ := List.exists_cons_of_ne_nil some
    obtain ⟨rfl, tail⟩ := List.cons_prefix_cons.mp front
    rw [first_of_isDigit (digits d (by simp))]
    refine List.IsPrefix.trans ((List.prefix_cons_inj _).mpr ?_) (digits_prefix_number d cs)
    exact prefix_takeWhile tail fun e member => digits e (by simp [member])
  | real digits digitsBehind =>
    obtain ⟨some, digits⟩ := digits
    obtain ⟨d, t, rfl⟩ := List.exists_cons_of_ne_nil some
    obtain ⟨rfl, tail⟩ := List.cons_prefix_cons.mp front
    rw [first_of_isDigit (digits d (by simp))]
    exact number_isPrefixOf_real (fun e member => digits e (by simp [member])) digitsBehind tail
  | @string s elements =>
    obtain ⟨rest, whole⟩ := front
    have split : c :: cs = '"' :: (s ++ '"' :: rest) := by rw [← whole]; simp
    obtain ⟨rfl, rfl⟩ := List.cons.inj split
    have first_eq : (first '"' (s ++ '"' :: rest)).chars = '"' :: s ++ ['"'] := by
      rw [first_quote, string_of_elements elements]
    exact first_eq ▸ List.prefix_rfl
  | lineFeed =>
    obtain ⟨rfl, _⟩ := List.cons_prefix_cons.mp front
    exact List.prefix_rfl
  | carriageReturn =>
    obtain ⟨rest, whole⟩ := front
    cases whole
    exact List.prefix_rfl
  | symbol s => exact symbol_prefix_first front

/-- The first piece is the longest if it is admitted at all. -/
theorem longest_first {r : Rule} {c : Char} {cs : List Char} (h : Matches r (first c cs).chars) :
    Longest (first c cs).chars (rest c cs) := by
  refine ⟨⟨r, h⟩, fun r' longer admitted front => ?_⟩
  rw [chars_append_rest] at front
  exact (prefix_first admitted front).length_le

/-! ## What the first piece is -/

/-- What a piece is that is read so. -/
def readingOf : Option Token → Reading
  | none => .skipped
  | some t => .token t

/-- A name that stands alone is a word as a whole. -/
theorem first_name {c : Char} {s : List Char} (h : Matches .name (c :: s)) :
    first c s = word (c :: s) := by
  cases h with
  | name start parts =>
    have tail : s.takeWhile isWordPart = s :=
      List.takeWhile_eq_self_iff.mpr fun d member => isWordPart_iff.mpr (parts d member)
    rw [first_of_isWordStart (isWordStart_iff.mpr start), tail]

/-- A piece that stands alone is read as the rules say. -/
theorem Reads.first_eq {c : Char} {s : List Char} {x : Option Token} (h : Reads (c :: s) x) :
    first c s = ⟨c :: s, readingOf x⟩ := by
  generalize whole : c :: s = p at h
  cases h with
  | blanks piece =>
    cases piece with
    | blanks some blank =>
      subst whole
      have tail : s.takeWhile isSpace = s :=
        List.takeWhile_eq_self_iff.mpr fun d member => isSpace_iff.mpr (blank d (by simp [member]))
      rw [first_of_isSpace (isSpace_iff.mpr (blank c (by simp))), tail, readingOf]
  | comment piece =>
    cases piece with
    | comment sameLine =>
      cases whole
      rw [first_comment, List.takeWhile_eq_self_iff.mpr (by simpa using sameLine), readingOf]
  | keyword k =>
    have name := keyword_matches_name k
    rw [← whole] at name
    rw [first_name name, whole, word_spelling, readingOf]
  | name piece free =>
    subst whole
    rw [first_name piece, word_of_free free, readingOf]
  | integer piece small =>
    cases piece with
    | integer digits =>
      subst whole
      rw [first_of_isDigit (digits.2 c (by simp)),
        number_alone fun d member => digits.2 d (by simp [member])]
      exact integer_of_small small
  | @real ds es digits digitsBehind =>
    obtain ⟨e, es, rfl⟩ := List.exists_cons_of_ne_nil digitsBehind.1
    obtain ⟨d, ds, rfl⟩ := List.exists_cons_of_ne_nil digits.1
    obtain ⟨rfl, rfl⟩ := List.cons.inj whole
    have tail : es.takeWhile Char.isDigit = es :=
      List.takeWhile_eq_self_iff.mpr fun f member => digitsBehind.2 f (by simp [member])
    rw [first_of_isDigit (digits.2 c (by simp)), List.append_eq,
      number_of_digits (fun f member => digits.2 f (by simp [member])) (digitsBehind.2 e (by simp)),
      tail]
    rfl
  | string resolved =>
    obtain ⟨rfl, rfl⟩ := List.cons.inj whole
    rw [first_quote, List.append_eq, string_of_elements resolved.elements, resolved.unescape?_eq]
    rfl
  | newline piece =>
    cases piece <;> cases whole <;> rfl
  | symbol s =>
    cases s <;> cases whole <;> rfl

/-- A text that is rejected where it stands alone is read as nothing. -/
theorem not_reads_of_rejected {c : Char} {s : List Char} (h : (first c s).reading = .rejected)
    (x : Option Token) : ¬ Reads (c :: s) x := by
  intro read
  rw [read.first_eq] at h
  cases x <;> cases h

/-- A text is unmatched if it starts as no rule wants it to. -/
theorem unmatched {c : Char} {cs : List Char} (space : ¬ isSpace c = true)
    (comment : ¬ (c = '/' ∧ cs.head? = some '/')) (start : ¬ isWordStart c = true)
    (digit : ¬ c.isDigit = true) (noString : ∀ s, Elements s → ¬ '"' :: s ++ ['"'] <+: c :: cs)
    (lineFeed : c ≠ '\n') (carriageReturn : ¬ (c = '\r' ∧ cs.head? = some '\n'))
    (symbol : ∀ t : Symbol, ¬ t.spelling.toList <+: c :: cs) : Unmatched (c :: cs) := by
  intro r s admitted front
  have word : ¬ Matches .name s := by
    intro name
    cases name with
    | name initial _ =>
      obtain ⟨rfl, _⟩ := List.cons_prefix_cons.mp front
      exact start (isWordStart_iff.mpr initial)
  have number : ∀ {t u : List Char}, Digits t → ¬ t ++ u <+: c :: cs := by
    intro t u digits front
    obtain ⟨d, t, rfl⟩ := List.exists_cons_of_ne_nil digits.1
    obtain ⟨rfl, _⟩ := List.cons_prefix_cons.mp front
    exact digit (digits.2 d (by simp))
  cases admitted with
  | blanks some blank =>
    obtain ⟨d, t, rfl⟩ := List.exists_cons_of_ne_nil some
    obtain ⟨rfl, _⟩ := List.cons_prefix_cons.mp front
    exact space (isSpace_iff.mpr (blank d (by simp)))
  | comment _ =>
    obtain ⟨rest, whole⟩ := front
    cases whole
    exact comment ⟨rfl, rfl⟩
  | keyword k => exact word (keyword_matches_name k)
  | name initial parts => exact word (.name initial parts)
  | integer digits => exact number (u := []) digits (by rwa [List.append_nil])
  | real digits _ => exact number digits front
  | string elements => exact noString _ elements front
  | lineFeed =>
    obtain ⟨rfl, _⟩ := List.cons_prefix_cons.mp front
    exact lineFeed rfl
  | carriageReturn =>
    obtain ⟨rest, whole⟩ := front
    cases whole
    exact carriageReturn ⟨rfl, rfl⟩
  | symbol t => exact symbol t front

/-- The first piece is read by the rules, or it is what is told of a text that they reject. -/
def Judged (cs : List Char) (p : Piece) : Prop :=
  (∃ x, Reads p.chars x ∧ p.reading = readingOf x) ∨ (Rejects cs p.chars ∧ p.reading = .rejected)

/-- A piece that some rule admits is rejected for what it stands for. -/
theorem judged_of_rejected {r : Rule} {c : Char} {cs s : List Char} {d : Char}
    (first_eq : first c cs = ⟨d :: s, .rejected⟩) (admitted : Matches r (d :: s))
    (alone : (first d s).reading = .rejected) : Judged (c :: cs) (first c cs) := by
  have longest : Longest (first c cs).chars (rest c cs) :=
    longest_first (r := r) (by rw [first_eq]; exact admitted)
  have rejected := Rejects.invalid longest (by
    rw [first_eq]
    exact not_reads_of_rejected alone)
  rw [chars_append_rest] at rejected
  exact .inr ⟨rejected, by rw [first_eq]⟩

theorem judged_word {c : Char} {cs : List Char} (start : isWordStart c = true) :
    Judged (c :: cs) (first c cs) := by
  have name : Matches .name (c :: cs.takeWhile isWordPart) :=
    .name (isWordStart_iff.mp start) fun d member =>
      isWordPart_iff.mp (List.mem_takeWhile_imp member)
  rw [first_of_isWordStart start]
  by_cases free : ∀ k : Keyword, c :: cs.takeWhile isWordPart ≠ k.spelling.toList
  · exact .inl ⟨_, .name name free, by rw [word_of_free free]; rfl⟩
  · simp only [ne_eq, not_forall, not_not] at free
    obtain ⟨k, same⟩ := free
    rw [same, word_spelling]
    exact .inl ⟨_, .keyword k, rfl⟩

theorem judged_number {c : Char} {cs : List Char} (digit : c.isDigit = true) :
    Judged (c :: cs) (first c cs) := by
  have first_eq := first_of_isDigit digit cs
  rcases number_cases digit cs with ⟨s, t, digits, digitsBehind, number_eq⟩ | ⟨s, digits, number_eq⟩
  · rw [first_eq, number_eq]
    exact .inl ⟨_, .real digits digitsBehind, rfl⟩
  · by_cases small : decimal (c :: s) ≤ 2147483647
    · rw [first_eq, number_eq, integer_of_small small]
      exact .inl ⟨_, .integer (.integer digits) small, rfl⟩
    · rw [number_eq, integer_of_large small] at first_eq
      have alone : first c s = integer (c :: s) := by
        rw [first_of_isDigit digit, number_alone fun d member => digits.2 d (by simp [member])]
      exact judged_of_rejected first_eq (.integer digits) (by rw [alone, integer_of_large small])

theorem judged_string (cs : List Char) : Judged ('"' :: cs) (first '"' cs) := by
  by_cases closed : ∃ rest, cs = Piece.elements cs ++ '"' :: rest
  · obtain ⟨rest, split⟩ := closed
    have elements := elements_elements cs
    generalize Piece.elements cs = s at split elements
    subst split
    have first_eq := string_of_elements elements rest
    cases unescaped : unescape? s with
    | some t =>
      rw [unescaped] at first_eq
      rw [first_quote, first_eq]
      exact .inl ⟨_, .string (resolves_of_unescape? elements unescaped), rfl⟩
    | none =>
      rw [unescaped] at first_eq
      have alone : first '"' (s ++ ['"']) = ⟨'"' :: s ++ ['"'], .rejected⟩ := by
        rw [first_quote, string_of_elements elements [], unescaped]
      exact judged_of_rejected first_eq (.string elements) (congrArg reading alone)
  · rw [first_quote, string_of_open closed]
    have never : ∀ s, Elements s → ¬ '"' :: s ++ ['"'] <+: '"' :: cs := by
      intro s elements front
      obtain ⟨rest, whole⟩ := front
      have split : cs = s ++ '"' :: rest := by simpa using (List.cons.inj whole).2.symm
      apply closed
      exact ⟨rest, by rw [split, elements_quote elements]⟩
    have noSymbol : ∀ t : Symbol, ¬ t.spelling.toList <+: '"' :: cs := by
      intro t front
      obtain ⟨rest, whole⟩ := front
      cases t <;> cases whole
    have none : Unmatched ('"' :: cs) :=
      unmatched (by decide) (by simp) (by decide) (by decide) never (by decide) (by simp) noSymbol
    exact .inr ⟨.unclosed none (elements_elements cs) (elements_isPrefix cs)
      fun s elements within => prefix_elements elements within, rfl⟩

/-- The first piece of a text is what the rules say of the text. -/
theorem judged_first (c : Char) (cs : List Char) : Judged (c :: cs) (first c cs) := by
  by_cases space : isSpace c = true
  · rw [first_of_isSpace space]
    refine .inl ⟨_, .blanks (.blanks nofun fun d member => ?_), rfl⟩
    rcases List.mem_cons.mp member with rfl | member
    · exact isSpace_iff.mp space
    · exact isSpace_iff.mp (List.mem_takeWhile_imp member)
  by_cases comment : c = '/' ∧ cs.head? = some '/'
  · obtain ⟨rfl, next⟩ := comment
    obtain ⟨rest, rfl⟩ := List.head?_eq_some_iff.mp next
    rw [first_comment]
    refine .inl ⟨_, .comment (.comment fun d member => ?_), rfl⟩
    simpa using List.mem_takeWhile_imp member
  by_cases start : isWordStart c = true
  · exact judged_word start
  by_cases digit : c.isDigit = true
  · exact judged_number digit
  by_cases quote : c = '"'
  · subst quote
    exact judged_string cs
  by_cases lineFeed : c = '\n'
  · subst lineFeed
    exact .inl ⟨_, .newline .lineFeed, rfl⟩
  by_cases carriageReturn : c = '\r' ∧ cs.head? = some '\n'
  · obtain ⟨rfl, next⟩ := carriageReturn
    obtain ⟨rest, rfl⟩ := List.head?_eq_some_iff.mp next
    exact .inl ⟨_, .newline .carriageReturn, rfl⟩
  have first_eq : first c cs = symbol c cs := by
    simp only [first, space, comment, start, digit, quote, lineFeed, carriageReturn, if_false,
      Bool.and_eq_true, decide_eq_true_eq, Bool.false_eq_true]
  rw [first_eq]
  unfold symbol
  cases found : Symbol.longest? (c :: cs) with
  | some s => exact .inl ⟨_, .symbol s, rfl⟩
  | none =>
    have never : ∀ s, Elements s → ¬ '"' :: s ++ ['"'] <+: c :: cs := by
      intro s _ front
      exact quote (List.cons_prefix_cons.mp front).1.symm
    have noSymbol : ∀ t : Symbol, ¬ t.spelling.toList <+: c :: cs := by
      intro t front
      have member : t ∈ Symbol.all := by cases t <;> decide
      exact List.find?_eq_none.mp found t member (List.isPrefixOf_iff_prefix.mpr front)
    have none := unmatched space comment start digit never lineFeed carriageReturn noSymbol
    exact .inr ⟨.unknown none quote, rfl⟩

/-! ## No other first piece -/

theorem readingOf_injective {x y : Option Token} (h : readingOf x = readingOf y) : x = y := by
  cases x <;> cases y <;> cases h <;> rfl

/-- A piece is read in one way only. -/
theorem Reads.unique {s : List Char} {x y : Option Token} (first : Reads s x) (second : Reads s y) :
    x = y := by
  obtain ⟨r, admitted⟩ := first.exists_matches
  obtain ⟨c, s, rfl⟩ := List.exists_cons_of_ne_nil admitted.ne_nil
  have same := first.first_eq.symm.trans second.first_eq
  exact readingOf_injective (congrArg reading same)

theorem longest_of_first {c : Char} {cs piece behind : List Char} {r : Rule} {x : Reading}
    (first_eq : first c cs = ⟨piece, x⟩) (admitted : Matches r piece)
    (whole : c :: cs = piece ++ behind) : Longest piece behind := by
  have longest := longest_first (first_eq ▸ admitted : Matches r (first c cs).chars)
  have split := chars_append_rest c cs
  rw [first_eq] at longest split
  obtain rfl : rest c cs = behind := List.append_cancel_left (split.trans whole)
  exact longest

/-- A line feed at the front is a piece of its own. -/
theorem longest_feed (cs : List Char) : Longest ['\n'] cs := longest_of_first rfl .lineFeed rfl

/-- The longest piece that a text starts with is its first piece if it is read. -/
theorem first_of_longest {c : Char} {cs piece behind : List Char} {x : Option Token}
    (longest : Longest piece behind) (read : Reads piece x) (whole : piece ++ behind = c :: cs) :
    first c cs = ⟨piece, readingOf x⟩ ∧ rest c cs = behind := by
  have parts := whole.trans (chars_append_rest c cs).symm
  rcases judged_first c cs with ⟨y, read', reading_eq⟩ | ⟨rejected, _⟩
  · obtain ⟨r, admitted⟩ := read'.exists_matches
    obtain ⟨rfl, rfl⟩ := longest.unique (longest_first admitted) parts
    exact ⟨by rw [read.unique read', ← reading_eq], rfl⟩
  · rw [← whole] at rejected
    exact absurd read (rejected.not_reads longest)

/-- What is told of a text that the rules reject is its first piece. -/
theorem first_of_rejects {c : Char} {cs lexeme : List Char} (rejected : Rejects (c :: cs) lexeme) :
    first c cs = ⟨lexeme, .rejected⟩ := by
  rcases judged_first c cs with ⟨x, read, _⟩ | ⟨rejected', reading_eq⟩
  · obtain ⟨r, admitted⟩ := read.exists_matches
    rw [← chars_append_rest] at rejected
    exact absurd read (rejected.not_reads (longest_first admitted))
  · rw [rejected.unique rejected', ← reading_eq]

end Pseudocode.Scanning
