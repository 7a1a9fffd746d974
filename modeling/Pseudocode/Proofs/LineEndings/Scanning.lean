import Pseudocode.Proofs.LineEndings.Texts
import Pseudocode.Proofs.Parsing.Shifts

/-! # The tokens of a text with carriage returns

A carriage return stands in front of a line feed, and both are one piece. But a comment takes all
that there is on its line, so behind a comment the line feed alone is the end of the line, and it
stands one column further.

* `BehindComment text p`: the place is that of a line feed right behind a comment.
* `first_withReturns`: the first piece of a text is the same but for line feeds and comments.
* `returnedBehind`: the tokens are the same, at places that `placed` tells.
-/

namespace Pseudocode

open Text Piece

namespace Scanning

/-! ## Characters -/

section

variable {P : Char → Bool} (feed : P '\n' = false) (back : P '\r' = false)

include feed back

theorem takeWhile_withReturns (cs : List Char) :
    (withReturns cs).takeWhile P = cs.takeWhile P := by
  induction cs with
  | nil => rfl
  | cons c cs ih =>
    by_cases same : c = '\n'
    · subst same
      rw [withReturns_feed, List.takeWhile_cons_of_neg (by simp [back]),
        List.takeWhile_cons_of_neg (by simp [feed])]
    · rw [withReturns_cons same, List.takeWhile_cons, List.takeWhile_cons, ih]

theorem dropWhile_withReturns (cs : List Char) :
    (withReturns cs).dropWhile P = withReturns (cs.dropWhile P) := by
  induction cs with
  | nil => rfl
  | cons c cs ih =>
    by_cases same : c = '\n'
    · subst same
      rw [withReturns_feed, List.dropWhile_cons_of_neg (by simp [back]),
        List.dropWhile_cons_of_neg (by simp [feed]), withReturns_feed]
    · rw [withReturns_cons same, List.dropWhile_cons, List.dropWhile_cons, ih]
      split
      · rfl
      · rw [withReturns_cons same]

end

/-- The text starts with what it started with before, unless that is cut in front of a line feed. -/
theorem split_withReturns {cs s t : List Char} (split : withReturns cs = s ++ t) (noFeed : '\n' ∉ s)
    (other : t.head? ≠ some '\n') : ∃ t', cs = s ++ t' ∧ t = withReturns t' := by
  induction s generalizing cs with
  | nil => exact ⟨cs, rfl, split.symm⟩
  | cons c s ih =>
    obtain ⟨first, rest⟩ := not_or.mp (List.mem_cons.not.mp noFeed)
    cases cs with
    | nil => cases split
    | cons d cs =>
      by_cases same : d = '\n'
      · subst same
        rw [withReturns_feed, List.cons_append] at split
        obtain ⟨-, behind⟩ := List.cons.inj split
        cases s with
        | nil => exact absurd (congrArg List.head? behind.symm) other
        | cons e s =>
          obtain ⟨rfl, -⟩ := List.cons.inj behind
          exact absurd List.mem_cons_self rest
      · rw [withReturns_cons same, List.cons_append] at split
        obtain ⟨rfl, tail⟩ := List.cons.inj split
        obtain ⟨t', rfl, behind⟩ := ih tail rest
        exact ⟨t', rfl, behind⟩

theorem prefix_withReturns {cs s : List Char} (noFeed : '\n' ∉ s) (noReturn : '\r' ∉ s) :
    s <+: withReturns cs ↔ s <+: cs := by
  induction s generalizing cs with
  | nil => simp
  | cons c s ih =>
    obtain ⟨feed, noFeed⟩ := not_or.mp (List.mem_cons.not.mp noFeed)
    obtain ⟨back, noReturn⟩ := not_or.mp (List.mem_cons.not.mp noReturn)
    cases cs with
    | nil => rfl
    | cons d cs =>
      by_cases same : d = '\n'
      · subst same
        rw [withReturns_feed, List.cons_prefix_cons, List.cons_prefix_cons]
        exact ⟨fun h => absurd h.1.symm back, fun h => absurd h.1.symm feed⟩
      · rw [withReturns_cons same, List.cons_prefix_cons, List.cons_prefix_cons,
          ih noFeed noReturn]

theorem head?_withReturns {cs : List Char} {c : Char} (feed : c ≠ '\n') (back : c ≠ '\r') :
    (withReturns cs).head? = some c ↔ cs.head? = some c := by
  cases cs with
  | nil => rfl
  | cons d cs =>
    by_cases same : d = '\n'
    · subst same
      simp [withReturns_feed, feed.symm, back.symm]
    · rw [withReturns_cons same]
      rfl

/-! ## Pieces -/

theorem longest?_withReturns (cs : List Char) :
    Symbol.longest? (withReturns cs) = Symbol.longest? cs := by
  refine congrArg (List.find? · Symbol.all) (funext fun s => ?_)
  rw [Bool.eq_iff_iff, List.isPrefixOf_iff_prefix, List.isPrefixOf_iff_prefix]
  exact prefix_withReturns (by cases s <;> decide) (by cases s <;> decide)

theorem symbol_withReturns {c : Char} (noFeed : c ≠ '\n') (cs : List Char) :
    symbol c (withReturns cs) = symbol c cs := by
  rw [symbol, symbol, ← withReturns_cons noFeed, longest?_withReturns]

/-- A point belongs to a number only if a digit follows, which no end of a line is. -/
theorem number_withReturns (c : Char) (cs : List Char) :
    number c (withReturns cs) = number c cs := by
  have digits := takeWhile_withReturns (P := Char.isDigit) (by decide) (by decide) cs
  have behind := dropWhile_withReturns (P := Char.isDigit) (by decide) (by decide) cs
  unfold number
  simp only [digits, behind]
  generalize cs.dropWhile Char.isDigit = tail
  rcases tail with _ | ⟨d, tail⟩
  · rfl
  by_cases feed : d = '\n'
  · subst feed
    rfl
  rw [withReturns_cons feed]
  by_cases point : d = '.'
  · subst point
    rcases tail with _ | ⟨e, tail⟩
    · rfl
    by_cases feed : e = '\n'
    · subst feed
      rfl
    · simp only [withReturns_cons feed,
        takeWhile_withReturns (P := Char.isDigit) (by decide) (by decide)]
  · split
    · next same => exact absurd (List.cons.inj same).1 point
    · split
      · next same => exact absurd (List.cons.inj same).1 point
      · rfl

/-- A string that is closed ends on its line. One that is not takes the carriage return, but is
    rejected anyway. -/
theorem string_withReturns (cs : List Char) : string (withReturns cs) = string cs ∨
    (string (withReturns cs)).reading = .rejected ∧ (string cs).reading = .rejected := by
  by_cases closed : ∃ rest, cs = Piece.elements cs ++ '"' :: rest
  · obtain ⟨rest, split⟩ := closed
    have inside := elements_elements cs
    generalize Piece.elements cs = s at split inside
    subst split
    left
    rw [withReturns_append, withReturns_of_noFeed inside.noFeed, withReturns_cons (by decide),
      string_of_elements inside, string_of_elements inside]
  · have stillOpen : ¬ ∃ rest,
        withReturns cs = Piece.elements (withReturns cs) ++ '"' :: rest := by
      rintro ⟨rest, split⟩
      have inside := elements_elements (withReturns cs)
      generalize Piece.elements (withReturns cs) = s at split inside
      obtain ⟨t, rfl, behind⟩ := split_withReturns split inside.noFeed (by simp)
      have quote : (withReturns t).head? = some '"' := (congrArg List.head? behind).symm
      obtain ⟨rest, rfl⟩ := List.head?_eq_some_iff.mp
        ((head?_withReturns (by decide) (by decide)).mp quote)
      exact closed ⟨rest, by rw [elements_quote inside]⟩
    rw [string_of_open closed, string_of_open stillOpen]
    exact .inr ⟨rfl, rfl⟩

/-- The first piece is the same unless it is a comment or the end of a line. -/
theorem first_withReturns {c : Char} {cs : List Char} (noFeed : c ≠ '\n') (noReturn : c ≠ '\r')
    (noComment : ¬ (c = '/' ∧ cs.head? = some '/')) :
    first c (withReturns cs) = first c cs ∨
      (first c (withReturns cs)).reading = .rejected ∧ (first c cs).reading = .rejected := by
  by_cases space : isSpace c = true
  · left
    rw [first_of_isSpace space, first_of_isSpace space, takeWhile_withReturns rfl rfl]
  by_cases start : isWordStart c = true
  · left
    rw [first_of_isWordStart start, first_of_isWordStart start,
      takeWhile_withReturns (by decide) (by decide)]
  by_cases digit : c.isDigit = true
  · left
    rw [first_of_isDigit digit, first_of_isDigit digit, number_withReturns]
  by_cases quote : c = '"'
  · subst quote
    rw [first_quote, first_quote]
    exact string_withReturns cs
  · have noComment' : ¬ (c = '/' ∧ (withReturns cs).head? = some '/') := fun h =>
      noComment ⟨h.1, (head?_withReturns (by decide) (by decide)).mp h.2⟩
    have other (cs : List Char) (noComment : ¬ (c = '/' ∧ cs.head? = some '/')) :
        first c cs = symbol c cs := by
      simp only [first, space, start, digit, quote, noFeed, noReturn, noComment, if_false,
        Bool.and_eq_true, decide_eq_true_eq, Bool.false_eq_true, false_and]
    left
    rw [other _ noComment', other _ noComment, symbol_withReturns noFeed]

/-- What is read is on one line, unless it is the end of a line. -/
theorem Reads.noFeed {s : List Char} {x : Option Token} (read : Reads s x)
    (other : x ≠ some .newline) : '\n' ∉ s := by
  obtain ⟨r, admitted⟩ := read.exists_matches
  refine admitted.noFeed ?_
  rintro rfl
  exact other (read.unique (.newline admitted))

/-! ## Cuts -/

variable {cs rest rest' : List Char} {pieces pieces' : List (List Char)}

theorem Cuts.snoc {piece : List Char} (cuts : Cuts cs pieces (piece ++ rest))
    (longest : Longest piece rest) : Cuts cs (pieces ++ [piece]) rest := by
  generalize whole : piece ++ rest = last at cuts
  induction cuts with
  | nil => exact whole ▸ .cons longest .nil
  | cons first _ ih => exact .cons first (ih whole)

theorem Longest.byteCount_pos {piece : List Char} (longest : Longest piece rest) :
    0 < byteCount piece := by
  obtain ⟨⟨_, admitted⟩, _⟩ := longest
  obtain ⟨c, s, rfl⟩ := List.exists_cons_of_ne_nil admitted.ne_nil
  exact Nat.lt_of_lt_of_le c.utf8Size_pos (Nat.le_add_right _ _)

/-- A text is cut in one way up to a place. -/
theorem Cuts.unique (first : Cuts cs pieces rest) (second : Cuts cs pieces' rest')
    (same : byteCount pieces.flatten = byteCount pieces'.flatten) :
    pieces = pieces' ∧ rest = rest' := by
  induction first generalizing pieces' with
  | nil =>
    cases second with
    | nil => exact ⟨rfl, rfl⟩
    | cons longest _ =>
      have := longest.byteCount_pos
      rw [List.flatten_nil, List.flatten_cons, byteCount_append] at same
      exact absurd same (by simp only [byteCount]; omega)
  | @cons piece behind _ _ longest _ ih =>
    generalize whole : piece ++ behind = text at second
    cases second with
    | nil =>
      have := longest.byteCount_pos
      rw [List.flatten_nil, List.flatten_cons, byteCount_append] at same
      exact absurd same (by simp only [byteCount]; omega)
    | cons longest' more =>
      obtain ⟨rfl, rfl⟩ := longest.unique longest' whole
      rw [List.flatten_cons, List.flatten_cons, byteCount_append, byteCount_append] at same
      obtain ⟨rfl, rfl⟩ := ih more (Nat.add_left_cancel same)
      exact ⟨rfl, rfl⟩

/-- The last piece is a comment. -/
def EndsInComment (pieces : List (List Char)) : Prop :=
  ∃ front comment, pieces = front ++ [comment] ∧ Matches .comment comment

theorem endsInComment_snoc {piece : List Char} :
    EndsInComment (pieces ++ [piece]) ↔ Matches .comment piece := by
  constructor
  · rintro ⟨front, comment, same, admitted⟩
    obtain ⟨-, last⟩ := List.append_inj' same rfl
    exact (List.cons.inj last).1 ▸ admitted
  · exact fun admitted => ⟨pieces, piece, rfl, admitted⟩

theorem not_endsInComment_nil : ¬ EndsInComment [] := by
  rintro ⟨front, comment, same, _⟩
  exact List.append_ne_nil_of_right_ne_nil front (List.cons_ne_nil _ _) same.symm

theorem not_endsInComment_feed : ¬ EndsInComment (pieces ++ [['\n']]) := by
  intro ends
  cases endsInComment_snoc.mp ends

end Scanning

open Scanning

/-- The place is that of a line feed right behind a comment. -/
def BehindComment (text : String) (p : Position) : Prop :=
  ∃ pieces rest, Cuts text.toList pieces ('\n' :: rest) ∧ EndsInComment pieces ∧
    p = Position.start.after pieces.flatten

theorem behindComment_iff {text : String} {pieces : List (List Char)} {rest : List Char}
    (cuts : Cuts text.toList pieces rest) :
    BehindComment text (Position.start.after pieces.flatten) ↔
      EndsInComment pieces ∧ rest.head? = some '\n' := by
  constructor
  · rintro ⟨pieces', rest', cuts', comment, same⟩
    have bytes := congrArg Position.offset same
    rw [Position.offset_after, Position.offset_after] at bytes
    obtain ⟨rfl, rfl⟩ := cuts.unique cuts' (Nat.add_left_cancel bytes)
    exact ⟨comment, rfl⟩
  · rintro ⟨comment, feed⟩
    obtain ⟨rest, rfl⟩ := List.head?_eq_some_iff.mp feed
    exact ⟨pieces, rest, cuts, comment, rfl⟩

open Classical in
/-- Where the end of a line stands in the text with carriage returns. -/
noncomputable def placed (text : String) (p : Position) : Position :=
  if BehindComment text p then p.returned.advance '\r' else p.returned

theorem placed_behind {text : String} {p : Position} (behind : BehindComment text p) :
    placed text p = p.returned.advance '\r' := if_pos behind

theorem placed_elsewhere {text : String} {p : Position} (elsewhere : ¬ BehindComment text p) :
    placed text p = p.returned := if_neg elsewhere

namespace Scanning

/-! ## Scans -/

/-- The tokens are the same, and what is rejected stands at the same place. -/
structure Returned (text : String) (s s' : Scan) : Prop where
  tokens : s'.tokens = s.tokens.map (Located.shift Position.returned (placed text))
  rejected : s'.rejected.map Prod.fst = s.rejected.map fun found => found.1.returned

theorem returned_after (front piece : List Char) :
    (Position.start.after front).returned.after (withReturns piece) =
      (Position.start.after (front ++ piece)).returned := by
  rw [← Position.start_after_withReturns, ← Position.start_after_withReturns, withReturns_append,
    Position.after_append]

section

variable {text : String} {pos : Position} {s s' : Scan}

theorem Returned.push {x : Option Token} (returned : Returned text s s')
    (other : x ≠ some .newline) : Returned text (push pos x s) (push pos.returned x s') := by
  cases x with
  | none => exact returned
  | some t =>
    refine ⟨?_, returned.rejected⟩
    show (⟨t, _⟩ : Located) :: s'.tokens = Located.shift _ _ ⟨t, pos⟩ :: _
    rw [Located.shift_of_ne _ _ fun same => other (congrArg some same), returned.tokens]

theorem Returned.newline (returned : Returned text s s') :
    Returned text (Scanning.push pos (some .newline) s)
      (Scanning.push (placed text pos) (some .newline) s') := by
  refine ⟨?_, returned.rejected⟩
  show (⟨.newline, _⟩ : Located) :: s'.tokens = Located.shift _ _ ⟨.newline, pos⟩ :: _
  rw [returned.tokens]
  rfl

end

/-! ## Line feeds and comments -/

theorem longest_return (cs : List Char) : Longest ['\r', '\n'] cs :=
  longest_of_first rfl .carriageReturn rfl

/-- A comment goes on to the line feed. -/
theorem longest_comment {s behind : List Char} (noFeed : '\n' ∉ s) (stops : untilFeed behind = []) :
    Longest ('/' :: '/' :: s) behind := by
  have whole : untilFeed (s ++ behind) = s := by
    rw [untilFeed_append noFeed, stops, List.append_nil]
  have first_eq : first '/' ('/' :: (s ++ behind)) = ⟨'/' :: '/' :: s, .skipped⟩ :=
    (first_comment _).trans (congrArg (fun line => Piece.mk ('/' :: '/' :: line) .skipped) whole)
  exact longest_of_first first_eq (.comment fun c member same => noFeed (same ▸ member)) rfl

theorem reads_comment {s : List Char} (noFeed : '\n' ∉ s) : Reads ('/' :: '/' :: s) none :=
  .comment (.comment fun _ member same => noFeed (same ▸ member))

theorem scan_feed (pos : Position) (cs : List Char) : Scan.counted pos ('\n' :: cs) =
    push pos (some .newline) (Scan.counted (pos.after ['\n']) cs) :=
  counted_append (longest_feed cs) (.newline .lineFeed)

theorem scan_return (pos : Position) (cs : List Char) : Scan.counted pos ('\r' :: '\n' :: cs) =
    push pos (some .newline) (Scan.counted (pos.after ['\r', '\n']) cs) :=
  counted_append (longest_return cs) (.newline .carriageReturn)

theorem scan_comment (pos : Position) {s behind : List Char} (noFeed : '\n' ∉ s)
    (stops : untilFeed behind = []) : Scan.counted pos ('/' :: '/' :: s ++ behind) =
      Scan.counted (pos.after ('/' :: '/' :: s)) behind :=
  counted_append (longest_comment noFeed stops) (reads_comment noFeed)

theorem Reads.eq_newline {s : List Char} (read : Reads s (some .newline)) :
    s = ['\n'] ∨ s = ['\r', '\n'] := by
  generalize same : some Token.newline = x at read
  cases read with
  | newline piece =>
    cases piece with
    | lineFeed => exact .inl rfl
    | carriageReturn => exact .inr rfl
  | _ => cases same

/-! ## Whole texts -/

section

variable {text : String} {front : List (List Char)} {c : Char} {cs : List Char}

/-- Behind these pieces the tokens of both texts are the same. -/
def ReturnedBehind (text : String) (front : List (List Char)) (cs : List Char) : Prop :=
  Returned text (Scan.counted (Position.start.after front.flatten) cs)
    (Scan.counted (Position.start.after front.flatten).returned (withReturns cs))

/-- The scan goes on behind a line feed. -/
theorem ReturnedBehind.feed (behind : ReturnedBehind text (front ++ [['\n']]) cs) :
    Returned text (Scan.counted (Position.start.after front.flatten) ('\n' :: cs))
      (push (placed text (Position.start.after front.flatten)) (some .newline)
        (Scan.counted ((Position.start.after front.flatten).returned.after ['\r', '\n'])
          (withReturns cs))) := by
  rw [ReturnedBehind, List.flatten_append, List.flatten_singleton, ← returned_after,
    Position.after_append] at behind
  rw [scan_feed]
  exact behind.newline

/-- A line feed that is not behind a comment is one piece with its carriage return. -/
theorem ReturnedBehind.lineEnd (behind : ReturnedBehind text (front ++ [['\n']]) cs)
    (elsewhere : ¬ BehindComment text (Position.start.after front.flatten)) :
    ReturnedBehind text front ('\n' :: cs) := by
  have fed := behind.feed
  rw [placed_elsewhere elsewhere, ← scan_return] at fed
  exact fed

/-- A comment takes the carriage return, and the line feed that ends it is a piece of its own. -/
theorem ReturnedBehind.comment {s : List Char} (noFeed : '\n' ∉ s)
    (cuts : Cuts text.toList (front ++ ['/' :: '/' :: s]) ('\n' :: cs))
    (behind : ReturnedBehind text (front ++ ['/' :: '/' :: s] ++ [['\n']]) cs) :
    ReturnedBehind text front ('/' :: '/' :: s ++ '\n' :: cs) := by
  have comment : Matches .comment ('/' :: '/' :: s) :=
    .comment fun _ member same => noFeed (same ▸ member)
  have fed := behind.feed
  rw [placed_behind ((behindComment_iff cuts).mpr ⟨endsInComment_snoc.mpr comment, rfl⟩),
    List.flatten_append, List.flatten_singleton] at fed
  have line : '\n' ∉ '/' :: '/' :: s := (reads_comment noFeed).noFeed nofun
  have noFeed' : '\n' ∉ s ++ ['\r'] := by simpa using noFeed
  have passed : (Position.start.after front.flatten).returned.after ('/' :: '/' :: (s ++ ['\r'])) =
      (Position.start.after (front.flatten ++ '/' :: '/' :: s)).returned.advance '\r' := by
    rw [← returned_after, withReturns_of_noFeed line]
    exact Position.after_append _ ('/' :: '/' :: s) ['\r']
  have whole : withReturns ('/' :: '/' :: s ++ '\n' :: cs) =
      '/' :: '/' :: (s ++ ['\r']) ++ '\n' :: withReturns cs := by
    rw [withReturns_append, withReturns_of_noFeed line, withReturns_feed]
    simp
  rw [ReturnedBehind, whole, scan_comment _ noFeed (untilFeed_feed cs),
    scan_comment _ noFeed' (untilFeed_feed _), passed, ← Position.after_append,
    scan_feed _ (withReturns cs)]
  exact fed

theorem returnedBehind_lastComment {s : List Char} (noFeed : '\n' ∉ s) :
    ReturnedBehind text front ('/' :: '/' :: s) := by
  have whole (pos : Position) := scan_comment pos noFeed (untilFeed_of_noFeed List.not_mem_nil)
  simp only [List.append_nil] at whole
  rw [ReturnedBehind, withReturns_of_noFeed ((reads_comment noFeed).noFeed nofun), whole, whole,
    Scan.counted, Scan.counted]
  exact ⟨rfl, rfl⟩

/-- The scan goes on behind a piece that is the same in both texts. -/
theorem ReturnedBehind.piece {x : Option Token} (noFeed : c ≠ '\n') (other : x ≠ some .newline)
    (read : Reads (first c cs).chars x) (reading_eq : (first c cs).reading = readingOf x)
    (same : first c (withReturns cs) = first c cs)
    (behind : ReturnedBehind text (front ++ [(first c cs).chars]) (rest c cs)) :
    ReturnedBehind text front (c :: cs) := by
  have first_eq : first c cs = ⟨(first c cs).chars, readingOf x⟩ := by rw [← reading_eq]
  have line := withReturns_of_noFeed (read.noFeed other)
  have left : rest c (withReturns cs) = withReturns (rest c cs) := by
    have whole := congrArg withReturns (chars_append_rest c cs)
    rw [withReturns_append, line, withReturns_cons noFeed, ← chars_append_rest, same] at whole
    exact (List.append_cancel_left whole).symm
  rw [ReturnedBehind, List.flatten_append, List.flatten_singleton, ← returned_after, line,
    Position.after_append] at behind
  rw [ReturnedBehind, withReturns_cons noFeed, counted_of_first first_eq,
    counted_of_first (same.trans first_eq), left]
  exact behind.push other

theorem returnedBehind_rejected (noFeed : c ≠ '\n') (rejected : (first c cs).reading = .rejected)
    (rejected' : (first c (withReturns cs)).reading = .rejected) :
    ReturnedBehind text front (c :: cs) := by
  have stops {cs : List Char} (pos : Position) (rejected : (first c cs).reading = .rejected) :
      Scan.counted pos (c :: cs) = ⟨[], some (pos, (first c cs).chars)⟩ :=
    counted_of_rejected (by rw [← rejected])
  rw [ReturnedBehind, withReturns_cons noFeed, stops _ rejected, stops _ rejected']
  exact ⟨rfl, rfl⟩

/-- Neither the end of a line nor a comment stands here, so the first piece is the same in both
    texts, or is rejected in both. -/
theorem ReturnedBehind.other (noFeed : c ≠ '\n') (noReturn : c ≠ '\r')
    (noComment : ¬ (c = '/' ∧ cs.head? = some '/'))
    (behind : ∀ x, Reads (first c cs).chars x →
      ReturnedBehind text (front ++ [(first c cs).chars]) (rest c cs)) :
    ReturnedBehind text front (c :: cs) := by
  obtain same | ⟨rejected', rejected⟩ := first_withReturns noFeed noReturn noComment
  · rcases judged_first c cs with ⟨x, read, reading_eq⟩ | ⟨_, rejected⟩
    · have other : x ≠ some .newline := by
        rintro rfl
        obtain ⟨s, _, start⟩ := first_isPrefix c cs
        obtain line | line := (start ▸ read).eq_newline
        · exact noFeed (List.cons.inj line).1
        · exact noReturn (List.cons.inj line).1
      exact (behind x read).piece noFeed other read reading_eq same
    · exact returnedBehind_rejected noFeed rejected (same ▸ rejected)
  · exact returnedBehind_rejected noFeed rejected rejected'

theorem not_matches_comment (noComment : ¬ (c = '/' ∧ cs.head? = some '/')) :
    ¬ Matches .comment (first c cs).chars := by
  intro piece
  obtain ⟨s, _, start⟩ := first_isPrefix c cs
  have split := chars_append_rest c cs
  rw [start] at split piece
  cases piece
  obtain ⟨-, tail⟩ := List.cons.inj split
  exact noComment ⟨rfl, congrArg List.head? tail.symm⟩

/-- The tokens behind some pieces are the same, if a comment and the line feed behind it are not
    torn apart. -/
theorem returnedBehind (cuts : Cuts text.toList front cs) (noReturn : '\r' ∉ cs)
    (together : EndsInComment front → cs.head? ≠ some '\n') : ReturnedBehind text front cs := by
  induction size : cs.length using Nat.strong_induction_on generalizing front cs with
  | _ n ih =>
    cases cs with
    | nil =>
      rw [ReturnedBehind, withReturns_nil, Scan.counted, Scan.counted]
      exact ⟨rfl, rfl⟩
    | cons c cs =>
      obtain ⟨back, noReturn'⟩ := not_or.mp (List.mem_cons.not.mp noReturn)
      by_cases feed : c = '\n'
      · subst feed
        have later : ReturnedBehind text (front ++ [['\n']]) cs :=
          ih cs.length (by simp [← size]) (cuts.snoc (longest_feed cs)) noReturn'
            (absurd · not_endsInComment_feed) rfl
        exact later.lineEnd fun behind => together ((behindComment_iff cuts).mp behind).1 rfl
      by_cases comment : c = '/' ∧ cs.head? = some '/'
      · obtain ⟨rfl, next⟩ := comment
        obtain ⟨line, rfl⟩ := List.head?_eq_some_iff.mp next
        obtain noFeed | ⟨s, t, rfl, noFeed⟩ := feed_cases line
        · exact returnedBehind_lastComment noFeed
        · have cutComment := cuts.snoc (longest_comment noFeed (untilFeed_feed t))
          have shorter : t.length < n := by
            simp only [← size, List.length_cons, List.length_append]
            omega
          exact .comment noFeed cutComment (ih t.length shorter
            (cutComment.snoc (longest_feed t)) (fun member => noReturn (by simp [member]))
            (absurd · not_endsInComment_feed) rfl)
      · refine .other feed (Ne.symm back) comment fun x read => ?_
        obtain ⟨r, admitted⟩ := read.exists_matches
        have split := chars_append_rest c cs
        have shorter : (rest c cs).length < n := by
          rw [← size]
          exact Nat.lt_succ_of_le (length_rest_le c cs)
        exact ih _ shorter (Cuts.snoc (split ▸ cuts) (longest_first admitted))
          (fun member => noReturn (split ▸ List.mem_append_right _ member))
          (fun ends => absurd (endsInComment_snoc.mp ends) (not_matches_comment comment)) rfl

theorem scan_crlf {text : String} (noReturn : '\r' ∉ text.toList) :
    Returned text (Scan.counted .start text.toList) (Scan.counted .start (crlf text).toList) := by
  rw [toList_crlf]
  exact returnedBehind .nil noReturn (absurd · not_endsInComment_nil)

end

end Scanning

end Pseudocode
