import Pseudocode.Proofs.Places.Lines
import Pseudocode.Proofs.Scanning.Pieces
import Pseudocode.Token.Scan

/-! # The tokens of a text

A scan cuts a text into the longest pieces as long as they are valid, and its tokens are what these
are read as. `Found` says so of a scan, and it is true of one scan only.

* `Scan.counted`: the scan as it counts lines and columns on the way. The places that the table of
  lines tells are the same (`ofChars_eq_counted`).
* `found_counted`, `Found.eq_counted`: what is true of the scan of a text, and only of that.
* `Yields.sorted`: the places of the tokens go up.
* `tokenize_longest_pieces`: a text is tokenized if and only if it is cut into valid pieces, and
  otherwise the first place where no valid piece starts is told.
-/

namespace Pseudocode

/-- The scan of what is left of a text, which counts the places on the way. -/
def Scan.counted (pos : Position) : List Char → Scan
  | [] => ⟨[], none⟩
  | c :: cs =>
    let piece := Piece.first c cs
    match piece.reading with
    | .skipped => counted (pos.after piece.chars) (Piece.rest c cs)
    | .token t => cons ⟨t, pos⟩ (counted (pos.after piece.chars) (Piece.rest c cs))
    | .rejected => ⟨[], some (pos, piece.chars)⟩
termination_by cs => cs.length
decreasing_by all_goals exact Nat.lt_succ_of_le (Piece.length_rest_le c cs)

namespace Scanning

open Piece Text

/-- The table of lines tells the places that are counted. -/
theorem ofChars_eq_counted {text : String} {before after : List Char}
    (split : text.toList = before ++ after) :
    Scan.ofChars (Lines.ofText text).position (byteCount before) after =
      Scan.counted (Position.start.after before) after := by
  induction h : after.length using Nat.strong_induction_on generalizing before after with
  | _ n ih =>
    cases after with
    | nil => rw [Scan.ofChars, Scan.counted]
    | cons c cs =>
      have further : text.toList = before ++ (first c cs).chars ++ rest c cs := by
        rw [split, List.append_assoc, chars_append_rest]
      have behind := ih (rest c cs).length (h ▸ Nat.lt_succ_of_le (length_rest_le c cs)) further rfl
      rw [byteCount_append, Position.after_append] at behind
      rw [Scan.ofChars, Scan.counted, Lines.position_ofText split]
      cases (first c cs).reading <;> simp only [behind]

/-- The text has been cut up to its end, or up to a place where it is rejected. -/
inductive Stops (pos : Position) : List Char → Option (Position × List Char) → Prop where
  | finished : Stops pos [] none
  | rejected {rest lexeme : List Char} (h : Rejects rest lexeme) :
      Stops pos rest (some (pos, lexeme))

/-- The scan of a text that starts at `pos`, as the rules have it. -/
def Found (pos : Position) (cs : List Char) (s : Scan) : Prop :=
  ∃ pieces rest, Cuts cs pieces rest ∧ Yields pos pieces s.tokens ∧
    Stops (pos.after pieces.flatten) rest s.rejected

/-- What a scan finds behind its first piece. -/
def push (pos : Position) : Option Token → Scan → Scan
  | none, s => s
  | some t, s => s.cons ⟨t, pos⟩

theorem counted_of_first {pos : Position} {c : Char} {cs piece : List Char} {x : Option Token}
    (first_eq : first c cs = ⟨piece, readingOf x⟩) :
    Scan.counted pos (c :: cs) = push pos x (Scan.counted (pos.after piece) (rest c cs)) := by
  rw [Scan.counted]
  cases x <;> simp only [first_eq, readingOf, push]

/-- A scan goes past a piece that is read. -/
theorem counted_append {pos : Position} {piece behind : List Char} {x : Option Token}
    (longest : Longest piece behind) (read : Reads piece x) :
    Scan.counted pos (piece ++ behind) = push pos x (Scan.counted (pos.after piece) behind) := by
  obtain ⟨_, admitted⟩ := longest.1
  obtain ⟨c, t, rfl⟩ := List.exists_cons_of_ne_nil admitted.ne_nil
  obtain ⟨first_eq, rest_eq⟩ := first_of_longest longest read List.cons_append
  rw [List.cons_append, counted_of_first first_eq, rest_eq]

theorem counted_of_rejected {pos : Position} {c : Char} {cs lexeme : List Char}
    (first_eq : first c cs = ⟨lexeme, .rejected⟩) :
    Scan.counted pos (c :: cs) = ⟨[], some (pos, lexeme)⟩ := by
  rw [Scan.counted]
  simp only [first_eq]

theorem Yields.push {pos : Position} {piece : List Char} {pieces : List (List Char)}
    {x : Option Token} {s : Scan} (read : Reads piece x)
    (more : Yields (pos.after piece) pieces s.tokens) :
    Yields pos (piece :: pieces) (push pos x s).tokens := by
  cases x with
  | none => exact .skip read more
  | some t => exact .token read more

@[simp] theorem push_rejected (pos : Position) (x : Option Token) (s : Scan) :
    (push pos x s).rejected = s.rejected := by
  cases x <;> rfl

/-- One more piece in front. -/
theorem Found.push {pos : Position} {piece behind : List Char} {x : Option Token} {s : Scan}
    (longest : Longest piece behind) (read : Reads piece x)
    (found : Found (pos.after piece) behind s) : Found pos (piece ++ behind) (push pos x s) := by
  obtain ⟨pieces, last, cuts, yields, stops⟩ := found
  refine ⟨piece :: pieces, last, .cons longest cuts, yields.push read, ?_⟩
  rw [push_rejected, List.flatten_cons, Position.after_append]
  exact stops

/-- The scan of a text is as the rules have it. -/
theorem found_counted (pos : Position) (cs : List Char) : Found pos cs (Scan.counted pos cs) := by
  induction h : cs.length using Nat.strong_induction_on generalizing pos cs with
  | _ n ih =>
    cases cs with
    | nil =>
      rw [Scan.counted]
      exact ⟨[], [], .nil, .nil, .finished⟩
    | cons c cs =>
      rcases judged_first c cs with ⟨x, read, reading_eq⟩ | ⟨rejected, _⟩
      · obtain ⟨r, admitted⟩ := read.exists_matches
        have first_eq : first c cs = ⟨(first c cs).chars, readingOf x⟩ := by rw [← reading_eq]
        have shorter : (rest c cs).length < n := by
          rw [← h]
          exact Nat.lt_succ_of_le (length_rest_le c cs)
        have found := (ih _ shorter (pos.after (first c cs).chars) (rest c cs) rfl).push
          (longest_first admitted) read
        rwa [chars_append_rest, ← counted_of_first first_eq] at found
      · rw [counted_of_rejected (first_of_rejects rejected)]
        exact ⟨[], c :: cs, .nil, .nil, .rejected rejected⟩

/-- No other scan of a text is as the rules have it. -/
theorem Found.eq_counted {pos : Position} {cs : List Char} {s : Scan} (h : Found pos cs s) :
    s = Scan.counted pos cs := by
  obtain ⟨pieces, last, cuts, yields, stops⟩ := h
  obtain ⟨tokens, rejected⟩ := s
  dsimp only at yields stops
  -- On the pieces: each of them is the first of what is left, which leaves no choice of the next.
  induction cuts generalizing pos tokens with
  | nil =>
    cases yields
    cases stops with
    | finished => rw [Scan.counted]
    | rejected h =>
      obtain ⟨some, within⟩ := h.lexeme
      obtain ⟨c, cs, rfl⟩ := List.exists_cons_of_ne_nil fun none =>
        some (List.prefix_nil.mp (none ▸ within))
      exact (counted_of_rejected (first_of_rejects h)).symm
  | cons longest _ ih =>
    rw [List.flatten_cons, Position.after_append] at stops
    cases yields with
    | skip read more =>
      rw [counted_append longest read, ← ih tokens more stops]
      rfl
    | token read more =>
      rw [counted_append longest read, ← ih _ more stops]
      rfl

/-! ## Places -/

theorem Reads.byteCount_pos {s : List Char} {x : Option Token} (h : Reads s x) :
    0 < Text.byteCount s := by
  obtain ⟨_, admitted⟩ := h.exists_matches
  obtain ⟨c, s, rfl⟩ := List.exists_cons_of_ne_nil admitted.ne_nil
  exact Nat.lt_of_lt_of_le c.utf8Size_pos (Nat.le_add_right _ _)

/-- No token starts before the pieces that it is read from. -/
theorem Yields.offset_le {pos : Position} {pieces : List (List Char)} {ts : List Located}
    (h : Yields pos pieces ts) : ∀ t ∈ ts, pos.offset ≤ t.pos.offset := by
  induction h with
  | nil => exact nofun
  | skip _ _ ih =>
    intro t member
    exact Nat.le_trans (by simp) (ih t member)
  | token _ _ ih =>
    intro t member
    rcases List.mem_cons.mp member with rfl | member
    · exact Nat.le_refl _
    · exact Nat.le_trans (by simp) (ih t member)

/-- Each token starts behind the one before it. -/
theorem Yields.sorted {pos : Position} {pieces : List (List Char)} {ts : List Located}
    (h : Yields pos pieces ts) : ts.Pairwise fun t u => t.pos.offset < u.pos.offset := by
  induction h with
  | nil => exact .nil
  | skip _ _ ih => exact ih
  | token read more ih =>
    refine .cons (fun u member => ?_) ih
    have later := more.offset_le u member
    rw [Position.offset_after] at later
    exact Nat.lt_of_lt_of_le (Nat.lt_add_of_pos_right read.byteCount_pos) later

/-! ## Whole texts -/

theorem scan_eq (text : String) : scan text =
    ((Scan.counted .start text.toList).tokens,
      (Scan.counted .start text.toList).rejected.map fun (pos, lexeme) =>
        ⟨pos, String.ofList lexeme, (Lines.ofText text).context pos.offset⟩) := by
  have same : Scan.ofChars (Lines.ofText text).position 0 text.toList =
      Scan.counted .start text.toList := ofChars_eq_counted (List.nil_append _).symm
  rw [scan, same]

theorem tokenize_eq_ok {text : String} {ts : List Located} :
    tokenize text = .ok ts ↔
      (Scan.counted .start text.toList).tokens = ts ∧
        (Scan.counted .start text.toList).rejected = none := by
  rw [tokenize, scan_eq]
  generalize Scan.counted .start text.toList = s
  obtain ⟨tokens, rejected⟩ := s
  cases rejected <;> simp

theorem tokenize_eq_error {text : String} {e : LexicalError} :
    tokenize text = .error e ↔ ∃ pos lexeme,
      (Scan.counted .start text.toList).rejected = some (pos, lexeme) ∧
        e = ⟨pos, String.ofList lexeme, (Text.Lines.ofText text).context pos.offset⟩ := by
  rw [tokenize, scan_eq]
  generalize Scan.counted .start text.toList = s
  obtain ⟨tokens, rejected⟩ := s
  cases rejected with
  | none => simp
  | some found => simp [Prod.ext_iff, and_assoc, eq_comm]

theorem tokenize_accepts (text : String) (ts : List Located) :
    tokenize text = .ok ts ↔
      ∃ pieces, Cuts text.toList pieces [] ∧ Yields .start pieces ts := by
  constructor
  · intro accepted
    obtain ⟨rfl, finished⟩ := tokenize_eq_ok.mp accepted
    obtain ⟨pieces, last, cuts, yields, stops⟩ := found_counted .start text.toList
    rw [finished] at stops
    cases stops
    exact ⟨pieces, cuts, yields⟩
  · intro h
    obtain ⟨pieces, cuts, yields⟩ := h
    have found : Found .start text.toList ⟨ts, none⟩ := ⟨pieces, [], cuts, yields, .finished⟩
    apply tokenize_eq_ok.mpr
    rw [← found.eq_counted]
    exact ⟨rfl, rfl⟩

theorem tokenize_rejects (text : String) (e : LexicalError) :
    tokenize text = .error e ↔
      ∃ pieces ts rest lexeme, Cuts text.toList pieces rest ∧ Yields .start pieces ts ∧
        Rejects rest lexeme ∧
        e.pos = Position.start.after pieces.flatten ∧ e.lexeme = String.ofList lexeme ∧
        e.context = (Text.Lines.ofText text).context e.pos.offset := by
  constructor
  · intro rejected
    obtain ⟨pos, lexeme, stopped, rfl⟩ := tokenize_eq_error.mp rejected
    obtain ⟨pieces, last, cuts, yields, stops⟩ := found_counted .start text.toList
    rw [stopped] at stops
    cases stops with
    | rejected rejects => exact ⟨pieces, _, last, lexeme, cuts, yields, rejects, rfl, rfl, rfl⟩
  · intro h
    obtain ⟨pieces, ts, rest, lexeme, cuts, yields, rejects, pos_eq, lexeme_eq, context_eq⟩ := h
    have found : Found .start text.toList ⟨ts, some (e.pos, lexeme)⟩ :=
      ⟨pieces, rest, cuts, yields, pos_eq ▸ .rejected rejects⟩
    apply tokenize_eq_error.mpr
    rw [← found.eq_counted]
    exact ⟨e.pos, lexeme, rfl, by rw [← lexeme_eq, ← context_eq]⟩

/-- A text is tokenized if and only if it is cut into pieces that are each the longest where they
    start and each valid. The tokens are then what the pieces are read as, and start one behind the
    other. Otherwise the text is cut so up to the first place where no valid piece starts, and
    told are that place and what stands there, which is not empty. -/
theorem tokenize_longest_pieces (text : String) :
    (∀ ts, tokenize text = .ok ts ↔
      ∃ pieces, Cuts text.toList pieces [] ∧ Yields .start pieces ts) ∧
    (∀ ts, tokenize text = .ok ts → ts.Pairwise fun t u => t.pos.offset < u.pos.offset) ∧
    (∀ e, tokenize text = .error e ↔
      ∃ pieces ts rest lexeme, Cuts text.toList pieces rest ∧ Yields .start pieces ts ∧
        Rejects rest lexeme ∧
        e.pos = Position.start.after pieces.flatten ∧ e.lexeme = String.ofList lexeme ∧
        e.context = (Text.Lines.ofText text).context e.pos.offset) ∧
    ∀ pieces rest lexeme, Cuts text.toList pieces rest → Rejects rest lexeme →
      text.toList = pieces.flatten ++ rest ∧ lexeme ≠ [] ∧ lexeme <+: rest := by
  refine ⟨tokenize_accepts text, fun ts accepted => ?_, tokenize_rejects text,
    fun pieces rest lexeme cuts rejects => ⟨cuts.flatten_append.symm, rejects.lexeme⟩⟩
  obtain ⟨pieces, _, yields⟩ := (tokenize_accepts text ts).mp accepted
  exact yields.sorted

/-- A comment goes on to the line feed and takes the carriage return in front of it. A string that
    is not closed is told with all its elements. -/
theorem comment_and_open_string :
    ∃ (ts : List Located) (e : LexicalError),
      ts = [⟨.keyword .do, ⟨0, 1, 1⟩⟩, ⟨.symbol .atMost, ⟨2, 1, 3⟩⟩,
        ⟨.real (Double.ofDecimal 15 1), ⟨4, 1, 5⟩⟩, ⟨.newline, ⟨13, 1, 14⟩⟩,
        ⟨.name "DOT", ⟨14, 2, 1⟩⟩] ∧
      tokenize "DO<=1.5// no\r\nDOT" = .ok ts ∧
      (∃ pieces, Cuts "DO<=1.5// no\r\nDOT".toList pieces [] ∧ Yields .start pieces ts) ∧
      ts.Pairwise (fun t u => t.pos.offset < u.pos.offset) ∧
      e.pos = ⟨3, 1, 4⟩ ∧ e.lexeme = "\"é\\q" ∧
      tokenize "x<-\"é\\q" = .error e ∧
      ∃ pieces ts rest lexeme, Cuts "x<-\"é\\q".toList pieces rest ∧ Yields .start pieces ts ∧
        Rejects rest lexeme ∧ e.pos = Position.start.after pieces.flatten ∧
        e.lexeme = String.ofList lexeme ∧
        "x<-\"é\\q".toList = pieces.flatten ++ rest ∧ lexeme ≠ [] ∧ lexeme <+: rest := by
  have accepted : tokenize "DO<=1.5// no\r\nDOT" = .ok [⟨.keyword .do, ⟨0, 1, 1⟩⟩,
      ⟨.symbol .atMost, ⟨2, 1, 3⟩⟩, ⟨.real (Double.ofDecimal 15 1), ⟨4, 1, 5⟩⟩,
      ⟨.newline, ⟨13, 1, 14⟩⟩, ⟨.name "DOT", ⟨14, 2, 1⟩⟩] :=
    tokenize_eq_ok.mpr (by decide +kernel)
  have rejected : tokenize "x<-\"é\\q" = .error ⟨⟨3, 1, 4⟩, "\"é\\q",
      (Text.Lines.ofText "x<-\"é\\q").context 3⟩ :=
    tokenize_eq_error.mpr
      ⟨⟨3, 1, 4⟩, "\"é\\q".toList, by decide +kernel, by rw [String.ofList_toList]⟩
  obtain ⟨accepts, sorted, _, _⟩ := tokenize_longest_pieces "DO<=1.5// no\r\nDOT"
  obtain ⟨_, _, rejects, told⟩ := tokenize_longest_pieces "x<-\"é\\q"
  obtain ⟨pieces, ts, rest, lexeme, cuts, yields, stop, pos_eq, lexeme_eq, _⟩ :=
    (rejects _).mp rejected
  have stands := told pieces rest lexeme cuts stop
  exact ⟨_, _, rfl, accepted, (accepts _).mp accepted, sorted _ accepted, rfl, rfl, rejected,
    pieces, ts, rest, lexeme, cuts, yields, stop, pos_eq, lexeme_eq, stands⟩

end Scanning

end Pseudocode
