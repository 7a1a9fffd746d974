import Pseudocode.Proofs.Lowering.Acceptance
import Pseudocode.Proofs.Parsing.Foresight
import Pseudocode.Proofs.Parsing.Texts
import Pseudocode.Proofs.Places.Lines
import Pseudocode.Proofs.Scanning.Tokens
import Pseudocode.Proofs.Typing.Relocation

/-! # Errors point into the text

* `StandsAt`: a place of a text, told by what is in front of it.
* `stands_of_mem_scan`: each token stands where its piece starts.
* `mem_places_of_checkAll`: a program breaks a rule at the place of one of its tokens, since other
  places may be moved around without moving the error.
* `error_points_into_text`: every error is told of a place in the text, and all that is cut out of
  the text on the way lies between characters.
-/

namespace Pseudocode

open Grammar Scanning Text Typing

/-! ## Places -/

/-- The place is the one in front of `after` in the text: it lies between characters, its line is
    told by the line feeds in front of it and its column by the characters behind the last one. -/
structure StandsAt (text : String) (p : Position) (before after : List Char) : Prop where
  split : text.toList = before ++ after
  offset : p.offset = byteCount before
  boundary : (⟨p.offset⟩ : String.Pos.Raw).IsValid text
  line : p.line = 1 + before.count '\n'
  column : p.column = 1 + (sinceFeed before).length

theorem standsAt_after {text : String} {before after : List Char}
    (split : text.toList = before ++ after) :
    StandsAt text (Position.start.after before) before after := by
  rw [Position.start_after]
  exact ⟨split, rfl, isValid_byteCount split, rfl, rfl⟩

/-- The text of the line around a place, without the blanks at its ends. -/
def lineText (before after : List Char) : String :=
  String.ofList (trim (sinceFeed before ++ untilFeed after))

theorem StandsAt.context_eq {text : String} {p : Position} {before after : List Char}
    (h : StandsAt text p before after) :
    (Lines.ofText text).context p.offset = lineText before after := by
  rw [Lines.context, Lines.ofText, h.split, h.offset, Lines.lineAt_append, lineText]

theorem StandsAt.cutContext?_eq {text : String} {p : Position} {before after : List Char}
    (h : StandsAt text p before after) :
    Lines.cutContext? text.toList p.offset = some (lineText before after) := by
  have line := Lines.context?_of_split (k := 0) h.split (.inl rfl)
  rwa [Nat.add_zero, ← h.offset, Lines.ofText, Lines.context?_eq_cutContext?] at line

theorem StandsAt.one_le {text : String} {p : Position} {before after : List Char}
    (h : StandsAt text p before after) : 1 ≤ p.line ∧ 1 ≤ p.column :=
  ⟨h.line ▸ Nat.le_add_right _ _, h.column ▸ Nat.le_add_right _ _⟩

theorem StandsAt.eq_after {text : String} {p : Position} {before after : List Char}
    (h : StandsAt text p before after) : p = Position.start.after before := by
  obtain ⟨offset, line, column⟩ := p
  rw [Position.start_after, Position.mk.injEq]
  exact ⟨h.offset, h.line, h.column⟩

/-! ## The places of tokens -/

namespace Scanning

/-- A token stands where the piece starts that it is read from. -/
theorem Yields.exists_piece {pos : Position} {pieces : List (List Char)} {ts : List Located}
    (h : Yields pos pieces ts) : ∀ t ∈ ts, ∃ front piece back,
      pieces = front ++ piece :: back ∧ Reads piece (some t.token) ∧
        t.pos = pos.after front.flatten := by
  induction h with
  | nil => exact nofun
  | @skip _ piece _ _ _ _ ih =>
    intro t member
    obtain ⟨front, own, back, rfl, read, place⟩ := ih t member
    refine ⟨piece :: front, own, back, rfl, read, ?_⟩
    rw [place, List.flatten_cons, Position.after_append]
  | @token _ piece _ _ _ read _ ih =>
    intro t member
    rcases List.mem_cons.mp member with rfl | member
    · exact ⟨[], piece, _, rfl, read, rfl⟩
    · obtain ⟨front, own, back, rfl, read, place⟩ := ih t member
      refine ⟨piece :: front, own, back, rfl, read, ?_⟩
      rw [place, List.flatten_cons, Position.after_append]

end Scanning

/-- Each token of a text stands in it. -/
theorem stands_of_mem_scan {text : String} {t : Located} (member : t ∈ (scan text).1) :
    ∃ before after, StandsAt text t.pos before after := by
  rw [scan_eq] at member
  obtain ⟨pieces, rest, cuts, yields, _⟩ := found_counted .start text.toList
  obtain ⟨front, piece, back, rfl, _, place⟩ := yields.exists_piece t member
  have whole := cuts.flatten_append
  rw [List.flatten_append, List.append_assoc] at whole
  exact ⟨_, _, place ▸ standsAt_after whole.symm⟩

theorem scan_of_tokenize {text : String} {ts : List Located} (tokenized : tokenize text = .ok ts) :
    (scan text).1 = ts := by
  rw [scan_eq]
  exact (tokenize_eq_ok.mp tokenized).1

/-! ## The places of breaches -/

/-- The place of an earlier declaration that the fault tells of. -/
def ResolutionFault.previous? : ResolutionFault → Option Position
  | .redefined _ _ previous => previous
  | _ => none

/-- Moves all places but the given ones. -/
def moveOthers (places : List Position) (p : Position) : Position :=
  if p ∈ places then p else { p with offset := p.offset + 1 }

theorem moveOthers_eq_self {places : List Position} {p : Position} :
    moveOthers places p = p ↔ p ∈ places := by
  unfold moveOthers
  split
  · simpa
  · rename_i other
    simp only [other, iff_false]
    intro same
    have := congrArg Position.offset same
    dsimp only at this
    omega

/-- A program breaks a rule at the place of a token, and an earlier declaration that is told of
    was at the place of a token, too. With the other places moved, the tokens are the same, and
    so are the program and the error. -/
theorem mem_places_of_checkAll {ts : List Located} {p : Program} {x : Diagnostic}
    (derived : Derives ts p) (broken : checkAll Env.initial p = .error x) :
    (∃ pos fault, x = .resolution pos fault ∧ pos ∈ ts.map (·.pos) ∧
      ∀ q ∈ fault.previous?, q ∈ ts.map (·.pos)) ∨
    ∃ pos fault, x = .type pos fault ∧ pos ∈ ts.map (·.pos) := by
  have tokens : ts.map (Located.relocate (moveOthers (ts.map (·.pos)))) = ts := by
    refine (List.map_congr_left fun t member => ?_).trans ts.map_id
    exact congrArg (Located.mk t.token) (moveOthers_eq_self.mpr (List.mem_map_of_mem member))
  have again := derived.relocate (f := moveOthers (ts.map (·.pos)))
  rw [tokens] at again
  have same : Program.relocate (moveOthers (ts.map (·.pos))) p = p :=
    Parser.derives_unique again derived
  have moved := checkAll_relocate (f := moveOthers (ts.map (·.pos))) Env.initial p
  rw [same, broken, show Env.initial.relocate _ = Env.initial from rfl, broken] at moved
  obtain ⟨pos, fault, rfl⟩ | ⟨pos, fault, rfl⟩ := Breaches.checkAll Env.initial p x broken
  · obtain ⟨place, kept⟩ := Diagnostic.resolution.inj (Except.error.inj moved)
    refine .inl ⟨pos, fault, rfl, moveOthers_eq_self.mp place.symm, fun q told => ?_⟩
    cases fault with
    | redefined what name previous =>
      obtain rfl : previous = some q := told
      obtain ⟨-, -, still⟩ := ResolutionFault.redefined.inj kept
      exact moveOthers_eq_self.mp (Option.some.inj still).symm
    | _ => cases told
  · obtain ⟨place, -⟩ := Diagnostic.type.inj (Except.error.inj moved)
    exact .inr ⟨pos, fault, rfl, moveOthers_eq_self.mp place.symm⟩

/-! ## Errors -/

/-- Where the text is wrong, unless the error is none of the text. -/
def Diagnostic.pos? : Diagnostic → Option Position
  | .lexical e => some e.pos
  | .parse e => some e.pos
  | .resolution pos _ => some pos
  | .type pos _ => some pos
  | .consistency _ => none

/-- The place is that of a token of the text. -/
def TokenStands (text : String) (p : Position) (before after : List Char) : Prop :=
  StandsAt text p before after ∧ ∃ ts, tokenize text = .ok ts ∧ p ∈ ts.map (·.pos)

/-- The error is told of a place in the text, and of the line there if the text could not be read:
    where the first piece that is no token starts, or a token, or at the end of the text. -/
inductive PointsInto (text : String) : Diagnostic → Prop where
  | lexical {e : LexicalError} {pieces : List (List Char)} {after : List Char}
      (cuts : Cuts text.toList pieces after) (rejected : Rejects after e.lexeme.toList)
      (stands : StandsAt text e.pos pieces.flatten after)
      (line : e.context = lineText pieces.flatten after) : PointsInto text (.lexical e)
  | token {e : ParseError} {before after : List Char} (stands : TokenStands text e.pos before after)
      (line : e.context = lineText before after) : PointsInto text (.parse e)
  | finish {e : ParseError} (stands : StandsAt text e.pos text.toList [])
      (line : e.context = lineText text.toList []) : PointsInto text (.parse e)
  | resolution {pos : Position} {fault : ResolutionFault} {before after : List Char}
      (stands : TokenStands text pos before after)
      (previous : ∀ q ∈ fault.previous?, ∃ before after, TokenStands text q before after) :
      PointsInto text (.resolution pos fault)
  | type {pos : Position} {fault : TypeFault} {before after : List Char}
      (stands : TokenStands text pos before after) : PointsInto text (.type pos fault)

theorem exists_tokenStands {text : String} {ts : List Located} {p : Position}
    (tokenized : tokenize text = .ok ts) (member : p ∈ ts.map (·.pos)) :
    ∃ before after, TokenStands text p before after := by
  obtain ⟨t, found, rfl⟩ := List.mem_map.mp member
  obtain ⟨before, after, stands⟩ := stands_of_mem_scan ((scan_of_tokenize tokenized).symm ▸ found)
  exact ⟨before, after, stands, ts, tokenized, member⟩

theorem pointsInto_of_tokenize {text : String} {e : LexicalError}
    (rejected : tokenize text = .error e) : PointsInto text (.lexical e) := by
  obtain ⟨pos, lexeme, stopped, rfl⟩ := tokenize_eq_error.mp rejected
  obtain ⟨pieces, rest, cuts, _, stops⟩ := found_counted .start text.toList
  rw [stopped] at stops
  cases stops with
  | rejected rejects =>
    have stands := standsAt_after cuts.flatten_append.symm
    refine .lexical cuts ?_ stands stands.context_eq
    rwa [String.toList_ofList]

theorem pointsInto_of_parseTokens {text : String} {ts : List Located} {x : Diagnostic}
    (tokenized : tokenize text = .ok ts) (failed : parseTokens text ts = .error x) :
    PointsInto text x := by
  obtain ⟨e, read, rfl⟩ := parseTokens_eq_error failed
  obtain ⟨fault, rest, stopped, rfl⟩ := Parser.ofTokens_eq_error.mp read
  obtain ⟨taken, rfl, _⟩ := Parser.program_foresight.error stopped
  cases rest with
  | nil =>
    have stands := standsAt_after (List.append_nil text.toList).symm
    rw [← Lines.endPosition_ofText] at stands
    exact .finish stands stands.context_eq
  | cons t rest =>
    obtain ⟨before, after, stands⟩ := exists_tokenStands (p := t.pos) tokenized (by simp)
    exact .token stands stands.1.context_eq

theorem pointsInto_of_lower {text : String} {p : Program} {x : Diagnostic}
    (read : parse text = .ok p) (failed : (lower p).result = .error x) : PointsInto text x := by
  obtain ⟨ts, tokenized, derived, _⟩ := parse_eq_ok.mp read
  obtain ⟨pos, fault, rfl, place, previous⟩ | ⟨pos, fault, rfl, place⟩ :=
    mem_places_of_checkAll derived (Lowering.lower_eq_error.mp failed)
  · obtain ⟨before, after, stands⟩ := exists_tokenStands tokenized place
    exact .resolution stands fun q told => exists_tokenStands tokenized (previous q told)
  · obtain ⟨before, after, stands⟩ := exists_tokenStands tokenized place
    exact .type stands

theorem pointsInto_of_compile {text : String} {x : Diagnostic}
    (failed : (compile text).result = .error x) : PointsInto text x := by
  obtain ⟨e, rejected, rfl⟩ | ⟨ts, tokenized, failed⟩ | ⟨p, read, failed⟩ :=
    compile_eq_error.mp failed
  · exact pointsInto_of_tokenize rejected
  · exact pointsInto_of_parseTokens tokenized failed
  · exact pointsInto_of_lower read failed

theorem PointsInto.one_le {text : String} {x : Diagnostic} (h : PointsInto text x) :
    ∃ pos, x.pos? = some pos ∧ 1 ≤ pos.line ∧ 1 ≤ pos.column := by
  cases h with
  | lexical _ _ stands _ => exact ⟨_, rfl, stands.one_le⟩
  | token stands _ => exact ⟨_, rfl, stands.1.one_le⟩
  | finish stands _ => exact ⟨_, rfl, stands.one_le⟩
  | resolution stands _ => exact ⟨_, rfl, stands.1.one_le⟩
  | type stands => exact ⟨_, rfl, stands.1.one_le⟩

/-! ## What is cut out of the text -/

/-- The place and the line that are told of a text that could not be read. -/
def Diagnostic.line? : Diagnostic → Option (Position × String)
  | .lexical e => some (e.pos, e.context)
  | .parse e => some (e.pos, e.context)
  | _ => none

/-- The line that is told is the one that is cut out of the text. -/
theorem PointsInto.cutContext?_eq {text : String} {x : Diagnostic} (h : PointsInto text x)
    {pos : Position} {line : String} (told : x.line? = some (pos, line)) :
    Lines.cutContext? text.toList pos.offset = some line := by
  cases h with
  | lexical _ _ stands same =>
    cases told
    rw [same, stands.cutContext?_eq]
  | token stands same =>
    cases told
    rw [same, stands.1.cutContext?_eq]
  | finish stands same =>
    cases told
    rw [same, stands.cutContext?_eq]
  | resolution => cases told
  | type => cases told

/-- Where line and column are asked for: at the tokens, at a piece that is none, and at the end. -/
def offsetsAsked (text : String) : List Nat :=
  (scan text).1.map (·.pos.offset) ++ (scan text).2.toList.map (·.pos.offset) ++
    [text.utf8ByteSize]

/-- The ranges of bytes that are cut out of a text before an error in it is told: for the columns,
    for the line around the error, and for the piece that is no token. -/
def Diagnostic.slices (text : String) (x : Diagnostic) : List (Nat × Nat) :=
  (offsetsAsked text).map (Lines.ofText text).columnSlice ++
    match x with
    | .lexical e => Lines.contextSlices text.toList e.pos.offset ++
        [(e.pos.offset, e.pos.offset + e.lexeme.utf8ByteSize)]
    | .parse e => Lines.contextSlices text.toList e.pos.offset
    | _ => []

theorem tokenize_of_scan {text : String} {e : LexicalError} (rejected : (scan text).2 = some e) :
    tokenize text = .error e := by
  rw [tokenize]
  generalize scan text = scanned at rejected ⊢
  obtain ⟨tokens, stopped⟩ := scanned
  obtain rfl : stopped = some e := rejected
  rfl

theorem exists_split_of_mem_offsetsAsked {text : String} {offset : Nat}
    (asked : offset ∈ offsetsAsked text) :
    ∃ before after, text.toList = before ++ after ∧ offset = byteCount before := by
  simp only [offsetsAsked, List.mem_append, List.mem_map, List.mem_singleton, Option.mem_toList,
    or_assoc] at asked
  obtain ⟨t, member, rfl⟩ | ⟨e, rejected, rfl⟩ | rfl := asked
  · obtain ⟨before, after, stands⟩ := stands_of_mem_scan member
    exact ⟨before, after, stands.split, stands.offset⟩
  · cases pointsInto_of_tokenize (tokenize_of_scan rejected) with
    | lexical _ _ stands _ => exact ⟨_, _, stands.split, stands.offset⟩
  · exact ⟨text.toList, [], (List.append_nil _).symm, (byteCount_toList text).symm⟩

theorem StandsAt.isSlice_context {text : String} {p : Position} {before after : List Char}
    (h : StandsAt text p before after) :
    ∀ range ∈ Lines.contextSlices text.toList p.offset, IsSlice text range :=
  h.offset ▸ Lines.isSlice_contextSlices h.split

theorem PointsInto.isSlice {text : String} {x : Diagnostic} (h : PointsInto text x) :
    ∀ range ∈ x.slices text, IsSlice text range := by
  intro range member
  obtain column | told := List.mem_append.mp member
  · obtain ⟨offset, asked, rfl⟩ := List.mem_map.mp column
    obtain ⟨before, after, split, rfl⟩ := exists_split_of_mem_offsetsAsked asked
    exact Lines.isSlice_columnSlice split
  · cases h with
    | @lexical e pieces after _ rejected stands _ =>
      obtain around | piece := List.mem_append.mp told
      · exact stands.isSlice_context range around
      · obtain ⟨-, rest, rfl⟩ := rejected.lexeme
        rw [List.mem_singleton.mp piece, stands.offset, ← byteCount_toList, ← byteCount_append]
        exact isSlice_append (stands.split.trans (List.append_assoc ..).symm)
    | token stands _ => exact stands.1.isSlice_context range told
    | finish stands _ => exact stands.isSlice_context range told
    | resolution => cases told
    | type => cases told

/-- Every error points into the text. What is wrong with the characters or the tokens of a text is
    told of a piece that is no token, of a token or of the end, and with the line there; what is
    wrong with the program is told of a token. The place is never outside of the text. Whatever is
    cut out of the text to tell it starts and ends between characters, so that it can be cut, and
    the places that are asked for and the line that is told are those that are cut so. -/
theorem error_points_into_text (text : String) (x : Diagnostic)
    (failed : compileToText text = .error x) :
    PointsInto text x ∧ (∃ pos, x.pos? = some pos ∧ 1 ≤ pos.line ∧ 1 ≤ pos.column) ∧
      (∀ range ∈ x.slices text,
        IsSlice text range ∧ (slice? text.toList range.1 range.2).isSome) ∧
      (∀ offset ∈ offsetsAsked text,
        (Lines.ofText text).position offset = Lines.cutPosition text.toList offset) ∧
      ∀ pos line, x.line? = some (pos, line) →
        Lines.cutContext? text.toList pos.offset = some line := by
  have broken : (compile text).result = .error x := by
    rw [compileToText] at failed
    cases result : (compile text).result with
    | ok m =>
      rw [result] at failed
      cases failed
    | error y =>
      rw [result] at failed
      cases failed
      rfl
  have points := pointsInto_of_compile broken
  refine ⟨points, points.one_le, fun range cut => ?_, fun offset _ => ?_, fun _ _ =>
    points.cutContext?_eq⟩
  · have slice := points.isSlice range cut
    exact ⟨slice, isSome_slice?_iff.mpr slice⟩
  · exact Lines.position_eq_cutPosition _ offset

/-- A character that starts no token, an operand that is missing at the end, and a number where a
    text is asked for, each behind a character of two bytes. -/
theorem errors_behind_two_bytes :
    ∃ x y z : Diagnostic,
      x.pos? = some ⟨12, 1, 12⟩ ∧ y.pos? = some ⟨11, 1, 11⟩ ∧ z.pos? = some ⟨12, 2, 1⟩ ∧
      x.slices "OUTPUT \"é\" ☃" =
        [(0, 0), (0, 7), (0, 12), (0, 15), (0, 12), (12, 15), (0, 15), (12, 15)] ∧
      compileToText "OUTPUT \"é\" ☃" = .error x ∧ PointsInto "OUTPUT \"é\" ☃" x ∧
      (∀ range ∈ x.slices "OUTPUT \"é\" ☃", IsSlice "OUTPUT \"é\" ☃" range ∧
        (slice? "OUTPUT \"é\" ☃".toList range.1 range.2).isSome) ∧
      compileToText "y <- \"é\" +" = .error y ∧ PointsInto "y <- \"é\" +" y ∧
      compileToText "OUTPUT \"é\"\nOUTPUT 1" = .error z ∧
      PointsInto "OUTPUT \"é\"\nOUTPUT 1" z := by
  have lexical : compileToText "OUTPUT \"é\" ☃" =
      .error (.lexical ⟨⟨12, 1, 12⟩, "☃", "OUTPUT \"é\" ☃"⟩) := by decide +kernel
  have parse : compileToText "y <- \"é\" +" =
      .error (.parse ⟨⟨11, 1, 11⟩, "y <- \"é\" +", .expected .expression, none⟩) := by
    decide +kernel
  have type : compileToText "OUTPUT \"é\"\nOUTPUT 1" =
      .error (.type ⟨12, 2, 1⟩ (.textExpected "OUTPUT" .i32)) := by decide +kernel
  obtain ⟨points, _, cuts, _, _⟩ := error_points_into_text _ _ lexical
  exact ⟨_, _, _, rfl, rfl, rfl, by decide +kernel, lexical, points, cuts, parse,
    (error_points_into_text _ _ parse).1, type, (error_points_into_text _ _ type).1⟩

end Pseudocode
