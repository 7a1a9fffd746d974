import Pseudocode.Proofs.Parsing.Relocation
import Pseudocode.Proofs.Places.Diagnostics

/-! # Texts joined by a line feed

No piece goes on behind a line feed. So a text is cut the same way with another one below it, and
the one below as if it stood alone. Only a carriage return at the end of the first text is another
piece when a line feed comes behind it.

* `Matches.prefix_above`: what a joined text starts with is in the first part.
* `Cuts.joined`, `Rejects.joined`: the first part is cut and rejected as before.
* `Position.below`: a place in a text, seen from the text that another one stands above of.
* `tokenize_joined`: the tokens of the joined text, or its error.
-/

namespace Pseudocode

open Scanning Text

namespace Scanning

variable {piece rest u l t : List Char} {pieces : List (List Char)}

/-! ## The part above -/

theorem prefix_of_noFeed (within : l <+: u ++ '\n' :: t) (noFeed : '\n' ∉ l) : l <+: u := by
  have line : u ++ ['\n'] <+: u ++ '\n' :: t := by simp
  obtain shorter | longer := List.prefix_or_prefix_of_prefix within line
  · obtain same | shorter := List.prefix_concat_iff.mp shorter
    · simp [same] at noFeed
    · exact shorter
  · exact absurd (longer.subset (by simp)) noFeed

/-- What a joined text starts with is in the part above, which ends in no carriage return. -/
theorem Matches.prefix_above {r : Rule} (admitted : Matches r l) (filled : u ≠ [])
    (noReturn : u.getLast? ≠ some '\r') (within : l <+: u ++ '\n' :: t) : l <+: u := by
  by_cases other : r = .newline
  · obtain ⟨c, u, rfl⟩ := List.exists_cons_of_ne_nil filled
    subst other
    cases admitted with
    | lineFeed => simpa using within
    | carriageReturn =>
      cases u with
      | nil =>
        obtain ⟨rfl, -⟩ := List.cons_prefix_cons.mp within
        exact absurd rfl noReturn
      | cons d u => simpa using within
  · exact prefix_of_noFeed within (admitted.noFeed other)

theorem Longest.joined (longest : Longest piece rest)
    (noReturn : (piece ++ rest).getLast? ≠ some '\r') : Longest piece (rest ++ '\n' :: t) := by
  obtain ⟨⟨r, admitted⟩, longest⟩ := longest
  refine ⟨⟨r, admitted⟩, fun r' longer admitted' within => longest r' longer admitted' ?_⟩
  rw [← List.append_assoc] at within
  exact admitted'.prefix_above (by simp [admitted.ne_nil]) noReturn within

theorem Unmatched.joined (unmatched : Unmatched u) (filled : u ≠ [])
    (noReturn : u.getLast? ≠ some '\r') : Unmatched (u ++ '\n' :: t) :=
  fun r s admitted within => unmatched r s admitted (admitted.prefix_above filled noReturn within)

/-- What is rejected is told in the same way with another text below. -/
theorem Rejects.joined (rejected : Rejects u l) (noReturn : u.getLast? ≠ some '\r') :
    Rejects (u ++ '\n' :: t) l := by
  cases rejected with
  | invalid longest unread =>
    rw [List.append_assoc]
    exact .invalid (longest.joined noReturn) unread
  | unclosed unmatched elements within all =>
    refine .unclosed (unmatched.joined (by simp) noReturn) elements
      (within.trans (List.prefix_append _ _)) fun s' inside within' => ?_
    exact all s' inside (prefix_of_noFeed within' inside.noFeed)
  | unknown unmatched noQuote => exact .unknown (unmatched.joined (by simp) noReturn) noQuote

theorem Cuts.joined (cuts : Cuts u pieces rest) (noReturn : u.getLast? ≠ some '\r') :
    Cuts (u ++ '\n' :: t) pieces (rest ++ '\n' :: t) := by
  induction cuts with
  | nil => exact .nil
  | @cons piece behind _ _ longest _ ih =>
    rw [List.append_assoc]
    refine .cons (longest.joined noReturn) (ih fun ends => noReturn ?_)
    simp [List.getLast?_append, ends]

/-! ## The part below -/

theorem Cuts.append {pieces' : List (List Char)} {cs last : List Char} (cuts : Cuts cs pieces rest)
    (more : Cuts rest pieces' last) : Cuts cs (pieces ++ pieces') last := by
  induction cuts with
  | nil => exact more
  | cons longest _ ih => exact .cons longest (ih more)

theorem Yields.append {pos : Position} {pieces' : List (List Char)} {ts us : List Located}
    (yields : Yields pos pieces ts) (more : Yields (pos.after pieces.flatten) pieces' us) :
    Yields pos (pieces ++ pieces') (ts ++ us) := by
  induction yields with
  | nil => exact more
  | skip skipped _ ih =>
    exact .skip skipped (ih (by simpa using more))
  | token read _ ih =>
    exact .token read (ih (by simpa using more))

end Scanning

namespace Position

/-- The place in the whole text of a place in the text below: as many lines further down as the
    text above has. -/
def below (above : String) (p : Position) : Position :=
  ⟨p.offset + above.utf8ByteSize + 1, p.line + (1 + above.toList.count '\n'), p.column⟩

@[simp] theorem advance_below (above : String) (p : Position) (c : Char) :
    (p.below above).advance c = (p.advance c).below above := by
  unfold advance
  split <;> simp only [below, mk.injEq, and_true] <;> omega

@[simp] theorem after_below (above : String) (p : Position) (cs : List Char) :
    (p.below above).after cs = (p.after cs).below above := by
  induction cs generalizing p with
  | nil => rfl
  | cons c cs ih =>
    show ((p.below above).advance c).after cs = ((p.advance c).after cs).below above
    rw [advance_below, ih]

/-- The text below starts behind the line feed. -/
theorem start_below (above : String) :
    (start.after above.toList).after ['\n'] = start.below above := by
  rw [start_after, byteCount_toList]
  show advance _ '\n' = _
  simp only [advance, if_true, below, start, mk.injEq, and_true]
  exact ⟨by simp [show ('\n').utf8Size = 1 from rfl], by omega⟩

end Position

theorem Scanning.Yields.relocate_below {above : String} {pos : Position} {pieces : List (List Char)}
    {ts : List Located} (yields : Yields pos pieces ts) :
    Yields (pos.below above) pieces (ts.map (Located.relocate (Position.below above))) := by
  induction yields with
  | nil => exact .nil
  | skip skipped _ ih => exact .skip skipped (by simpa using ih)
  | token read _ ih => exact .token read (by simpa using ih)

/-! ## Lines -/

/-- The line around a place above. -/
theorem lineText_joined (before after t : List Char) :
    lineText before (after ++ '\n' :: t) = lineText before after := by
  have line : untilFeed (after ++ '\n' :: t) = untilFeed after := by
    obtain noFeed | ⟨s, u, rfl, noFeed⟩ := feed_cases after
    · rw [untilFeed_append noFeed, untilFeed_feed, untilFeed_of_noFeed noFeed, List.append_nil]
    · rw [List.append_assoc, List.cons_append, untilFeed_append noFeed, untilFeed_append noFeed,
        untilFeed_feed, untilFeed_feed]
  rw [lineText, line, lineText]

/-- The line around a place below. -/
theorem lineText_below (above before after : List Char) :
    lineText (above ++ '\n' :: before) after = lineText before after := by
  rw [lineText, sinceFeed_append_feed, lineText]

/-! ## Joined texts -/

section

variable {above below : String}

theorem toList_joined (above below : String) :
    (above ++ "\n" ++ below).toList = above.toList ++ '\n' :: below.toList := by
  simp

/-- An error above is told as before. -/
theorem tokenize_joined_error {e : LexicalError} (noReturn : above.toList.getLast? ≠ some '\r')
    (rejected : tokenize above = .error e) : tokenize (above ++ "\n" ++ below) = .error e := by
  obtain ⟨pieces, ts, rest, lexeme, cuts, yields, rejects, place, told, line⟩ :=
    (tokenize_rejects above e).mp rejected
  have split := cuts.flatten_append.symm
  have ends : rest.getLast? ≠ some '\r' := fun ends =>
    noReturn (by simp [split, List.getLast?_append, ends])
  refine (tokenize_rejects _ e).mpr ⟨pieces, ts, rest ++ '\n' :: below.toList, lexeme, ?_, yields,
    rejects.joined ends, place, told, ?_⟩
  · rw [toList_joined]
    exact cuts.joined noReturn
  · have stands := standsAt_after split
    have standsJoined : StandsAt (above ++ "\n" ++ below) _ pieces.flatten
        (rest ++ '\n' :: below.toList) :=
      standsAt_after (by rw [toList_joined, split, List.append_assoc])
    rw [line, place, stands.context_eq, standsJoined.context_eq, lineText_joined]

/-- What the joined text is cut into up to a place below. -/
theorem cuts_joined {pieces pieces' : List (List Char)} {rest : List Char}
    (noReturn : above.toList.getLast? ≠ some '\r') (cuts : Cuts above.toList pieces [])
    (cutsBelow : Cuts below.toList pieces' rest) :
    Cuts (above ++ "\n" ++ below).toList (pieces ++ ['\n'] :: pieces') rest := by
  rw [toList_joined]
  exact (cuts.joined noReturn).append (.cons (longest_feed _) cutsBelow)

/-- The tokens are those above, the line feed and those below. -/
theorem yields_joined {pieces pieces' : List (List Char)} {ts us : List Located}
    (cuts : Cuts above.toList pieces []) (yields : Yields .start pieces ts)
    (yieldsBelow : Yields .start pieces' us) :
    Yields .start (pieces ++ ['\n'] :: pieces')
      (ts ++ ⟨.newline, (Lines.ofText above).endPosition⟩ ::
        us.map (Located.relocate (Position.below above))) := by
  have whole : pieces.flatten = above.toList := by simpa using cuts.flatten_append
  refine yields.append ?_
  rw [whole, Lines.endPosition_ofText]
  refine .token (.newline .lineFeed) ?_
  rw [Position.start_below]
  exact yieldsBelow.relocate_below

/-- An error below is told of its place there. -/
theorem tokenize_joined_below {ts : List Located} {e : LexicalError}
    (noReturn : above.toList.getLast? ≠ some '\r') (accepted : tokenize above = .ok ts)
    (rejected : tokenize below = .error e) :
    tokenize (above ++ "\n" ++ below) = .error { e with pos := e.pos.below above } := by
  obtain ⟨pieces, cuts, yields⟩ := (tokenize_accepts above ts).mp accepted
  obtain ⟨pieces', us, rest, lexeme, cutsBelow, yieldsBelow, rejects, place, told, line⟩ :=
    (tokenize_rejects below e).mp rejected
  have whole : pieces.flatten = above.toList := by simpa using cuts.flatten_append
  have flattened :
      (pieces ++ ['\n'] :: pieces').flatten = above.toList ++ '\n' :: pieces'.flatten := by
    simp [whole]
  have split := cutsBelow.flatten_append.symm
  have moved : e.pos.below above =
      Position.start.after (above.toList ++ '\n' :: pieces'.flatten) := by
    rw [Position.after_append, ← List.singleton_append, Position.after_append,
      Position.start_below, Position.after_below, place]
  refine (tokenize_rejects _ _).mpr ⟨_, _, rest, lexeme, cuts_joined noReturn cuts cutsBelow,
    yields_joined cuts yields yieldsBelow, rejects, ?_, told, ?_⟩
  · rw [flattened]
    exact moved
  · have stands := standsAt_after split
    have standsJoined :
        StandsAt (above ++ "\n" ++ below) _ (above.toList ++ '\n' :: pieces'.flatten) rest :=
      standsAt_after (by rw [toList_joined, split, List.append_assoc, List.cons_append])
    show e.context = (Lines.ofText _).context (e.pos.below above).offset
    rw [moved, standsJoined.context_eq, lineText_below, ← stands.context_eq, ← place, line]

end

/-- A text is tokenized line by line. With another text below it, a text that does not end in a
    carriage return fails as before, or it gives its tokens, the line feed, and the tokens of the
    text below, as many lines further down as it has itself. If the text below fails, then so does
    the whole, at that place with the same piece and the same line. -/
theorem tokenize_joined (above below : String) (noReturn : above.toList.getLast? ≠ some '\r') :
    (∀ e, tokenize above = .error e → tokenize (above ++ "\n" ++ below) = .error e) ∧
    ∀ ts, tokenize above = .ok ts →
      (Lines.ofText above).endPosition.offset = above.utf8ByteSize ∧
      (∀ us, tokenize below = .ok us → tokenize (above ++ "\n" ++ below) =
        .ok (ts ++ ⟨.newline, (Lines.ofText above).endPosition⟩ ::
          us.map (Located.relocate (Position.below above)))) ∧
      ∀ e, tokenize below = .error e →
        tokenize (above ++ "\n" ++ below) = .error { e with pos := e.pos.below above } := by
  refine ⟨fun e rejected => tokenize_joined_error noReturn rejected, fun ts accepted =>
    ⟨?_, fun us acceptedBelow => ?_, fun e rejected =>
      tokenize_joined_below noReturn accepted rejected⟩⟩
  · rw [Lines.endPosition_ofText, Position.start_after, byteCount_toList]
  · obtain ⟨pieces, cuts, yields⟩ := (tokenize_accepts above ts).mp accepted
    obtain ⟨pieces', cutsBelow, yieldsBelow⟩ := (tokenize_accepts below us).mp acceptedBelow
    exact (tokenize_accepts _ _).mpr
      ⟨_, cuts_joined noReturn cuts cutsBelow, yields_joined cuts yields yieldsBelow⟩

/-- A comment with a character of two bytes above tokens and above a character that starts none, and
    a string that is open at a backslash above a quote. -/
theorem comment_and_open_string_above :
    "DO// é".toList.getLast? ≠ some '\r' ∧ "\"a\\".toList.getLast? ≠ some '\r' ∧
    tokenize ("DO// é" ++ "\n" ++ "\n 7") = .ok [⟨.keyword .do, ⟨0, 1, 1⟩⟩,
      ⟨.newline, ⟨7, 1, 7⟩⟩, ⟨.newline, ⟨8, 2, 1⟩⟩, ⟨.integer 7, ⟨10, 3, 2⟩⟩] ∧
    tokenize ("DO// é" ++ "\n" ++ " \t@ 1") = .error ⟨⟨10, 2, 3⟩, "@", "@ 1"⟩ ∧
    tokenize ("\"a\\" ++ "\n" ++ "\"") = .error ⟨⟨0, 1, 1⟩, "\"a", "\"a\\"⟩ := by
  have noReturn : "DO// é".toList.getLast? ≠ some '\r' := by decide +kernel
  have noReturn' : "\"a\\".toList.getLast? ≠ some '\r' := by decide +kernel
  have accepted : tokenize "DO// é" = .ok [⟨.keyword .do, ⟨0, 1, 1⟩⟩] := by decide +kernel
  obtain ⟨-, accepts, rejects⟩ := (tokenize_joined "DO// é" "\n 7" noReturn).2 _ accepted
  obtain ⟨-, -, rejects⟩ := (tokenize_joined "DO// é" " \t@ 1" noReturn).2 _ accepted
  refine ⟨noReturn, noReturn', (accepts [⟨.newline, ⟨0, 1, 1⟩⟩, ⟨.integer 7, ⟨2, 2, 2⟩⟩]
    (by decide +kernel)).trans (by decide +kernel), ?_, ?_⟩
  · exact (rejects ⟨⟨2, 1, 3⟩, "@", "@ 1"⟩ (by decide +kernel)).trans (by decide +kernel)
  · exact (tokenize_joined _ _ noReturn').1 _ (by decide +kernel)

end Pseudocode
