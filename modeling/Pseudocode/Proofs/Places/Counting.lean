import Pseudocode.Proofs.Places.Lines

/-! # Places as they are counted by hand

The table of lines tells of a place what anyone finds who counts line feeds and characters from the
beginning of the text, and cuts the text at its line feeds.

* `textLines`: the lines of a text, cut at every line feed.
* `getElem?_textLines`: the line around a place is the one with the number that is told.
* `Position.Precedes`: one place comes before another by line and column.
* `precedes_after`: places come in the order of what is in front of them.
* `position_counted`: what is told of every offset in a text.
-/

namespace Pseudocode

/-- By line, and in one line by column. -/
def Position.Precedes (p q : Position) : Prop :=
  p.line < q.line ∨ p.line = q.line ∧ p.column < q.column

namespace Text

/-- The text is cut at every line feed. -/
def textLines (text : String) : List (List Char) := text.toList.splitOn '\n'

/-! ## Lines -/

theorem splitOn_append_feed {s : List Char} (noFeed : '\n' ∉ s) (t : List Char) :
    (s ++ '\n' :: t).splitOn '\n' = s :: t.splitOn '\n' := by
  refine List.splitOnP_append_cons_of_forall_mem (fun c member => ?_) '\n' rfl t
  exact beq_eq_false_iff_ne.mpr fun same => noFeed (same ▸ member)

/-- In front of the line around a place are as many lines as line feeds. -/
theorem getElem?_splitOn (before after : List Char) :
    ((before ++ after).splitOn '\n')[before.count '\n']? =
      some (sinceFeed before ++ untilFeed after) := by
  induction h : before.length using Nat.strong_induction_on generalizing before with
  | _ n ih =>
    obtain noFeed | ⟨s, t, rfl, noFeed⟩ := feed_cases before
    · rw [sinceFeed_of_noFeed noFeed, List.count_eq_zero_of_not_mem noFeed]
      obtain noFeed' | ⟨s, t, rfl, noFeed'⟩ := feed_cases after
      · rw [List.splitOn_eq_singleton (by simp [noFeed, noFeed']), untilFeed_of_noFeed noFeed']
        rfl
      · rw [← List.append_assoc, splitOn_append_feed (by simp [noFeed, noFeed']),
          untilFeed_append noFeed', untilFeed_feed, List.append_nil]
        rfl
    · have shorter : t.length < n := by
        rw [← h, List.length_append, List.length_cons]
        omega
      rw [List.append_assoc, List.cons_append, splitOn_append_feed noFeed, List.count_append,
        List.count_cons_self, List.count_eq_zero_of_not_mem noFeed, Nat.zero_add,
        List.getElem?_cons_succ, sinceFeed_append_feed]
      exact ih t.length shorter t rfl

theorem getElem?_textLines {text : String} {before after : List Char}
    (split : text.toList = before ++ after) :
    (textLines text)[before.count '\n']? = some (sinceFeed before ++ untilFeed after) := by
  rw [textLines, split, getElem?_splitOn]

/-! ## Order -/

theorem sinceFeed_append {s t : List Char} (noFeed : '\n' ∉ t) :
    sinceFeed (s ++ t) = sinceFeed s ++ t := by
  induction t using List.reverseRecOn with
  | nil => rw [List.append_nil, List.append_nil]
  | append_singleton t c ih =>
    obtain ⟨front, last⟩ : '\n' ∉ t ∧ '\n' ≠ c := by simpa using noFeed
    rw [← List.append_assoc, sinceFeed, List.rtakeWhile_concat_pos _ _ _ (by simpa using last.symm),
      ← List.append_assoc]
    exact congrArg (· ++ [c]) (ih front)

/-- A place comes before all that have more of the text in front of them. -/
theorem precedes_after (before : List Char) {more : List Char} (some : more ≠ []) :
    (Position.start.after before).Precedes (Position.start.after (before ++ more)) := by
  rw [Position.start_after, Position.start_after]
  by_cases feed : '\n' ∈ more
  · have positive := List.count_pos_iff.mpr feed
    left
    show 1 + before.count '\n' < 1 + (before ++ more).count '\n'
    rw [List.count_append]
    omega
  · have positive := List.length_pos_iff.mpr some
    refine .inr ⟨?_, ?_⟩
    · show 1 + before.count '\n' = 1 + (before ++ more).count '\n'
      rw [List.count_append, List.count_eq_zero_of_not_mem feed, Nat.add_zero]
    · show 1 + (sinceFeed before).length < 1 + (sinceFeed (before ++ more)).length
      rw [sinceFeed_append feed, List.length_append]
      omega

theorem byteCount_pos {cs : List Char} (some : cs ≠ []) : 0 < byteCount cs := by
  obtain ⟨c, cs, rfl⟩ := List.exists_cons_of_ne_nil some
  exact Nat.add_pos_left c.utf8Size_pos _

/-- Of two beginnings of a text, the one with fewer bytes is the beginning of the other. -/
theorem exists_append_of_byteCount_lt {before after before' after' : List Char}
    (same : before ++ after = before' ++ after') (less : byteCount before < byteCount before') :
    ∃ more, more ≠ [] ∧ before' = before ++ more := by
  obtain ⟨more, rfl, _⟩ | ⟨more, rfl, _⟩ := List.append_eq_append_iff.mp same
  · refine ⟨more, ?_, rfl⟩
    rintro rfl
    simp at less
  · rw [byteCount_append] at less
    omega

namespace Lines

/-! ## Offsets -/

/-- An offset that lies between characters has some of them in front of it. -/
theorem exists_split_of_isValid {text : String} {offset : Nat}
    (valid : (⟨offset⟩ : String.Pos.Raw).IsValid text) :
    ∃ before after, text.toList = before ++ after ∧ offset = byteCount before := by
  obtain ⟨before, after, rfl, ends⟩ := String.Pos.Raw.isValid_iff_exists_append.mp valid
  refine ⟨before.toList, after.toList, String.toList_append, ?_⟩
  rw [byteCount_toList]
  exact congrArg String.Pos.Raw.byteIdx ends

theorem precedes_of_lt {text : String} {first second : Nat}
    (valid : (⟨first⟩ : String.Pos.Raw).IsValid text)
    (valid' : (⟨second⟩ : String.Pos.Raw).IsValid text) (less : first < second) :
    ((ofText text).position first).Precedes ((ofText text).position second) := by
  obtain ⟨before, after, split, rfl⟩ := exists_split_of_isValid valid
  obtain ⟨before', after', split', rfl⟩ := exists_split_of_isValid valid'
  obtain ⟨more, some, rfl⟩ := exists_append_of_byteCount_lt (split.symm.trans split') less
  rw [position_ofText split, position_ofText split']
  exact precedes_after before some

theorem line_position {text : String} {before after : List Char} {k : Nat}
    (split : text.toList = before ++ after) (inside : ∀ c ∈ after.head?, k < c.utf8Size) :
    ((ofText text).position (byteCount before + k)).line = 1 + before.count '\n' := by
  rw [position, ofText, split, lineAt_inside inside]

/-- An offset that lies between characters, at the end or behind it is some bytes behind a part of
    the text, and then none unless that part is the whole text. -/
theorem exists_split_of_place {text : String} {offset : Nat}
    (place : (⟨offset⟩ : String.Pos.Raw).IsValid text ∨ text.utf8ByteSize ≤ offset) :
    ∃ before after k, text.toList = before ++ after ∧ offset = byteCount before + k ∧
      (∀ c ∈ after.head?, k < c.utf8Size) ∧ (k = 0 ∨ after = []) := by
  obtain valid | behind := place
  · obtain ⟨before, after, split, rfl⟩ := exists_split_of_isValid valid
    exact ⟨before, after, 0, split, rfl, fun c _ => c.utf8Size_pos, .inl rfl⟩
  · rw [← byteCount_toList] at behind
    exact ⟨text.toList, [], offset - byteCount text.toList, (List.append_nil _).symm, by omega,
      nofun, .inr rfl⟩

/-- Of an offset that lies between characters, the table tells as its line one more than the line
    feeds in front of it, and as its column one more than the characters behind the last of these.
    So places come in the order of the offsets, and different offsets have different places. Of
    such an offset, and of one at the end or behind it, the context is the line with the number
    that is told, without the blanks at its ends. Of every offset, the place and the context are
    those that are cut out of the text. -/
theorem position_counted (text : String) :
    (∀ offset, (⟨offset⟩ : String.Pos.Raw).IsValid text →
      ∃ before after, text.toList = before ++ after ∧ offset = byteCount before ∧
        (ofText text).position offset =
          ⟨offset, 1 + before.count '\n', 1 + (sinceFeed before).length⟩) ∧
    (∀ first second, (⟨first⟩ : String.Pos.Raw).IsValid text →
      (⟨second⟩ : String.Pos.Raw).IsValid text →
        (first < second →
          ((ofText text).position first).Precedes ((ofText text).position second)) ∧
        (first ≠ second →
          (((ofText text).position first).line, ((ofText text).position first).column) ≠
            (((ofText text).position second).line, ((ofText text).position second).column))) ∧
    (∀ offset, (⟨offset⟩ : String.Pos.Raw).IsValid text ∨ text.utf8ByteSize ≤ offset →
      ∃ line, (textLines text)[((ofText text).position offset).line - 1]? = some line ∧
        (ofText text).context? offset = some (String.ofList (trim line)) ∧
        Trimmed line (trim line)) ∧
    ∀ offset, (ofText text).position offset = cutPosition text.toList offset ∧
      (ofText text).context? offset = cutContext? text.toList offset := by
  refine ⟨fun offset valid => ?_, fun first second valid valid' => ⟨?_, fun other same => ?_⟩,
    fun offset place => ?_, fun offset => ?_⟩
  · obtain ⟨before, after, split, rfl⟩ := exists_split_of_isValid valid
    exact ⟨before, after, split, rfl, (position_ofText split).trans (Position.start_after before)⟩
  · exact precedes_of_lt valid valid'
  · obtain ⟨line, column⟩ := Prod.mk.inj same
    obtain less | more := Nat.lt_or_gt_of_ne other
    · obtain above | ⟨_, left⟩ := precedes_of_lt valid valid' less <;> omega
    · obtain above | ⟨_, left⟩ := precedes_of_lt valid' valid more <;> omega
  · obtain ⟨before, after, k, split, rfl, inside, shape⟩ := exists_split_of_place place
    refine ⟨_, ?_, context?_of_split split shape, trimmed_iff.mpr rfl⟩
    rw [line_position split inside, Nat.add_sub_cancel_left]
    exact getElem?_textLines split
  · exact ⟨position_eq_cutPosition _ offset, context?_eq_cutContext? _ offset⟩

/-- A blank line and a character of two bytes are in front of the last line. An offset behind the
    end is in that line, and one inside of the character has no context. -/
theorem position_counted_behind_blank_line :
    (⟨4⟩ : String.Pos.Raw).IsValid "é\n\n a" ∧
      (∃ before after, "é\n\n a".toList = before ++ after ∧ 4 = byteCount before ∧
        (ofText "é\n\n a").position 4 =
          ⟨4, 1 + before.count '\n', 1 + (sinceFeed before).length⟩) ∧
      ((ofText "é\n\n a").position 2).Precedes ((ofText "é\n\n a").position 4) ∧
      (∃ line, (textLines "é\n\n a")[((ofText "é\n\n a").position 9).line - 1]? = some line ∧
        (ofText "é\n\n a").context? 9 = some (String.ofList (trim line)) ∧
        Trimmed line (trim line)) ∧
      (ofText "é\n\n a").context? 1 = none := by
  have valid : ∀ offset ∈ [2, 4], (⟨offset⟩ : String.Pos.Raw).IsValid "é\n\n a" := by decide
  obtain ⟨counted, ordered, context, cut⟩ := position_counted "é\n\n a"
  exact ⟨valid 4 (by decide), counted 4 (valid 4 (by decide)),
    (ordered 2 4 (valid 2 (by decide)) (valid 4 (by decide))).1 (by decide),
    context 9 (.inr (by decide)), (cut 1).2.trans (by decide +kernel)⟩

end Lines

end Text

end Pseudocode
