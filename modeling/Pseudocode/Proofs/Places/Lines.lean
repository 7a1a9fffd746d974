import Mathlib.Data.List.DropRight
import Mathlib.Data.Nat.Init
import Pseudocode.Text.Lines

/-! # Places in the table of lines

A text is `before ++ after`, and asked is what the table of its lines tells of the place between
the two.

* `upToFeed`, `sinceFeed`: what is in front of the line that a text ends in, and that line.
* `lineAt_append`, `lineAt_inside`: the line at the place, which is also the line at an offset
  inside the character behind it.
* `position_append`, `endPosition_ofText`: the table and `Position.after` agree.
* `cutPosition`, `cutContext?`: what the table tells, as it is cut out of the text by bytes. There
  is a context exactly if all that is cut lies between characters.
-/

namespace Pseudocode

namespace Text

/-! ## Line feeds -/

/-- The text up to its last line feed and with it. -/
def upToFeed (cs : List Char) : List Char := cs.rdropWhile (· ≠ '\n')

/-- The text behind its last line feed. -/
def sinceFeed (cs : List Char) : List Char := cs.rtakeWhile (· ≠ '\n')

/-- The text in front of its first line feed. -/
def untilFeed (cs : List Char) : List Char := cs.takeWhile (· ≠ '\n')

theorem upToFeed_append_sinceFeed (cs : List Char) : upToFeed cs ++ sinceFeed cs = cs :=
  List.rdropWhile_append_rtakeWhile

theorem forall_ne_feed {cs : List Char} (noFeed : '\n' ∉ cs) :
    ∀ c ∈ cs, decide (c ≠ '\n') = true := fun c member => by
  simpa using fun same : c = '\n' => noFeed (same ▸ member)

theorem sinceFeed_of_noFeed {cs : List Char} (noFeed : '\n' ∉ cs) : sinceFeed cs = cs :=
  List.rtakeWhile_eq_self_iff.mpr (forall_ne_feed noFeed)

theorem upToFeed_of_noFeed {cs : List Char} (noFeed : '\n' ∉ cs) : upToFeed cs = [] :=
  List.rdropWhile_eq_nil_iff.mpr (forall_ne_feed noFeed)

theorem untilFeed_of_noFeed {cs : List Char} (noFeed : '\n' ∉ cs) : untilFeed cs = cs :=
  List.takeWhile_eq_self_iff.mpr (forall_ne_feed noFeed)

theorem untilFeed_append {s t : List Char} (noFeed : '\n' ∉ s) :
    untilFeed (s ++ t) = s ++ untilFeed t :=
  List.takeWhile_append_of_pos (forall_ne_feed noFeed)

theorem untilFeed_feed (t : List Char) : untilFeed ('\n' :: t) = [] :=
  List.takeWhile_cons_of_neg (by decide)

theorem sinceFeed_append_feed (s t : List Char) :
    sinceFeed (s ++ '\n' :: t) = sinceFeed t := by
  induction t using List.reverseRecOn with
  | nil => exact List.rtakeWhile_concat_neg _ _ _ (by decide)
  | append_singleton t c ih =>
    rw [← List.cons_append, ← List.append_assoc, sinceFeed, sinceFeed, List.rtakeWhile_concat,
      List.rtakeWhile_concat]
    exact congrArg (fun line => if decide (c ≠ '\n') then line ++ [c] else []) ih

theorem upToFeed_append_feed (s t : List Char) :
    upToFeed (s ++ '\n' :: t) = s ++ '\n' :: upToFeed t := by
  have whole : upToFeed (s ++ '\n' :: t) ++ sinceFeed t = s ++ '\n' :: upToFeed t ++ sinceFeed t := by
    rw [← sinceFeed_append_feed s t, upToFeed_append_sinceFeed, sinceFeed_append_feed,
      List.append_assoc, List.cons_append, upToFeed_append_sinceFeed]
  exact List.append_cancel_right whole

theorem untilFeed_head {cs : List Char} {P : Char → Prop} (head : ∀ c ∈ cs.head?, P c) :
    ∀ c ∈ (untilFeed cs).head?, P c := by
  cases cs with
  | nil => exact head
  | cons d cs =>
    by_cases same : d = '\n'
    · subst same
      rw [untilFeed_feed]
      exact nofun
    · rw [← List.singleton_append, untilFeed_append (by simpa using Ne.symm same)]
      exact head

/-- A text has no line feed, or it has a first one. -/
theorem feed_cases (cs : List Char) :
    '\n' ∉ cs ∨ ∃ s t, cs = s ++ '\n' :: t ∧ '\n' ∉ s := by
  by_cases member : '\n' ∈ cs
  · exact .inr (List.eq_append_cons_of_mem member)
  · exact .inl member

/-! ## Bytes -/

theorem byteCount_toList (text : String) : byteCount text.toList = text.utf8ByteSize := by
  have listed (cs : List Char) : byteCount cs = (String.ofList cs).utf8ByteSize := by
    induction cs with
    | nil => rfl
    | cons c cs ih =>
      rw [← List.singleton_append, String.ofList_append, String.utf8ByteSize_append,
        byteCount_append, ih]
      simp [byteCount]
  rw [listed, String.ofList_toList]

theorem charCount?_append (s t : List Char) : Lines.charCount? (byteCount s) (s ++ t) = some s.length := by
  induction s with
  | nil => simp [byteCount, Lines.charCount?]
  | cons c s ih =>
    have := c.utf8Size_pos
    obtain ⟨n, size⟩ : ∃ n, byteCount (c :: s) = n + 1 := ⟨c.utf8Size + byteCount s - 1, by
      simp only [byteCount]; omega⟩
    rw [size, List.cons_append, Lines.charCount?, ← size]
    simp [byteCount, ih]

/-- No characters make up the bytes up to an offset inside the one behind `s`, or behind the end. -/
theorem charCount?_inside {s t : List Char} {k : Nat} (positive : 0 < k)
    (inside : ∀ c ∈ t.head?, k < c.utf8Size) : Lines.charCount? (byteCount s + k) (s ++ t) = none := by
  induction s with
  | nil =>
    obtain ⟨n, rfl⟩ := Nat.exists_eq_add_of_lt positive
    cases t with
    | nil => simp [byteCount, Lines.charCount?]
    | cons c t =>
      have := inside c rfl
      simp only [byteCount, List.nil_append, Nat.zero_add] at this ⊢
      rw [Lines.charCount?, if_neg (by omega)]
  | cons c s ih =>
    obtain ⟨n, size⟩ : ∃ n, byteCount (c :: s) + k = n + 1 :=
      ⟨byteCount (c :: s) + k - 1, by omega⟩
    rw [size, List.cons_append, Lines.charCount?, ← size]
    have rest : byteCount (c :: s) + k - c.utf8Size = byteCount s + k := by
      simp only [byteCount]; omega
    rw [rest, ih]
    simp

/-! ## The table -/

namespace Lines

theorem ofChars_of_noFeed {start : Nat} {cs : List Char} (noFeed : '\n' ∉ cs) :
    ofChars start cs = ⟨⟨start, cs⟩, []⟩ := by
  rw [ofChars]
  split
  · rw [List.takeWhile_eq_self_iff.mpr (forall_ne_feed noFeed)]
  · rename_i rest found
    rw [List.dropWhile_eq_nil_iff.mpr (forall_ne_feed noFeed)] at found
    cases found

theorem ofChars_append_feed {start : Nat} {s : List Char} (noFeed : '\n' ∉ s) (t : List Char) :
    ofChars start (s ++ '\n' :: t) =
      ⟨⟨start, s⟩, (ofChars (start + byteCount s + 1) t).first ::
        (ofChars (start + byteCount s + 1) t).others⟩ := by
  have line : (s ++ '\n' :: t).takeWhile (· ≠ '\n') = s := by
    simpa [untilFeed] using untilFeed_append (t := '\n' :: t) noFeed
  have behind : (s ++ '\n' :: t).dropWhile (· ≠ '\n') = '\n' :: t := by
    rw [List.dropWhile_append_of_pos (forall_ne_feed noFeed)]
    exact List.dropWhile_cons_of_neg (by decide)
  rw [ofChars]
  split
  · rename_i found
    cases behind.symm.trans found
  · rename_i rest found
    cases behind.symm.trans found
    rw [line]

theorem start_first_ofChars (start : Nat) (cs : List Char) :
    (ofChars start cs).first.start = start := by
  rw [ofChars]
  split <;> rfl

/-- The line at a place, and at an offset that is `k` bytes inside the character behind it. -/
theorem search_ofChars (start number : Nat) {before after : List Char} {k : Nat}
    (inside : ∀ c ∈ after.head?, k < c.utf8Size) :
    search (start + byteCount before + k) number (ofChars start (before ++ after)).first
        (ofChars start (before ++ after)).others =
      (number + before.count '\n',
        ⟨start + byteCount (upToFeed before), sinceFeed before ++ untilFeed after⟩) := by
  -- On the length of the text in front, since the lines behind its first line feed are a table
  -- of their own.
  induction h : before.length using Nat.strong_induction_on generalizing start number before with
  | _ n ih =>
    obtain noFeed | ⟨s, t, rfl, noFeed⟩ := feed_cases before
    · rw [sinceFeed_of_noFeed noFeed, upToFeed_of_noFeed noFeed, List.count_eq_zero_of_not_mem noFeed]
      obtain noFeed' | ⟨s, t, rfl, noFeed'⟩ := feed_cases after
      · rw [ofChars_of_noFeed (by simp [noFeed, noFeed']), search,
          untilFeed_of_noFeed noFeed']
        rfl
      · have behind : k < byteCount s + 1 := by
          cases s with
          | nil => exact inside '\n' rfl
          | cons c s =>
            have := inside c rfl
            simp only [byteCount]
            omega
        rw [← List.append_assoc, ofChars_append_feed (by simp [noFeed, noFeed']), search,
          start_first_ofChars, if_neg (by rw [byteCount_append]; omega), untilFeed_append noFeed',
          untilFeed_feed, List.append_nil]
        rfl
    · have size : byteCount (s ++ '\n' :: t) = byteCount s + 1 + byteCount t := by
        simp only [byteCount_append, byteCount, show ('\n').utf8Size = 1 from rfl]
        omega
      have shorter : t.length < n := by
        simp only [← h, List.length_append, List.length_cons]
        omega
      have later := ih t.length shorter (start + byteCount s + 1) (number + 1) rfl
      rw [List.append_assoc, List.cons_append, ofChars_append_feed noFeed, search,
        start_first_ofChars, if_pos (by omega), sinceFeed_append_feed, upToFeed_append_feed,
        List.count_append, List.count_cons_self, List.count_eq_zero_of_not_mem noFeed, size]
      rw [show start + (byteCount s + 1 + byteCount t) + k = start + byteCount s + 1 + byteCount t + k
        by omega, later]
      simp only [byteCount_append, byteCount, show ('\n').utf8Size = 1 from rfl]
      rw [Prod.mk.injEq, Line.mk.injEq]
      exact ⟨by omega, by omega, rfl⟩

theorem lineAt_inside {before after : List Char} {k : Nat}
    (inside : ∀ c ∈ after.head?, k < c.utf8Size) :
    (ofChars 0 (before ++ after)).lineAt (byteCount before + k) =
      (1 + before.count '\n', ⟨byteCount (upToFeed before), sinceFeed before ++ untilFeed after⟩) := by
  simpa [lineAt] using search_ofChars 0 1 inside

theorem lineAt_append (before after : List Char) :
    (ofChars 0 (before ++ after)).lineAt (byteCount before) =
      (1 + before.count '\n', ⟨byteCount (upToFeed before), sinceFeed before ++ untilFeed after⟩) :=
  lineAt_inside (k := 0) fun c _ => c.utf8Size_pos

theorem size_ofChars (start : Nat) (cs : List Char) :
    (ofChars start cs).size = start + byteCount cs := by
  induction h : cs.length using Nat.strong_induction_on generalizing start cs with
  | _ n ih =>
    obtain noFeed | ⟨s, t, rfl, noFeed⟩ := feed_cases cs
    · rw [ofChars_of_noFeed noFeed]
      rfl
    · have later := ih t.length (by simp [← h]; omega) (start + byteCount s + 1) t rfl
      rw [ofChars_append_feed noFeed, byteCount_append]
      simp only [size, List.getLast_cons_cons] at later ⊢
      rw [later]
      simp only [byteCount, show ('\n').utf8Size = 1 from rfl]
      omega

/-! ## Line and column -/

end Lines

end Text

theorem Position.start_after (cs : List Char) : Position.start.after cs =
    ⟨Text.byteCount cs, 1 + cs.count '\n', 1 + (Text.sinceFeed cs).length⟩ := by
  induction cs using List.reverseRecOn with
  | nil => rfl
  | append_singleton cs c ih =>
    rw [Position.after_append, ih]
    show Position.advance _ c = _
    by_cases same : c = '\n'
    · simp [Position.advance, same, Text.sinceFeed, Text.byteCount, Nat.add_assoc]
    · simp [Position.advance, same, Text.sinceFeed, Text.byteCount, Nat.add_assoc]

namespace Text

namespace Lines

/-- How far into its line an offset is. -/
theorem byteCount_sub_upToFeed (before : List Char) (k : Nat) :
    byteCount before + k - byteCount (upToFeed before) = byteCount (sinceFeed before) + k := by
  have sizes := congrArg byteCount (upToFeed_append_sinceFeed before)
  rw [byteCount_append] at sizes
  omega

theorem position_append (before after : List Char) :
    (ofChars 0 (before ++ after)).position (byteCount before) = Position.start.after before := by
  have inLine := byteCount_sub_upToFeed before 0
  rw [Nat.add_zero, Nat.add_zero] at inLine
  rw [position, lineAt_append, Position.start_after]
  simp only
  rw [inLine, charCount?_append, Option.getD_some, Nat.add_comm (List.length _)]

theorem position_ofText {text : String} {before after : List Char}
    (split : text.toList = before ++ after) :
    (ofText text).position (byteCount before) = Position.start.after before := by
  rw [ofText, split]
  exact position_append before after

theorem endPosition_ofText (text : String) :
    (ofText text).endPosition = Position.start.after text.toList := by
  rw [endPosition, ofText, size_ofChars, Nat.zero_add]
  exact position_ofText (List.append_nil _).symm

/-- The line at an offset that lies between characters, or behind the end. -/
theorem context?_of_split {text : String} {before after : List Char} {k : Nat}
    (split : text.toList = before ++ after) (place : k = 0 ∨ after = []) :
    (ofText text).context? (byteCount before + k) =
      some (String.ofList (trim (sinceFeed before ++ untilFeed after))) := by
  have clamped : min (byteCount before + k) (byteCount (before ++ after)) = byteCount before := by
    rw [byteCount_append]
    obtain rfl | rfl := place
    · omega
    · rw [byteCount]
      omega
  have inLine := byteCount_sub_upToFeed before 0
  rw [Nat.add_zero, Nat.add_zero] at inLine
  rw [context?, ofText, split, size_ofChars, Nat.zero_add, clamped]
  simp only [context, lineAt_append]
  rw [inLine, charCount?_append]
  rfl

end Lines

/-! ## Slices -/

/-- The characters between two offsets in bytes, if both lie between characters and are in order. -/
def slice? (cs : List Char) (start stop : Nat) : Option (List Char) := do
  let first ← Lines.charCount? start cs
  let last ← Lines.charCount? stop cs
  if start ≤ stop then some ((cs.take last).drop first) else none

theorem slice?_append (before inside after : List Char) :
    slice? (before ++ inside ++ after) (byteCount before) (byteCount (before ++ inside)) =
      some inside := by
  have first := charCount?_append before (inside ++ after)
  have last := charCount?_append (before ++ inside) after
  rw [← List.append_assoc] at first
  rw [slice?, first, last, Option.bind_eq_bind, Option.bind_some, Option.bind_some,
    if_pos (by simp), List.take_left, List.drop_left]

/-- Both ends of the range lie between characters of the text and are in order. -/
def IsSlice (text : String) (range : Nat × Nat) : Prop :=
  range.1 ≤ range.2 ∧ (⟨range.1⟩ : String.Pos.Raw).IsValid text ∧
    (⟨range.2⟩ : String.Pos.Raw).IsValid text

theorem isValid_byteCount {text : String} {before after : List Char}
    (split : text.toList = before ++ after) :
    (⟨byteCount before⟩ : String.Pos.Raw).IsValid text := by
  refine String.Pos.Raw.isValid_iff_exists_append.mpr
    ⟨String.ofList before, String.ofList after, ?_, ?_⟩
  · rw [← String.ofList_append, ← split, String.ofList_toList]
  · rw [String.Pos.Raw.ext_iff, String.byteIdx_rawEndPos, ← byteCount_toList, String.toList_ofList]

theorem isSlice_append {text : String} {before inside after : List Char}
    (split : text.toList = before ++ inside ++ after) :
    IsSlice text (byteCount before, byteCount (before ++ inside)) :=
  ⟨by simp, isValid_byteCount (split.trans (List.append_assoc ..)), isValid_byteCount split⟩

/-- An offset lies between two characters, or inside the one behind `before`, or behind the end. -/
theorem exists_split (cs : List Char) (offset : Nat) :
    ∃ before after k, cs = before ++ after ∧ offset = byteCount before + k ∧
      ∀ c ∈ after.head?, k < c.utf8Size := by
  induction cs generalizing offset with
  | nil => exact ⟨[], [], offset, rfl, (Nat.zero_add _).symm, nofun⟩
  | cons c cs ih =>
    by_cases inside : offset < c.utf8Size
    · exact ⟨[], c :: cs, offset, rfl, (Nat.zero_add _).symm, by simpa using inside⟩
    · obtain ⟨before, after, k, rfl, rest, within⟩ := ih (offset - c.utf8Size)
      exact ⟨c :: before, after, k, rfl, by simp only [byteCount]; omega, within⟩

theorem isSome_charCount?_iff {text : String} {offset : Nat} :
    (Lines.charCount? offset text.toList).isSome ↔ (⟨offset⟩ : String.Pos.Raw).IsValid text := by
  constructor
  · intro counted
    obtain ⟨before, after, k, split, rfl, inside⟩ := exists_split text.toList offset
    obtain rfl | positive := Nat.eq_zero_or_pos k
    · exact isValid_byteCount split
    · rw [split, charCount?_inside positive inside] at counted
      cases counted
  · intro valid
    obtain ⟨before, after, rfl, ends⟩ := String.Pos.Raw.isValid_iff_exists_append.mp valid
    obtain rfl : offset = before.utf8ByteSize := congrArg String.Pos.Raw.byteIdx ends
    rw [← byteCount_toList, String.toList_append, charCount?_append]
    rfl

/-- What can be cut out of a text. -/
theorem isSome_slice?_iff {text : String} {start stop : Nat} :
    (slice? text.toList start stop).isSome ↔ IsSlice text (start, stop) := by
  rw [IsSlice, ← isSome_charCount?_iff, ← isSome_charCount?_iff, slice?]
  cases Lines.charCount? start text.toList <;> cases Lines.charCount? stop text.toList <;>
    by_cases order : start ≤ stop <;> simp [order]

/-- Nothing is cut out up to an offset inside a character or behind the end. -/
theorem slice?_inside {before after : List Char} {start k : Nat} (positive : 0 < k)
    (inside : ∀ c ∈ after.head?, k < c.utf8Size) :
    slice? (before ++ after) start (byteCount before + k) = none := by
  rw [slice?, charCount?_inside positive inside]
  cases Lines.charCount? start (before ++ after) <;> rfl

namespace Lines

/-- The bytes in front of an offset in its line. -/
def columnSlice (ls : Lines) (offset : Nat) : Nat × Nat := ((ls.lineAt offset).2.start, offset)

/-- What is in front of an offset, what is behind it, and the line around it, from behind the last
    line feed in the one to the first in the other. An offset behind the end stands for the end. -/
def contextSlices (cs : List Char) (offset : Nat) : List (Nat × Nat) :=
  let offset := min offset (byteCount cs)
  let front := (slice? cs 0 offset).getD []
  let back := (slice? cs offset (byteCount cs)).getD []
  [(0, offset), (offset, byteCount cs),
    (byteCount (upToFeed front), offset + byteCount (untilFeed back))]

/-- At a place, all is cut from there and from the ends of its line. -/
theorem contextSlices_append (before after : List Char) :
    contextSlices (before ++ after) (byteCount before) =
      [(byteCount [], byteCount ([] ++ before)),
        (byteCount before, byteCount (before ++ after)),
        (byteCount (upToFeed before),
          byteCount (upToFeed before ++ (sinceFeed before ++ untilFeed after)))] := by
  have front : slice? (before ++ after) 0 (byteCount before) = some before :=
    slice?_append [] before after
  have back : slice? (before ++ after) (byteCount before) (byteCount (before ++ after)) =
      some after := by
    simpa using slice?_append before after []
  have within : min (byteCount before) (byteCount (before ++ after)) = byteCount before := by
    simp
  rw [contextSlices, within, front, back, ← List.append_assoc, upToFeed_append_sinceFeed,
    byteCount_append before (untilFeed after)]
  rfl

theorem append_line_append (before after : List Char) :
    upToFeed before ++ (sinceFeed before ++ untilFeed after) ++ after.dropWhile (· ≠ '\n') =
      before ++ after := by
  rw [← List.append_assoc, upToFeed_append_sinceFeed, List.append_assoc, untilFeed,
    List.takeWhile_append_dropWhile]

theorem isSlice_columnSlice {text : String} {before after : List Char}
    (split : text.toList = before ++ after) :
    IsSlice text ((ofText text).columnSlice (byteCount before)) := by
  have whole : text.toList = upToFeed before ++ sinceFeed before ++ after := by
    rwa [upToFeed_append_sinceFeed]
  have cut := isSlice_append whole
  rw [upToFeed_append_sinceFeed] at cut
  rwa [columnSlice, ofText, split, lineAt_append]

theorem isSlice_contextSlices {text : String} {before after : List Char}
    (split : text.toList = before ++ after) :
    ∀ range ∈ contextSlices text.toList (byteCount before), IsSlice text range := by
  rw [split, contextSlices_append]
  intro range member
  simp only [List.mem_cons, List.not_mem_nil, or_false] at member
  obtain rfl | rfl | rfl := member
  · exact isSlice_append split
  · exact isSlice_append (split.trans (List.append_nil _).symm)
  · exact isSlice_append (split.trans (append_line_append before after).symm)

/-- The place of an offset as it is told by a slice: its column counts the characters in front of it
    in its line, and the bytes if these are not whole characters. -/
def cutPosition (cs : List Char) (offset : Nat) : Position :=
  let range := (ofChars 0 cs).columnSlice offset
  ⟨offset, ((ofChars 0 cs).lineAt offset).1,
    (slice? cs range.1 range.2).elim (offset - range.1) List.length + 1⟩

/-- The line around an offset as it is cut out of the text, without the blanks at its ends: the last
    of three slices, and none unless all of them can be cut. -/
def cutContext? (cs : List Char) (offset : Nat) : Option String :=
  ((contextSlices cs offset).mapM fun range => slice? cs range.1 range.2).map
    fun slices => String.ofList (trim (slices.getLastD []))

theorem position_eq_cutPosition (cs : List Char) (offset : Nat) :
    (ofChars 0 cs).position offset = cutPosition cs offset := by
  obtain ⟨before, after, k, rfl, rfl, inside⟩ := exists_split cs offset
  rw [position, cutPosition, columnSlice, lineAt_inside inside]
  simp only
  rw [byteCount_sub_upToFeed]
  obtain rfl | positive := Nat.eq_zero_or_pos k
  · have cut := slice?_append (upToFeed before) (sinceFeed before) after
    rw [upToFeed_append_sinceFeed] at cut
    simp only [Nat.add_zero, charCount?_append, cut]
    rfl
  · rw [charCount?_inside positive (untilFeed_head inside), slice?_inside positive inside]
    rfl

theorem context?_eq_cutContext? (cs : List Char) (offset : Nat) :
    (ofChars 0 cs).context? offset = cutContext? cs offset := by
  have clamped : contextSlices cs offset = contextSlices cs (min offset (byteCount cs)) := by
    simp [contextSlices]
  rw [cutContext?, context?, size_ofChars, Nat.zero_add, clamped]
  have within := Nat.min_le_right offset (byteCount cs)
  generalize min offset (byteCount cs) = offset at within
  obtain ⟨before, after, k, rfl, rfl, inside⟩ := exists_split cs offset
  simp only [context, lineAt_inside inside]
  rw [byteCount_sub_upToFeed]
  obtain rfl | positive := Nat.eq_zero_or_pos k
  · have line := slice?_append (upToFeed before) (sinceFeed before ++ untilFeed after)
      (after.dropWhile (· ≠ '\n'))
    have front := slice?_append [] before after
    have back := slice?_append before after []
    rw [append_line_append] at line
    rw [List.append_nil] at back
    simp only [Nat.add_zero, charCount?_append, contextSlices_append, List.mapM_cons,
      List.mapM_nil, line, back]
    rw [show slice? (before ++ after) (byteCount []) (byteCount ([] ++ before)) = some before from
      front]
    rfl
  · rw [charCount?_inside positive (untilFeed_head inside), contextSlices, Nat.min_eq_left within,
      List.mapM_cons, show slice? (before ++ after) 0 (byteCount before + k) = none from
        slice?_inside positive inside]
    rfl

end Lines

end Text

end Pseudocode
