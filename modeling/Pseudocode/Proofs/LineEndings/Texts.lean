import Pseudocode.Proofs.Places.Diagnostics

/-! # Lines that end in a carriage return

* `withReturns`: a text with a carriage return in front of each line feed.
* `Position.returned`: where a place is then. Line and column are the same
  (`start_after_withReturns`), and so is the line around it without the blanks at its ends
  (`lineText_withReturns`).
-/

namespace Pseudocode

namespace Text

def withReturns (cs : List Char) : List Char :=
  cs.flatMap fun c => if c = '\n' then ['\r', '\n'] else [c]

/-- The text with lines that end in two characters. -/
def crlf (text : String) : String := String.ofList (withReturns text.toList)

theorem toList_crlf (text : String) : (crlf text).toList = withReturns text.toList :=
  String.toList_ofList

/-! ## Characters -/

@[simp] theorem withReturns_nil : withReturns [] = [] := rfl

@[simp] theorem withReturns_append (s t : List Char) :
    withReturns (s ++ t) = withReturns s ++ withReturns t :=
  List.flatMap_append

theorem withReturns_feed (t : List Char) :
    withReturns ('\n' :: t) = '\r' :: '\n' :: withReturns t := rfl

theorem withReturns_cons {c : Char} (noFeed : c ≠ '\n') (t : List Char) :
    withReturns (c :: t) = c :: withReturns t := by
  simp [withReturns, noFeed]

theorem withReturns_of_noFeed {cs : List Char} (noFeed : '\n' ∉ cs) : withReturns cs = cs := by
  induction cs with
  | nil => rfl
  | cons c cs ih =>
    obtain ⟨first, rest⟩ := not_or.mp (List.mem_cons.not.mp noFeed)
    rw [withReturns_cons (Ne.symm first), ih rest]

theorem count_withReturns (cs : List Char) : (withReturns cs).count '\n' = cs.count '\n' := by
  induction cs with
  | nil => rfl
  | cons c cs ih =>
    by_cases feed : c = '\n'
    · subst feed
      rw [withReturns_feed, List.count_cons_of_ne (by decide), List.count_cons_self,
        List.count_cons_self, ih]
    · rw [withReturns_cons feed, List.count_cons_of_ne feed, List.count_cons_of_ne feed, ih]

/-- Each line feed is one byte longer. -/
theorem byteCount_withReturns (cs : List Char) :
    byteCount (withReturns cs) = byteCount cs + cs.count '\n' := by
  induction cs with
  | nil => rfl
  | cons c cs ih =>
    by_cases feed : c = '\n'
    · subst feed
      rw [withReturns_feed, List.count_cons_self]
      have back : ('\r').utf8Size = 1 := rfl
      have feed : ('\n').utf8Size = 1 := rfl
      simp only [byteCount, ih, back, feed]
      omega
    · rw [withReturns_cons feed, List.count_cons_of_ne feed]
      simp only [byteCount, ih, Nat.add_assoc]

/-! ## Lines -/

theorem sinceFeed_withReturns (cs : List Char) : sinceFeed (withReturns cs) = sinceFeed cs := by
  induction h : cs.length using Nat.strong_induction_on generalizing cs with
  | _ n ih =>
    obtain noFeed | ⟨s, t, rfl, noFeed⟩ := feed_cases cs
    · rw [withReturns_of_noFeed noFeed]
    · have shorter : t.length < n := by
        simp only [← h, List.length_append, List.length_cons]
        omega
      have later := sinceFeed_append_feed (withReturns s ++ ['\r']) (withReturns t)
      rw [List.append_assoc] at later
      rw [withReturns_append, withReturns_feed, sinceFeed_append_feed, ← ih _ shorter t rfl]
      exact later

theorem untilFeed_withReturns (cs : List Char) :
    untilFeed (withReturns cs) = untilFeed cs ∨
      untilFeed (withReturns cs) = untilFeed cs ++ ['\r'] := by
  obtain noFeed | ⟨s, t, rfl, noFeed⟩ := feed_cases cs
  · exact .inl (by rw [withReturns_of_noFeed noFeed])
  · right
    have line : '\n' ∉ s ++ ['\r'] := by simpa using noFeed
    have whole := untilFeed_append (t := '\n' :: withReturns t) line
    rw [untilFeed_feed, List.append_nil, List.append_assoc] at whole
    have before := untilFeed_append (t := '\n' :: t) noFeed
    rw [untilFeed_feed, List.append_nil] at before
    rw [withReturns_append, withReturns_of_noFeed noFeed, withReturns_feed, before]
    exact whole

/-- A carriage return is a blank. -/
theorem trim_append_return (cs : List Char) : trim (cs ++ ['\r']) = trim cs := by
  have blank : blanks.contains '\r' = true := by decide
  have back (cs : List Char) : trimEnd (cs ++ ['\r']) = trimEnd cs := by
    rw [trimEnd, trimEnd, List.reverse_append, List.reverse_singleton, List.singleton_append,
      List.dropWhile_cons_of_pos blank]
  have front : trimStart (cs ++ ['\r']) = trimStart cs ∨
      trimStart (cs ++ ['\r']) = trimStart cs ++ ['\r'] := by
    rw [trimStart, trimStart, List.dropWhile_append]
    split
    · next none =>
      left
      rw [List.isEmpty_iff.mp none]
      exact List.dropWhile_cons_of_pos blank
    · exact .inr rfl
  obtain same | longer := front
  · rw [trim, trim, same]
  · rw [trim, trim, longer, back]

theorem lineText_withReturns (before after : List Char) :
    lineText (withReturns before) (withReturns after) = lineText before after := by
  unfold lineText
  rw [sinceFeed_withReturns]
  obtain same | longer := untilFeed_withReturns after
  · rw [same]
  · rw [longer, ← List.append_assoc, trim_append_return]

/-- The same in front of a line feed, when the carriage return is on the other side of the place. -/
theorem lineText_feed (before after : List Char) :
    lineText (withReturns before ++ ['\r']) ('\n' :: withReturns after) =
      lineText before ('\n' :: after) := by
  have line : sinceFeed (withReturns before ++ ['\r']) = sinceFeed before ++ ['\r'] := by
    rw [← sinceFeed_withReturns before]
    exact List.rtakeWhile_concat_pos _ _ _ (by decide)
  unfold lineText
  rw [line, untilFeed_feed, untilFeed_feed, List.append_nil, List.append_nil, trim_append_return]

end Text

/-! ## Places -/

/-- The place in the text with carriage returns, of which there is one on each line in front. -/
def Position.returned (p : Position) : Position := { p with offset := p.offset + (p.line - 1) }

theorem Position.start_after_withReturns (cs : List Char) :
    Position.start.after (Text.withReturns cs) = (Position.start.after cs).returned := by
  rw [start_after, start_after, Text.byteCount_withReturns, Text.count_withReturns,
    Text.sinceFeed_withReturns, returned]
  simp

end Pseudocode
