import Pseudocode.Proofs.Parsing.Completion
import Pseudocode.Proofs.Parsing.Foresight
import Pseudocode.Proofs.Parsing.Programs
import Pseudocode.Proofs.Places.Lines
import Pseudocode.Token.Scan

/-! # A program fails at the first impossible token

Where reading a program fails, the token that remains first is to blame: the tokens before it are
the beginning of a program, and with it they are the beginning of none.

* `same_fault`: the fault stays whatever comes behind that token, since parsers look no further.
* `completed`: the tokens before it are completed to a program, unless the limit was met.
* `fails_at_first_impossible_token`: both, with the place that is told.
-/

namespace Pseudocode.Parser

open Grammar

variable {ts rest : List Located}

/-- With the same token behind them, the tokens that were taken fail in the same way. -/
theorem same_fault {fault : ParseFault} {taken : List Located} {next : Located}
    (failed : program (taken ++ next :: rest) = .error fault (next :: rest)) (more : List Located) :
    program (taken ++ next :: more) = .error fault (next :: more) := by
  obtain ⟨taken', whole, same⟩ := program_foresight.error failed
  obtain rfl : taken = taken' := List.append_cancel_right whole
  exact same (next :: more) rfl

/-- The tokens that were taken are the beginning of a program, unless the limit was met. -/
theorem completed {fault : ParseFault} (lines : Text.Lines)
    (failed : program ts = .error fault rest) (other : fault ≠ .tooDeep) :
    ∃ taken more p, ts = taken ++ rest ∧ Program.ofTokens lines (taken ++ more) = .ok p := by
  have viable := program_viable ts
  rw [failed] at viable
  obtain ⟨s, p, ⟨taken, whole, more, rfl⟩, block, shallow⟩ := viable other
  have derived : Derives (taken ++ more) p := by simpa [Derives] using block []
  refine ⟨taken, more, p, whole, ofTokens_eq_ok.mpr ?_⟩
  exact (statements_eq_ok (statement_reads nestingLimit)).mpr ⟨derived, Nat.le_of_lt_succ shallow⟩

/-- Let `i` be the number of tokens that were taken before reading a program failed, with places
    told from the lines of a text. The place of the error is that of token `i`, or, if there is
    none, the end of the text, as counted from its beginning. Whatever comes behind token `i`,
    the error is the same. The tokens before it are the beginning of a program, unless nesting
    was too deep. -/
theorem fails_at_first_impossible_token {text : String} {e : ParseError}
    (failed : program.runOn (.ofText text) ts = (.error e, rest)) :
    ∃ i ≤ ts.length, rest = ts.drop i ∧
      (∀ next, ts[i]? = some next → e.pos = next.pos) ∧
      (i = ts.length → e.pos = Position.start.after text.toList ∧
        e.pos.line = 1 + text.toList.count '\n' ∧
        e.pos.column = 1 + (Text.sinceFeed text.toList).length) ∧
      (i < ts.length → ∀ more, program.runOn (.ofText text) (ts.take (i + 1) ++ more) =
        (.error e, (ts.take (i + 1) ++ more).drop i)) ∧
      (e.fault ≠ .tooDeep →
        ∃ more p, Program.ofTokens (.ofText text) (ts.take i ++ more) = .ok p) := by
  obtain ⟨fault, found, rfl⟩ := runOn_eq_error.mp failed
  obtain ⟨taken, rfl, _⟩ := program_foresight.error found
  refine ⟨taken.length, by simp, List.drop_left.symm, ?_, ?_, ?_, ?_⟩
  · intro next inside
    have first : rest.head? = some next := by
      rwa [List.getElem?_append_right (Nat.le_refl _), Nat.sub_self, ← List.head?_eq_getElem?]
        at inside
    obtain ⟨tail, rfl⟩ := List.head?_eq_some_iff.mp first
    rfl
  · intro all
    obtain rfl : rest = [] := by simpa using all
    have finish : (ParseError.ofFault (.ofText text) fault []).pos =
        Position.start.after text.toList := Text.Lines.endPosition_ofText text
    exact ⟨finish, by rw [finish, Position.start_after], by rw [finish, Position.start_after]⟩
  · intro inside more
    obtain ⟨next, tail, rfl⟩ : ∃ next tail, rest = next :: tail :=
      List.exists_cons_of_ne_nil fun none => by simp [none] at inside
    have upTo : (taken ++ next :: tail).take (taken.length + 1) = taken ++ [next] := by
      rw [List.take_length_add_append, List.take_one, List.head?_cons, Option.toList_some]
    rw [upTo, List.append_assoc, List.drop_left]
    exact runOn_eq_error.mpr ⟨fault, same_fault found more, rfl⟩
  · intro other
    obtain ⟨taken', more, p, whole, read⟩ := completed (.ofText text) found other
    obtain rfl : taken = taken' := List.append_cancel_right whole
    exact ⟨more, p, by rwa [List.take_left]⟩

/-- Why a parser failed and which tokens remain, if it failed. -/
def failure? {α : Type} : EStateM.Result ParseFault (List Located) α →
    Option (ParseFault × List Located)
  | .ok _ _ => none
  | .error fault rest => some (fault, rest)

theorem failure?_eq_some {α : Type} {r : EStateM.Result ParseFault (List Located) α}
    {fault : ParseFault} : failure? r = some (fault, rest) ↔ r = .error fault rest := by
  cases r <;> simp [failure?]

/-- A REPEAT around a call with a sign in front of nothing. -/
def signText : String := "REPEAT\nCALL f(-)\nUNTIL TRUE"

def signTokens : List Located :=
  [⟨.keyword .repeat, ⟨0, 1, 1⟩⟩, ⟨.newline, ⟨6, 1, 7⟩⟩, ⟨.keyword .call, ⟨7, 2, 1⟩⟩,
    ⟨.name "f", ⟨12, 2, 6⟩⟩, ⟨.symbol .openParen, ⟨13, 2, 7⟩⟩, ⟨.symbol .minus, ⟨14, 2, 8⟩⟩,
    ⟨.symbol .closeParen, ⟨15, 2, 9⟩⟩, ⟨.newline, ⟨16, 2, 10⟩⟩, ⟨.keyword .until, ⟨17, 3, 1⟩⟩,
    ⟨.keyword .true, ⟨23, 3, 7⟩⟩]

/-- A sum that ends behind its operator, and behind a character of two bytes. -/
def sumText : String := "\nOUTPUT \"é\" +"

def sumTokens : List Located :=
  [⟨.newline, ⟨0, 1, 1⟩⟩, ⟨.keyword .output, ⟨1, 2, 1⟩⟩, ⟨.string "é", ⟨8, 2, 8⟩⟩,
    ⟨.symbol .plus, ⟨13, 2, 12⟩⟩]

/-- The sign lacks its operand at a token, which is told of the parenthesis whatever follows, and
    the sum lacks one at the end of the text, which is told of the end. Both could have become a
    program up to there. -/
theorem operands_missing :
    (tokenize signText = .ok signTokens ∧ ∃ e : ParseError, e.fault = .expected .expression ∧
      e.pos = ⟨15, 2, 9⟩ ∧
      program.runOn (.ofText signText) signTokens = (.error e, signTokens.drop 6) ∧
      (∀ more, program.runOn (.ofText signText) (signTokens.take 7 ++ more) =
        (.error e, (signTokens.take 7 ++ more).drop 6)) ∧
      ∃ more p, Program.ofTokens (.ofText signText) (signTokens.take 6 ++ more) = .ok p) ∧
    tokenize sumText = .ok sumTokens ∧ ∃ e : ParseError, e.fault = .expected .expression ∧
      e.pos = ⟨14, 2, 13⟩ ∧ e.pos = Position.start.after sumText.toList ∧
      program.runOn (.ofText sumText) sumTokens = (.error e, []) ∧
      ∃ more p, Program.ofTokens (.ofText sumText) (sumTokens ++ more) = .ok p := by
  refine ⟨⟨by decide +kernel, ?_⟩, by decide +kernel, ?_⟩
  · have found : program signTokens = .error (.expected .expression) (signTokens.drop 6) :=
      failure?_eq_some.mp (by decide +kernel)
    have failed : program.runOn (.ofText signText) signTokens =
        (.error (.ofFault (.ofText signText) _ _), _) := runOn_eq_error.mpr ⟨_, found, rfl⟩
    obtain ⟨i, within, taken, place, -, same, viable⟩ := fails_at_first_impossible_token failed
    obtain rfl : i = 6 := by
      have size := congrArg List.length taken
      simp only [signTokens, List.length_drop, List.length_cons, List.length_nil] at size within
      omega
    exact ⟨_, rfl, place _ rfl, failed, same (by decide), viable nofun⟩
  · have found : program sumTokens = .error (.expected .expression) [] :=
      failure?_eq_some.mp (by decide +kernel)
    have failed : program.runOn (.ofText sumText) sumTokens =
        (.error (.ofFault (.ofText sumText) _ _), _) := runOn_eq_error.mpr ⟨_, found, rfl⟩
    obtain ⟨i, within, taken, -, finish, -, viable⟩ := fails_at_first_impossible_token failed
    obtain rfl : i = 4 := Nat.le_antisymm within (List.drop_eq_nil_iff.mp taken.symm)
    have atEnd := (finish rfl).1
    exact ⟨_, rfl, atEnd.trans (by decide +kernel), atEnd, failed, viable nofun⟩

end Pseudocode.Parser
