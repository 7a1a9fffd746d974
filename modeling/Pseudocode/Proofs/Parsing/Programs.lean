import Pseudocode.Proofs.Parsing.Statements

/-! # The programs that are read are those of the grammar

* `statements_eq_ok`: with any number of levels, the statements that are read up to the last
  token are those of the grammar that need no more levels.
* `derives_unique`: tokens are at most one program. Enough levels for two of them exist, and
  the parser reads only one.
* `ofTokens_accepts_grammar`: a list of tokens is read as a program exactly if it is that
  program and is nested no deeper than the limit.
-/

namespace Pseudocode.Parser

open Grammar

variable {n : Nat} {ts rest : List Located}

/-- Reads the next statement with the parser, unless no token remains. -/
def nextStatement (statement : Parser Statement) : Parser (Option Statement) := do
  match ← peek with
  | some _ => return some (← statement)
  | none => return none

theorem nextStatement_eq_ok {statement : Parser Statement} {x : Option Statement} :
    nextStatement statement ts = .ok x rest ↔
      (∃ s, x = some s ∧ statement ts = .ok s rest ∧ ts ≠ []) ∨ x = none ∧ ts = [] ∧ rest = [] := by
  rcases ts with _ | ⟨next, ts⟩
  · constructor
    · intro h
      cases h
      exact .inr ⟨rfl, rfl, rfl⟩
    · rintro (⟨_, _, _, empty⟩ | ⟨rfl, _, rfl⟩)
      · exact absurd rfl empty
      · rfl
  · simp only [nextStatement, peek_bind, List.head?_cons, bind_eq_ok, pure_eq_ok]
    constructor
    · rintro ⟨s, _, read, rfl, rfl⟩
      exact .inl ⟨s, rfl, read, nofun⟩
    · rintro (⟨s, rfl, read, _⟩ | ⟨_, ⟨⟩, _⟩)
      exact ⟨s, rest, read, rfl, rfl⟩

section

variable {statement : Parser Statement} (reads : ReadsStatements (n + 1) statement)

include reads

theorem statements_sound {b : List Statement}
    (h : repeatedly (nextStatement statement) ts = .ok b rest) :
    rest = [] ∧ BlockAt ts b rest ∧ Program.nesting b < n + 1 := by
  refine repeatedly_induction
    (P := fun ts b rest => rest = [] ∧ BlockAt ts b rest ∧ Program.nesting b < n + 1) ?_ ?_ ?_ h
  · intro ts s mid step
    obtain ⟨_, ⟨⟩, read, _⟩ | ⟨⟨⟩, _⟩ := nextStatement_eq_ok.mp step
    exact (reads.sound read).1.length_lt
  · intro ts rest step
    obtain ⟨_, ⟨⟩, _⟩ | ⟨_, rfl, rfl⟩ := nextStatement_eq_ok.mp step
    exact ⟨rfl, .nil, Nat.succ_pos n⟩
  · rintro ts s mid b rest step ⟨rfl, tail, shallowTail⟩
    obtain ⟨_, ⟨⟩, read, _⟩ | ⟨⟨⟩, _⟩ := nextStatement_eq_ok.mp step
    obtain ⟨head, shallow⟩ := reads.sound read
    exact ⟨rfl, .cons head tail, Nat.max_lt.mpr ⟨shallow, shallowTail⟩⟩

theorem statements_complete : ∀ {ts b}, BlockAt ts b [] → Program.nesting b < n + 1 →
    repeatedly (nextStatement statement) ts = .ok b []
  | _, _, .nil, _ => repeatedly_nil (nextStatement_eq_ok.mpr (.inr ⟨rfl, rfl, rfl⟩))
  | _, _, .cons head tail, shallow => by
    obtain ⟨shallowHead, shallowTail⟩ := Nat.max_lt.mp shallow
    have read := reads.complete head shallowHead
    have some : _ ≠ [] := List.ne_nil_of_length_pos (Nat.zero_lt_of_lt head.length_lt)
    exact repeatedly_cons (nextStatement_eq_ok.mpr (.inl ⟨_, rfl, read, some⟩)) head.length_lt
      (statements_complete tail shallowTail)

theorem statements_eq_ok {p : Program} :
    (∃ rest, repeatedly (nextStatement statement) ts = .ok p rest) ↔
      Derives ts p ∧ Program.nesting p ≤ n := by
  constructor
  · rintro ⟨rest, h⟩
    obtain ⟨rfl, derived, shallow⟩ := statements_sound reads h
    exact ⟨derived, Nat.le_of_lt_succ shallow⟩
  · rintro ⟨derived, shallow⟩
    exact ⟨[], statements_complete reads derived (Nat.lt_succ_of_le shallow)⟩

end

/-- Tokens are at most one program, however deep it is nested. -/
theorem derives_unique {p q : Program} (first : Derives ts p) (second : Derives ts q) : p = q := by
  have reads := statement_reads (max (Program.nesting p) (Program.nesting q))
  obtain ⟨_, firstRead⟩ := (statements_eq_ok reads).mpr ⟨first, Nat.le_max_left _ _⟩
  obtain ⟨_, secondRead⟩ := (statements_eq_ok reads).mpr ⟨second, Nat.le_max_right _ _⟩
  cases firstRead.symm.trans secondRead
  rfl

theorem ofTokens_eq_ok {lines : Text.Lines} {p : Program} :
    Program.ofTokens lines ts = .ok p ↔ ∃ rest, program ts = .ok p rest := by
  simp only [Program.ofTokens, runOn]
  cases program ts with
  | ok q rest => simp
  | error fault rest => simp

/-- A parser that fails on the tokens of a text tells of the first of those that remain. -/
theorem runOn_eq_error {α : Type} {p : Parser α} {lines : Text.Lines} {e : ParseError} :
    p.runOn lines ts = (.error e, rest) ↔
      ∃ fault, p ts = .error fault rest ∧ e = .ofFault lines fault rest := by
  unfold runOn
  cases p ts with
  | ok a last => simp
  | error fault last =>
    constructor
    · intro h
      cases h
      exact ⟨fault, rfl, rfl⟩
    · intro h
      obtain ⟨_, same, rfl⟩ := h
      cases same
      rfl

theorem ofTokens_eq_error {lines : Text.Lines} {e : ParseError} :
    Program.ofTokens lines ts = .error e ↔
      ∃ fault rest, program ts = .error fault rest ∧ e = .ofFault lines fault rest := by
  constructor
  · intro failed
    obtain ⟨fault, stopped, same⟩ := runOn_eq_error.mp (Prod.ext failed rfl)
    exact ⟨fault, _, stopped, same⟩
  · intro h
    obtain ⟨fault, rest, stopped, same⟩ := h
    exact congrArg Prod.fst (runOn_eq_error.mpr ⟨fault, stopped, same⟩)

/-- The tokens of a text are read as a program exactly if they are that program by the
    grammar, with all its places, and it is nested no deeper than the limit. They are never
    two programs. -/
theorem ofTokens_accepts_grammar (lines : Text.Lines) (ts : List Located) :
    (∀ p : Program, Program.ofTokens lines ts = .ok p ↔
      Derives ts p ∧ Program.nesting p ≤ nestingLimit) ∧
    ∀ p q : Program, Derives ts p → Derives ts q → p = q :=
  ⟨fun _ => ofTokens_eq_ok.trans (statements_eq_ok (statement_reads nestingLimit)),
    fun _ _ => derives_unique⟩

/-- The place behind so many bytes of a line. -/
def column (n : Nat) : Position := ⟨n, 1, n + 1⟩

/-- The tokens of `IF a < 1 THEN CALL f(-(b), 2) ENDIF`, with line breaks before and behind
    `THEN` and before `ENDIF`. -/
def guardedTokens : List Located :=
  [⟨.keyword .if, column 0⟩, ⟨.name "a", column 3⟩, ⟨.symbol .less, column 5⟩,
    ⟨.integer 1, column 7⟩, ⟨.newline, column 8⟩, ⟨.keyword .then, column 9⟩,
    ⟨.newline, column 13⟩, ⟨.keyword .call, column 14⟩, ⟨.name "f", column 19⟩,
    ⟨.symbol .openParen, column 20⟩, ⟨.symbol .minus, column 21⟩, ⟨.symbol .openParen, column 22⟩,
    ⟨.name "b", column 23⟩, ⟨.symbol .closeParen, column 24⟩, ⟨.symbol .comma, column 25⟩,
    ⟨.integer 2, column 27⟩, ⟨.symbol .closeParen, column 28⟩, ⟨.newline, column 29⟩,
    ⟨.keyword .endIf, column 30⟩]

def guard : Expression :=
  .binary (.compare .lt) (column 5) (.key ⟨column 3, [⟨"a", none⟩]⟩) (.constant (.integer 1))

def opposite : Expression :=
  .negate (column 21) (.parenthesized (.key ⟨column 23, [⟨"b", none⟩]⟩))

/-- The program that they are. -/
def guarded : Program :=
  [.ifElse (column 0) guard
    [.call (column 14) (column 19) "f" [opposite, .constant (.integer 2)]] none]

theorem guarded_derives : Derives guardedTokens guarded := by
  have condition : ExpressionAt (some .comparison) (guardedTokens.drop 1) guard
      (guardedTokens.drop 4) :=
    .binary rfl (.single (.single (.single (.key (.key (.part .none) .nil)))))
      (.single (.single (.constant (c := .integer 1))))
  have first : ExpressionAt none (guardedTokens.drop 10) opposite (guardedTokens.drop 14) :=
    .negate (.parenthesized (.single (.single (.single (.key (.key (.part .none) .nil))))))
  have second : ExpressionAt none (guardedTokens.drop 15) (.constant (.integer 2))
      (guardedTokens.drop 16) := .constant (c := .integer 2)
  have called : CallAt (guardedTokens.drop 8) (column 19, "f", [opposite, .constant (.integer 2)])
      (guardedTokens.drop 17) :=
    .call (.some (.single (.single (.single first)))
      (.cons (.single (.single (.single second))) .nil))
  have body : BlockAt (guardedTokens.drop 7)
      [.call (column 14) (column 19) "f" [opposite, .constant (.integer 2)]]
      (guardedTokens.drop 18) := .cons (.line (.call called) .newline) .nil
  exact .cons (.ifElse condition (.cons .nil) .newline body .none .finish) .nil

theorem guarded_read : Program.ofTokens (Text.Lines.ofText "") guardedTokens = .ok guarded ∧
    ∀ q : Program, Derives guardedTokens q → q = guarded := by
  obtain ⟨reads, unique⟩ := ofTokens_accepts_grammar (Text.Lines.ofText "") guardedTokens
  exact ⟨(reads guarded).mpr ⟨guarded_derives, by decide⟩,
    fun q derived => unique q guarded derived guarded_derives⟩

end Pseudocode.Parser
