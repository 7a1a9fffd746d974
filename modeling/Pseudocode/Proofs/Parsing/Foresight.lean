import Pseudocode.Proofs.Parsing.Expressions

/-! # Parsers look one token ahead

What a parser does depends on the tokens that it takes and on the next one. Tokens further behind
change nothing, neither for a value nor for a fault.

* `Foresight p`: this is so for the parser `p`. It is kept by sequence, by looking at the next
  token, and by repetition.
* `primary_foresight`: a name is a call or a key as the token behind it says. That token is looked
  at before the name is taken, but nothing can fail in between.
* `program_foresight`: it is so for the whole program.
* `Foresight.error`: a fault stays the same whatever comes behind the token it is about.
-/

namespace Pseudocode.Parser

open Grammar

variable {α β : Type}

/-- A value or a fault, with what remains. -/
def leaving : Except ParseFault α → List Located → EStateM.Result ParseFault (List Located) α
  | .ok a, rest => .ok a rest
  | .error fault, rest => .error fault rest

/-- Of these tokens the parser takes some, and the tokens behind the next one make no difference. -/
def ForesightAt (p : Parser α) (ts : List Located) : Prop :=
  ∃ taken rest outcome, ts = taken ++ rest ∧
    ∀ rest', rest'.head? = rest.head? → p (taken ++ rest') = leaving outcome rest'

def Foresight (p : Parser α) : Prop := ∀ ts, ForesightAt p ts

/-! ## Combinations -/

theorem head?_append_congr {ts us : List Located} (taken : List Located) (h : us.head? = ts.head?) :
    (taken ++ us).head? = (taken ++ ts).head? := by
  rw [List.head?_append, List.head?_append, h]

/-- A parser that takes the next token and goes on as another one does. -/
theorem ForesightAt.cons {p q : Parser α} {next : Located} {ts : List Located}
    (h : ForesightAt q ts) (goesOn : ∀ ts, p (next :: ts) = q ts) : ForesightAt p (next :: ts) := by
  obtain ⟨taken, rest, outcome, rfl, same⟩ := h
  refine ⟨next :: taken, rest, outcome, rfl, fun rest' ahead => ?_⟩
  rw [List.cons_append, goesOn, same rest' ahead]

namespace Foresight

theorem pure (a : α) : Foresight (pure a : Parser α) :=
  fun ts => ⟨[], ts, .ok a, rfl, fun _ _ => rfl⟩

theorem fault (f : ParseFault) : Foresight (throw f : Parser α) :=
  fun ts => ⟨[], ts, .error f, rfl, fun _ _ => rfl⟩

theorem expected (what : Expectation) : Foresight (expected what : Parser α) := .fault _

theorem tooDeep : Foresight (tooDeep : Parser α) := .fault _

theorem advance : Foresight advance := by
  intro ts
  cases ts with
  | nil =>
    refine ⟨[], [], .ok (), rfl, fun rest' ahead => ?_⟩
    rw [List.head?_eq_none_iff.mp ahead]
    rfl
  | cons next ts => exact ⟨[next], ts, .ok (), rfl, fun _ _ => rfl⟩

/-- The first parser looks at what the second takes, or at what that one looks at. -/
theorem bind {x : Parser α} {f : α → Parser β} (first : Foresight x)
    (second : ∀ a, Foresight (f a)) : Foresight (x >>= f) := by
  intro ts
  obtain ⟨taken, rest, outcome, rfl, same⟩ := first ts
  cases outcome with
  | error fault =>
    refine ⟨taken, rest, .error fault, rfl, fun rest' ahead => ?_⟩
    exact bind_of_error (same rest' ahead)
  | ok a =>
    obtain ⟨taken', rest, outcome, rfl, same'⟩ := second a rest
    refine ⟨taken ++ taken', rest, outcome, (List.append_assoc ..).symm, fun rest' ahead => ?_⟩
    rw [List.append_assoc, bind_of_ok (same _ (head?_append_congr taken' ahead)), same' rest' ahead]

theorem peek {f : Option Located → Parser α} (h : ∀ x, Foresight (f x)) :
    Foresight (peek >>= f) := by
  intro ts
  obtain ⟨taken, rest, outcome, rfl, same⟩ := h ts.head? ts
  refine ⟨taken, rest, outcome, rfl, fun rest' ahead => ?_⟩
  rw [peek_bind, head?_append_congr taken ahead, same rest' ahead]

/-- What is read only if a token comes that announces it. -/
theorem announced {t : Token} {p q : Parser α} (yes : Foresight p) (no : Foresight q) :
    Foresight (do if ← accept t then p else q) := by
  refine .bind (.peek fun x => ?_) fun b => ?_
  · split
    · split
      · exact .bind .advance fun _ => .pure _
      · exact .pure _
    · exact .pure _
  · cases b
    · exact no
    · exact yes

theorem repeatedly {step : Parser (Option α)} (h : Foresight step) :
    Foresight (repeatedly step) := by
  intro ts
  induction size : ts.length using Nat.strongRecOn generalizing ts with
  | _ n ih =>
    obtain ⟨taken, rest, outcome, rfl, same⟩ := h ts
    cases outcome with
    | error fault =>
      refine ⟨taken, rest, .error fault, rfl, fun rest' ahead => ?_⟩
      rw [Parser.repeatedly]
      simp only [same rest' ahead, leaving]
    | ok x =>
      cases x with
      | none =>
        refine ⟨taken, rest, .ok [], rfl, fun rest' ahead => ?_⟩
        rw [Parser.repeatedly]
        simp only [same rest' ahead, leaving]
      | some a =>
        by_cases nothing : taken = []
        · subst nothing
          refine ⟨[], rest, .ok [a], rfl, fun rest' ahead => ?_⟩
          rw [Parser.repeatedly]
          simp only [same rest' ahead, leaving]
          exact if_neg (Nat.lt_irrefl _)
        · have some : 0 < taken.length := List.length_pos_iff.mpr nothing
          have shorter : rest.length < n := by
            rw [← size, List.length_append]
            omega
          obtain ⟨taken', rest, outcome, rfl, same'⟩ := ih rest.length shorter rest rfl
          refine ⟨taken ++ taken', rest, outcome.map (a :: ·), (List.append_assoc ..).symm,
            fun rest' ahead => ?_⟩
          have fewer : (taken' ++ rest').length < (taken ++ (taken' ++ rest')).length := by
            simp only [List.length_append]
            omega
          rw [List.append_assoc, Parser.repeatedly]
          simp only [same _ (head?_append_congr taken' ahead), leaving, if_pos fewer,
            same' rest' ahead]
          cases outcome <;> rfl

/-- A fault stays the same whatever comes behind the token it is about. -/
theorem error {p : Parser α} (h : Foresight p) {ts rest : List Located} {fault : ParseFault}
    (failed : p ts = .error fault rest) :
    ∃ taken, ts = taken ++ rest ∧
      ∀ rest', rest'.head? = rest.head? → p (taken ++ rest') = .error fault rest' := by
  obtain ⟨taken, rest, outcome, rfl, same⟩ := h ts
  cases outcome with
  | ok a => cases (same rest rfl).symm.trans failed
  | error fault =>
    cases (same rest rfl).symm.trans failed
    exact ⟨taken, rfl, same⟩

end Foresight

/-! ## Small parsers -/

theorem accept_foresight (t : Token) : Foresight (accept t) := by
  apply Foresight.peek
  intro x
  split
  · split
    · exact .bind .advance fun _ => .pure _
    · exact .pure _
  · exact .pure _

theorem expect_foresight (t : Token) : Foresight (expect t) := by
  refine .bind (accept_foresight t) fun b => ?_
  cases b
  · exact .expected _
  · exact .pure _

theorem name_foresight : Foresight name := by
  apply Foresight.peek
  intro x
  split
  · exact .bind .advance fun _ => .pure _
  · exact .expected _

theorem lineEnd_foresight : Foresight lineEnd := by
  apply Foresight.peek
  intro x
  split
  · exact .advance
  · exact .expected _
  · exact .pure _

theorem type_foresight : Foresight type := by
  apply Foresight.peek
  intro x
  split
  case h_5 => exact .expected _
  all_goals exact .bind .advance fun _ => .pure _

theorem newlines_foresight : Foresight newlines := by
  intro ts
  induction ts with
  | nil =>
    refine ⟨[], [], .ok (), rfl, fun rest' ahead => ?_⟩
    rw [List.head?_eq_none_iff.mp ahead]
    rfl
  | cons next ts ih =>
    by_cases same : next.token = .newline
    · exact ih.cons fun ts => by simp [newlines, same]
    · refine ⟨[], next :: ts, .ok (), rfl, fun rest' ahead => ?_⟩
      obtain ⟨tail, rfl⟩ := List.head?_eq_some_iff.mp ahead
      simp [newlines, same, leaving]

/-! ## Keys and calls -/

theorem index_foresight : Foresight index := by
  refine .announced (.peek fun x => ?_) (.pure _)
  split
  · exact .bind .advance fun _ => .bind (expect_foresight _) fun _ => .pure _
  · exact .expected _

theorem keyPart_foresight : Foresight keyPart :=
  .bind name_foresight fun _ => .bind index_foresight fun _ => .pure _

theorem parts_foresight : Foresight (repeatedly furtherPart) :=
  .repeatedly (.announced (.bind keyPart_foresight fun _ => .pure _) (.pure _))

theorem key_foresight : Foresight key :=
  .bind keyPart_foresight fun _ => .bind parts_foresight fun _ => .pure _

section

variable {argument : Parser Expression} (ahead : Foresight argument)

include ahead

theorem arguments_foresight : Foresight (arguments argument) := by
  have further : Foresight (repeatedly (furtherArgument argument)) :=
    .repeatedly (.announced (.bind ahead fun _ => .pure _) (.pure _))
  apply Foresight.peek
  intro x
  split
  · exact .pure _
  · exact .bind ahead fun _ => .bind further fun _ => .pure _

theorem call_foresight : Foresight (call argument) := by
  refine .bind name_foresight fun _ => .bind (expect_foresight _) fun _ => ?_
  exact .bind (arguments_foresight ahead) fun _ => .bind (expect_foresight _) fun _ => .pure _

end

/-! ## Expressions -/

section

variable {operator? : Token → Option Operator} {operand : Parser Expression}

theorem chain_foresight (ahead : Foresight operand) : Foresight (chain operator? operand) := by
  refine .bind ahead fun _ => .bind (.repeatedly (.peek fun x => ?_)) fun _ => .pure _
  split
  · split
    · exact .bind .advance fun _ => .bind ahead fun _ => .pure _
    · exact .pure _
  · exact .pure _

theorem expressionOver_foresight (ahead : Foresight operand) : Foresight (expressionOver operand) :=
  chain_foresight (chain_foresight (chain_foresight ahead))

end

section

variable {inner : Parser Expression} (within : Foresight inner)

/-- A parser that takes a name first may be chosen by the token behind the name. -/
theorem named_foresightAt {q : Parser Expression} (ahead : Foresight q) {next : Located}
    {ts : List Located}
    (chosen : ∀ us, us.head? = ts.head? → named inner (next :: us) = q (next :: us))
    (takes : ∀ outcome, q [next] ≠ leaving outcome [next]) :
    ForesightAt (named inner) (next :: ts) := by
  obtain ⟨taken, rest, outcome, whole, same⟩ := ahead (next :: ts)
  cases taken with
  | nil =>
    subst whole
    exact absurd (same [next] rfl) (takes outcome)
  | cons first taken =>
    obtain ⟨rfl, rfl⟩ := List.cons.inj whole
    refine ⟨next :: taken, rest, outcome, rfl, fun rest' ahead => ?_⟩
    rw [List.cons_append, chosen _ (head?_append_congr taken ahead)]
    exact same rest' ahead

include within

theorem named_foresight : Foresight (named inner) := by
  intro ts
  rcases ts with _ | ⟨⟨token, pos⟩, ts⟩
  · refine ⟨[], [], .error (.expected .name), rfl, fun rest' ahead => ?_⟩
    rw [List.head?_eq_none_iff.mp ahead]
    rfl
  by_cases isName : ∃ n, token = .name n
  · obtain ⟨n, rfl⟩ := isName
    obtain ⟨q, tail, rfl⟩ | other := nextIs_or_nextIsNot (.symbol .openParen) ts
    · have called : Foresight (do let c ← call inner; return Expression.call c.1 c.2.1 c.2.2) :=
        .bind (call_foresight within) fun _ => .pure _
      refine named_foresightAt called (fun us ahead => ?_) fun outcome => ?_
      · obtain ⟨tail, rfl⟩ := List.head?_eq_some_iff.mp ahead
        rfl
      · intro same
        cases outcome <;> cases same
    · have stored : Foresight (do return Expression.key (← key)) :=
        .bind key_foresight fun _ => .pure _
      refine named_foresightAt stored (fun us ahead => ?_) fun outcome => ?_
      · obtain ⟨q, tail, rfl, _⟩ | ⟨_, same⟩ := named_eq inner ⟨.name n, pos⟩ us
        · exact absurd rfl (other _ ahead.symm)
        · exact same
      · have read : key [⟨.name n, pos⟩] = .ok ⟨pos, [⟨n, none⟩]⟩ [] :=
          key_complete (.key (.part .none) .nil) (by simp [NextIsNot]) (by simp [NextIsNot])
        rw [bind_of_ok read]
        intro same
        cases outcome <;> cases same
  · refine ⟨[], ⟨token, pos⟩ :: ts, .error (.expected .name), rfl, fun rest' ahead => ?_⟩
    obtain ⟨tail, rfl⟩ := List.head?_eq_some_iff.mp ahead
    have missed : name (⟨token, pos⟩ :: tail) =
        .error (.expected .name) (⟨token, pos⟩ :: tail) := by
      cases token
      case name n => exact absurd ⟨n, rfl⟩ isName
      all_goals rfl
    obtain ⟨_, _, _, same⟩ | ⟨_, same⟩ := named_eq inner ⟨token, pos⟩ tail
    · exact same.trans (bind_of_error (bind_of_error missed))
    · exact same.trans (bind_of_error (bind_of_error (bind_of_error missed)))

theorem primary_foresight : Foresight (primary inner) := by
  apply Foresight.peek
  intro x
  split
  · exact named_foresight within
  · exact .bind .advance fun _ => .bind within fun _ => .bind (expect_foresight _) fun _ => .pure _
  · split
    · exact .bind .advance fun _ => .pure _
    · exact .expected _
  · exact .expected _

theorem unaryOver_foresight {operand : Parser Expression} (ahead : Foresight operand) :
    Foresight (unaryOver operand inner) := by
  apply Foresight.peek
  intro x
  split
  · exact .bind .advance fun _ => .bind ahead fun _ => .pure _
  · exact .bind .advance fun _ => .bind ahead fun _ => .pure _
  · exact primary_foresight within

end

theorem unary_foresight : ∀ levels, Foresight (unary levels)
  | 0 => unaryOver_foresight .tooDeep .tooDeep
  | levels + 1 =>
    unaryOver_foresight (expressionOver_foresight (unary_foresight levels)) (unary_foresight levels)

theorem expression_foresight (levels : Nat) : Foresight (expression levels) :=
  expressionOver_foresight (unary_foresight levels)

theorem callStatement_foresight : ∀ levels, Foresight (callStatement levels)
  | 0 => call_foresight .tooDeep
  | levels + 1 => call_foresight (expression_foresight levels)

/-! ## Statements -/

section

variable {statement : Parser Statement} (ahead : Foresight statement) {pos : Position}

include ahead

theorem block_foresight (c : Construct) (closers : List Keyword) :
    Foresight (block statement c pos closers) := by
  refine .repeatedly (.peek fun x => ?_)
  split
  · split
    · exact .pure _
    · exact .bind ahead fun _ => .pure _
  · exact .bind ahead fun _ => .pure _
  · exact .fault _

theorem elseBranch_foresight : Foresight (elseBranch statement pos) :=
  .announced (.bind lineEnd_foresight fun _ => .bind (block_foresight ahead _ _) fun _ => .pure _)
    (.pure _)

theorem construct_foresight {expression : Parser Expression} (condition : Foresight expression)
    (c : Construct) : Foresight (construct expression statement pos c) := by
  cases c with
  | «if» =>
    refine .bind (expect_foresight _) fun _ => .bind condition fun _ => ?_
    refine .bind newlines_foresight fun _ => .bind (expect_foresight _) fun _ => ?_
    refine .bind lineEnd_foresight fun _ => .bind (block_foresight ahead _ _) fun _ => ?_
    refine .bind (elseBranch_foresight ahead) fun _ => .bind (expect_foresight _) fun _ => ?_
    exact .bind lineEnd_foresight fun _ => .pure _
  | «while» =>
    refine .bind (expect_foresight _) fun _ => .bind condition fun _ => ?_
    refine .bind (expect_foresight _) fun _ => .bind lineEnd_foresight fun _ => ?_
    refine .bind (block_foresight ahead _ _) fun _ => .bind (expect_foresight _) fun _ => ?_
    exact .bind lineEnd_foresight fun _ => .pure _
  | «repeat» =>
    refine .bind (expect_foresight _) fun _ => .bind lineEnd_foresight fun _ => ?_
    refine .bind (block_foresight ahead _ _) fun _ => .bind (expect_foresight _) fun _ => ?_
    exact .bind condition fun _ => .bind lineEnd_foresight fun _ => .pure _

end

theorem line_foresight {p : Parser Statement} (h : Foresight p) : Foresight (line p) :=
  .bind h fun _ => .bind lineEnd_foresight fun _ => .pure _

section

variable {expression : Parser Expression} {call : Parser (Position × String × List Expression)}
  (ahead : Foresight expression) (called : Foresight call)

include ahead

theorem assignment_foresight (pos : Position) : Foresight (assignment expression pos) :=
  .bind key_foresight fun _ => .bind (expect_foresight _) fun _ => .bind ahead fun _ => .pure _

include called

theorem simple_foresight (pos : Position) (k : Keyword) :
    Foresight (simple expression call pos k) := by
  unfold simple
  split
  · exact .bind .advance fun _ => .bind ahead fun _ => .pure _
  · exact .bind .advance fun _ => .bind key_foresight fun _ => .pure _
  · exact .bind .advance fun _ => .bind called fun _ => .pure _
  · exact .bind .advance fun _ => .bind ahead fun _ => .pure _
  · exact .bind .advance fun _ => .bind ahead fun _ => .pure _
  · refine .bind .advance fun _ => .bind name_foresight fun _ => ?_
    exact .bind (expect_foresight _) fun _ => .bind type_foresight fun _ => .pure _
  · exact .expected _

theorem statementOver_foresight {constructs : Position → Construct → Parser Statement}
    (nested : ∀ pos c, Foresight (constructs pos c)) :
    Foresight (statementOver expression call constructs) := by
  apply Foresight.peek
  intro x
  split
  · exact .bind .advance fun _ => .pure _
  · split
    · exact nested _ _
    · exact line_foresight (simple_foresight ahead called _ _)
  · exact line_foresight (assignment_foresight ahead _)
  · exact .expected _

end

theorem statement_foresight : ∀ levels, Foresight (statement levels)
  | 0 => statementOver_foresight (expression_foresight 0) (callStatement_foresight 0) fun _ _ =>
      .tooDeep
  | levels + 1 =>
    statementOver_foresight (expression_foresight (levels + 1))
      (callStatement_foresight (levels + 1)) fun _ c =>
        construct_foresight (statement_foresight levels) (expression_foresight levels) c

theorem program_foresight : Foresight program := by
  refine .repeatedly (.peek fun x => ?_)
  split
  · exact .bind (statement_foresight _) fun _ => .pure _
  · exact .pure _

end Pseudocode.Parser
