import Pseudocode.Program.Parser.Statement
import Pseudocode.Proofs.Parsing.Grammar

/-! # What the small parsers accept

For each parser that takes a fixed number of tokens, when it gives a value and which.

* `bind_eq_ok` takes a sequence of parsers apart.
* `repeatedly_of_step` is the induction for what a step is repeated to read;
  `repeatedly_nil` and `repeatedly_cons` run it forwards.
-/

namespace Pseudocode.Parser

open Grammar

variable {α β : Type} {ts rest : List Located}

/-! ## Sequences -/

/-- A first parser that succeeds, and then the second. -/
theorem bind_eq_ok {x : Parser α} {f : α → Parser β} {b : β} :
    (x >>= f) ts = .ok b rest ↔ ∃ a mid, x ts = .ok a mid ∧ f a mid = .ok b rest := by
  change EStateM.bind x f ts = .ok b rest ↔ _
  unfold EStateM.bind
  cases x ts with
  | ok a mid =>
    constructor
    · intro h
      exact ⟨a, mid, rfl, h⟩
    · rintro ⟨_, _, ⟨⟩, h⟩
      exact h
  | error fault mid => simp

theorem bind_of_ok {x : Parser α} {f : α → Parser β} {a : α} (h : x ts = .ok a rest) :
    (x >>= f) ts = f a rest := by
  change EStateM.bind x f ts = _
  simp only [EStateM.bind, h]

theorem bind_of_error {x : Parser α} {f : α → Parser β} {fault : ParseFault}
    (h : x ts = .error fault rest) : (x >>= f) ts = .error fault rest := by
  change EStateM.bind x f ts = _
  simp only [EStateM.bind, h]

theorem pure_eq_ok {a b : α} : (pure a : Parser α) ts = .ok b rest ↔ a = b ∧ ts = rest := by
  change EStateM.Result.ok a ts = .ok b rest ↔ _
  rw [EStateM.Result.ok.injEq]

theorem expected_ne_ok {what : Expectation} {a : α} :
    ¬ (expected what : Parser α) ts = .ok a rest := nofun

theorem peek_bind {f : Option Located → Parser α} : (peek >>= f) ts = f ts.head? ts := rfl

theorem advance_bind {f : Unit → Parser α} : (advance >>= f) ts = f () ts.tail := rfl

/-! ## Tokens -/

theorem accept_eq_ok {t : Token} {b : Bool} : accept t ts = .ok b rest ↔
    b = true ∧ (∃ pos, ts = ⟨t, pos⟩ :: rest) ∨ b = false ∧ ts = rest ∧ NextIsNot t ts := by
  simp only [accept, peek_bind]
  rcases ts with _ | ⟨⟨token, pos⟩, ts⟩
  · simp [pure_eq_ok, NextIsNot]
  · simp only [List.head?_cons]
    split
    · next same => simp [advance_bind, pure_eq_ok, NextIsNot, same]
    · next other => simp [pure_eq_ok, NextIsNot, other]

/-- What is read only if a token comes that announces it. -/
theorem announced_eq_ok {t : Token} {p : Parser (Option α)} {x : Option α} :
    (do if ← accept t then p else return none : Parser (Option α)) ts = .ok x rest ↔
      (∃ pos mid, ts = ⟨t, pos⟩ :: mid ∧ p mid = .ok x rest) ∨
        x = none ∧ ts = rest ∧ NextIsNot t ts := by
  simp only [bind_eq_ok, accept_eq_ok]
  constructor
  · rintro ⟨b, mid, ⟨rfl, pos, rfl⟩ | ⟨rfl, rfl, other⟩, h⟩
    · exact .inl ⟨pos, mid, rfl, h⟩
    · cases h
      exact .inr ⟨rfl, rfl, other⟩
  · rintro (⟨pos, mid, rfl, h⟩ | ⟨rfl, rfl, other⟩)
    · exact ⟨true, mid, .inl ⟨rfl, pos, rfl⟩, h⟩
    · exact ⟨false, ts, .inr ⟨rfl, rfl, other⟩, rfl⟩

/-- Something more is read only behind a token that separates it. -/
theorem further_eq_ok {t : Token} {p : Parser α} {f : α → β} {x : Option β} :
    (do if ← accept t then return some (f (← p)) else return none : Parser (Option β)) ts
        = .ok x rest ↔
      (∃ pos mid a, ts = ⟨t, pos⟩ :: mid ∧ p mid = .ok a rest ∧ x = some (f a)) ∨
        x = none ∧ ts = rest ∧ NextIsNot t ts := by
  refine announced_eq_ok.trans (or_congr_left ?_)
  simp only [bind_eq_ok, pure_eq_ok]
  constructor
  · rintro ⟨pos, mid, rfl, a, _, read, rfl, rfl⟩
    exact ⟨pos, mid, a, rfl, read, rfl⟩
  · rintro ⟨pos, mid, a, rfl, read, rfl⟩
    exact ⟨pos, mid, rfl, a, rest, read, rfl, rfl⟩

theorem expect_eq_ok {t : Token} {u : Unit} :
    expect t ts = .ok u rest ↔ ∃ pos, ts = ⟨t, pos⟩ :: rest := by
  simp [expect, bind_eq_ok, accept_eq_ok, pure_eq_ok, expected_ne_ok]

theorem expect_cons {t : Token} {pos : Position} : expect t (⟨t, pos⟩ :: rest) = .ok () rest :=
  expect_eq_ok.mpr ⟨pos, rfl⟩

theorem name_eq_ok {n : String} {pos : Position} :
    name ts = .ok (n, pos) rest ↔ ts = ⟨.name n, pos⟩ :: rest := by
  simp only [name, peek_bind]
  rcases ts with _ | ⟨⟨token, p⟩, ts⟩
  · simp [expected_ne_ok]
  · cases token <;> simp [advance_bind, pure_eq_ok, expected_ne_ok, and_assoc]

theorem lineEnd_eq_ok {u : Unit} : lineEnd ts = .ok u rest ↔ LineEndAt ts rest := by
  simp only [lineEnd, peek_bind]
  constructor
  · intro h
    rcases ts with _ | ⟨⟨token, pos⟩, ts⟩
    · cases h
      exact .finish
    · cases token
      case newline =>
        cases h
        exact .newline
      all_goals cases h
  · intro h
    cases h with
    | newline => rfl
    | finish => rfl

theorem type_eq_ok {t : DeclaredType} :
    type ts = .ok t rest ↔ ∃ pos, ts = ⟨t.token, pos⟩ :: rest := by
  simp only [type, peek_bind]
  constructor
  · intro h
    rcases ts with _ | ⟨⟨token, pos⟩, ts⟩
    · cases h
    · cases token
      case keyword k => cases k <;> cases h <;> exact ⟨pos, rfl⟩
      case name n =>
        cases h
        exact ⟨pos, rfl⟩
      all_goals cases h
  · rintro ⟨pos, rfl⟩
    cases t <;> rfl

theorem newlines_sound {u : Unit} (h : newlines ts = .ok u rest) : NewlinesAt ts rest := by
  cases h
  induction ts with
  | nil => exact .nil
  | cons next ts ih =>
    obtain ⟨token, pos⟩ := next
    by_cases same : token = .newline
    · subst same
      exact .cons ih
    · simp only [List.dropWhile_cons, same, decide_false]
      exact .nil

/-- Newlines are taken up to a token that is none. -/
theorem newlines_of_newlinesAt (h : NewlinesAt ts rest) (other : NextIsNot .newline rest) :
    newlines ts = .ok () rest := by
  induction h with
  | nil =>
    rename_i ts
    cases ts with
    | nil => rfl
    | cons next ts =>
      have stop := other next rfl
      simp [newlines, stop]
  | cons _ ih => exact ih other

/-- An index is read unless no bracket comes. -/
theorem index_eq_ok {i : Option Int32} : index ts = .ok i rest ↔
    IndexAt ts i rest ∧ (i = none → NextIsNot (.symbol .openBracket) rest) := by
  refine announced_eq_ok.trans ?_
  simp only [peek_bind]
  constructor
  · rintro (⟨p, mid, rfl, h⟩ | ⟨rfl, rfl, other⟩)
    · rcases mid with _ | ⟨⟨token, q⟩, mid⟩
      · cases h
      · cases token
        case integer n =>
          simp only [List.head?_cons, advance_bind, bind_eq_ok, expect_eq_ok, pure_eq_ok] at h
          obtain ⟨_, _, ⟨close, rfl⟩, rfl, rfl⟩ := h
          exact ⟨.some, nofun⟩
        all_goals cases h
    · exact ⟨.none, fun _ => other⟩
  · rintro ⟨h, stop⟩
    cases h with
    | none => exact .inr ⟨rfl, rfl, stop rfl⟩
    | some =>
      refine .inl ⟨_, _, rfl, ?_⟩
      simp only [List.head?_cons, advance_bind, bind_eq_ok, expect_eq_ok]
      exact ⟨(), _, ⟨_, rfl⟩, rfl⟩

theorem keyPart_eq_ok {part : KeyPart × Position} : keyPart ts = .ok part rest ↔
    PartAt ts part rest ∧ (part.1.index = none → NextIsNot (.symbol .openBracket) rest) := by
  simp only [keyPart, bind_eq_ok, pure_eq_ok]
  constructor
  · rintro ⟨⟨n, pos⟩, mid, named, i, last, indexed, rfl, rfl⟩
    cases name_eq_ok.mp named
    obtain ⟨index, stop⟩ := index_eq_ok.mp indexed
    exact ⟨.part index, stop⟩
  · rintro ⟨⟨index⟩, stop⟩
    exact ⟨_, _, name_eq_ok.mpr rfl, _, _, index_eq_ok.mpr ⟨index, stop⟩, rfl, rfl⟩

/-! ## Repetition -/

variable {step : Parser (Option α)}

theorem repeatedly_nil (done : step ts = .ok none rest) : repeatedly step ts = .ok [] rest := by
  unfold repeatedly
  simp only [done]

theorem repeatedly_cons {a : α} {as : List α} {mid : List Located}
    (first : step ts = .ok (some a) mid) (shorter : mid.length < ts.length)
    (more : repeatedly step mid = .ok as rest) : repeatedly step ts = .ok (a :: as) rest := by
  unfold repeatedly
  simp only [first, if_pos shorter, more]

/-- What holds when the step declines, and is kept when it reads one thing more, holds of
    all that the step is repeated to read. -/
theorem repeatedly_induction {P : List Located → List α → List Located → Prop} {as : List α}
    (shorter : ∀ {ts a mid}, step ts = .ok (some a) mid → mid.length < ts.length)
    (nil : ∀ {ts rest}, step ts = .ok none rest → P ts [] rest)
    (cons : ∀ {ts a mid as rest}, step ts = .ok (some a) mid → P mid as rest → P ts (a :: as) rest)
    (read : repeatedly step ts = .ok as rest) : P ts as rest := by
  fun_induction repeatedly step ts generalizing as rest with
  | case1 ts fault last failed => cases read
  | case2 ts last done =>
    cases read
    exact nil done
  | case3 ts a mid first _ as last more ih =>
    cases read
    exact cons first (ih more)
  | case4 ts a mid first _ fault last failed => cases read
  | case5 ts a mid first long => exact absurd (shorter first) long

end Pseudocode.Parser
