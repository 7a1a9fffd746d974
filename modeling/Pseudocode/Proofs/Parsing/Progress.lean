import Pseudocode.Proofs.Parsing.Descent
import Pseudocode.Proofs.Parsing.Foresight
import Pseudocode.Proofs.Parsing.Programs

/-! # A descent ends, with the outcome of the parser

* `Reader.Sound`, `Reader.Onward`: where a reader may be, and where a descent may leave it.
* `Follows levels p q`: from a reader in which so many levels may be opened, the descent `q` ends in
  time, has the outcome of the parser `p` and leaves the same tokens. It is kept by sequence, by
  looking at the next token, by levels and by repetition.
* `Progresses`: a step takes tokens whenever it has something. This is all that ends a loop.
* `statement_follows`, `program_follows`: so it is for statements and whole programs.
* `calls_disciplined`: whatever a reader is called for, in whatever order and behind whatever
  faults, it ends with the counter where it was.
-/

namespace Pseudocode

variable {α β : Type}

/-! ## Readers -/

namespace Reader

/-- The cursor and the counter are within their bounds now and at all marks, and the cursor was
    never moved back. -/
structure Sound (r : Reader) : Prop where
  cursor : r.cursor ≤ r.tokens.length
  depth : r.depth ≤ nestingLimit
  marks : ∀ m ∈ r.trail, m.cursor ≤ r.cursor ∧ m.depth ≤ nestingLimit
  sorted : r.trail.Pairwise fun m m' => m.cursor ≤ m'.cursor

/-- One reader is left as the other, with as many levels open. -/
structure Onward (r r' : Reader) : Prop where
  sound : r'.Sound
  tokens : r'.tokens = r.tokens
  depth : r'.depth = r.depth
  cursor : r.cursor ≤ r'.cursor
  trail : r.trail <+: r'.trail

theorem start_sound (tokens : List Located) : (start tokens).Sound where
  cursor := Nat.zero_le _
  depth := Nat.zero_le _
  marks := by simp [start]
  sorted := List.pairwise_singleton _ _

theorem rest_length (r : Reader) : r.rest.length = r.tokens.length - r.cursor := List.length_drop

variable {r r' r₁ r₂ : Reader}

theorem Sound.moveTo {cursor depth : Nat} (sound : r.Sound) (forward : r.cursor ≤ cursor)
    (within : cursor ≤ r.tokens.length) (shallow : depth ≤ nestingLimit) :
    (r.moveTo cursor depth).Sound where
  cursor := within
  depth := shallow
  marks m member := by
    rcases List.mem_append.mp member with old | new
    · obtain ⟨behind, bounded⟩ := sound.marks m old
      exact ⟨Nat.le_trans behind forward, bounded⟩
    · obtain rfl := List.mem_singleton.mp new
      exact ⟨Nat.le_refl _, shallow⟩
  sorted := by
    refine List.pairwise_append.mpr ⟨sound.sorted, List.pairwise_singleton _ _, ?_⟩
    intro m old m' new
    obtain rfl := List.mem_singleton.mp new
    exact Nat.le_trans (sound.marks m old).1 forward

namespace Onward

theorem refl (sound : r.Sound) : r.Onward r :=
  ⟨sound, rfl, rfl, Nat.le_refl _, List.prefix_rfl⟩

theorem trans (first : r.Onward r₁) (second : r₁.Onward r₂) : r.Onward r₂ where
  sound := second.sound
  tokens := second.tokens.trans first.tokens
  depth := second.depth.trans first.depth
  cursor := Nat.le_trans first.cursor second.cursor
  trail := first.trail.trans second.trail

theorem length_le (onward : r.Onward r') : r'.rest.length ≤ r.rest.length := by
  rw [rest_length, rest_length, onward.tokens]
  exact Nat.sub_le_sub_left onward.cursor _

/-- The cursor has been moved if fewer tokens remain. -/
theorem cursor_lt (onward : r.Onward r') (fewer : r'.rest.length < r.rest.length) :
    r.cursor < r'.cursor := by
  rw [rest_length, rest_length, onward.tokens] at fewer
  omega

end Onward

end Reader

/-! ## Following a parser -/

namespace Descent

open Pseudocode.Parser (leaving)

/-- So many levels may be opened, and the clock is ahead of them and of the tokens. -/
structure Able (levels clock : Nat) (r : Reader) : Prop where
  sound : r.Sound
  depth : r.depth + levels = nestingLimit
  tokens : r.rest.length < clock
  levels : levels < clock

theorem Able.onward {levels clock : Nat} {r r' : Reader} (able : Able levels clock r)
    (onward : r.Onward r') : Able levels clock r' where
  sound := onward.sound
  depth := onward.depth ▸ able.depth
  tokens := Nat.lt_of_le_of_lt onward.length_le able.tokens
  levels := able.levels

/-- The descent ends with the outcome of the parser, and the tokens that this leaves remain. -/
def Ends (clock : Nat) (p : Parser α) (q : Descent α) (r : Reader) : Prop :=
  ∃ outcome r', q clock r = some (outcome, r') ∧ p r.rest = leaving outcome r'.rest ∧ r.Onward r'

/-- So it is from each reader in which so many levels may be opened. -/
def Follows (levels : Nat) (p : Parser α) (q : Descent α) : Prop :=
  ∀ clock r, Able levels clock r → Ends clock p q r

/-- So it is if that is the next token. -/
def FollowsAt (levels : Nat) (ahead : Option Located) (p : Parser α) (q : Descent α) : Prop :=
  ∀ clock r, Able levels clock r → r.rest.head? = ahead → Ends clock p q r

theorem bind_ok {x : Descent α} {f : α → Descent β} {clock : Nat} {r r' : Reader} {a : α}
    (done : x clock r = some (.ok a, r')) : (x >>= f) clock r = f a clock r' := by
  show Descent.bind x f clock r = _
  rw [Descent.bind, done]

theorem bind_error {x : Descent α} {f : α → Descent β} {clock : Nat} {r r' : Reader}
    {fault : ParseFault} (failed : x clock r = some (.error fault, r')) :
    (x >>= f) clock r = some (.error fault, r') := by
  show Descent.bind x f clock r = _
  rw [Descent.bind, failed]

theorem Ends.bind {clock : Nat} {r : Reader} {p : Parser α} {f : α → Parser β} {q : Descent α}
    {g : α → Descent β} (first : Ends clock p q r)
    (more : ∀ a r', r.Onward r' → Ends clock (f a) (g a) r') :
    Ends clock (p >>= f) (q >>= g) r := by
  obtain ⟨outcome, r₁, ended, same, onward⟩ := first
  cases outcome with
  | error fault => exact ⟨.error fault, r₁, bind_error ended, Parser.bind_of_error same, onward⟩
  | ok a =>
    obtain ⟨outcome, r₂, ended', same', onward'⟩ := more a r₁ onward
    exact ⟨outcome, r₂, (bind_ok ended).trans ended', (Parser.bind_of_ok same).trans same',
      onward.trans onward'⟩

variable {levels : Nat} {ahead : Option Located}

namespace FollowsAt

theorem bind {p : Parser α} {f : α → Parser β} {q : Descent α} {g : α → Descent β}
    (first : FollowsAt levels ahead p q) (more : ∀ a, Follows levels (f a) (g a)) :
    FollowsAt levels ahead (p >>= f) (q >>= g) := fun clock r able next =>
  (first clock r able next).bind fun a r' onward => more a clock r' (able.onward onward)

/-- The cursor may be moved if there is a token to move it over. -/
theorem advance {next : Located} : FollowsAt levels (some next) Parser.advance advance := by
  intro clock r able found
  have inside : r.cursor < r.tokens.length := by
    obtain ⟨tail, rest⟩ := List.head?_eq_some_iff.mp found
    have length := r.rest_length
    rw [rest] at length
    simp only [List.length_cons] at length
    omega
  have moved : (r.moveTo (r.cursor + 1) r.depth).rest = r.rest.tail := by
    simp [Reader.rest, Reader.moveTo]
  refine ⟨.ok (), _, rfl, by rw [moved]; rfl, ?_⟩
  exact ⟨able.sound.moveTo (Nat.le_succ _) inside able.sound.depth, rfl, rfl, Nat.le_succ _,
    List.prefix_append _ _⟩

end FollowsAt

namespace Follows

theorem here {p : Parser α} {q : Descent α} (h : Follows levels p q) : FollowsAt levels ahead p q :=
  fun clock r able _ => h clock r able

theorem pure (a : α) : Follows levels (pure a) (pure a) := fun _ r able =>
  ⟨.ok a, r, rfl, rfl, .refl able.sound⟩

theorem fault (f : ParseFault) : Follows levels (throw f : Parser α) (fail f) := fun _ r able =>
  ⟨.error f, r, rfl, rfl, .refl able.sound⟩

theorem expected (what : Expectation) :
    Follows levels (Parser.expected what : Parser α) (expected what) := .fault _

theorem bind {p : Parser α} {f : α → Parser β} {q : Descent α} {g : α → Descent β}
    (first : Follows levels p q) (more : ∀ a, Follows levels (f a) (g a)) :
    Follows levels (p >>= f) (q >>= g) := fun clock r able =>
  (first clock r able).bind fun a r' onward => more a clock r' (able.onward onward)

theorem peek {f : Option Located → Parser α} {g : Option Located → Descent α}
    (h : ∀ next, FollowsAt levels next (f next) (g next)) :
    Follows levels (Parser.peek >>= f) (peek >>= g) := by
  intro clock r able
  have next : r.tokens[r.cursor]? = r.rest.head? := List.head?_drop.symm
  obtain ⟨outcome, r', ended, same, onward⟩ := h r.rest.head? clock r able rfl
  refine ⟨outcome, r', (bind_ok ?_).trans ended, same, onward⟩
  rw [← next]
  rfl

theorem peekSecond {f : Option Located → Parser α} {g : Option Located → Descent α}
    (h : ∀ second, Follows levels (f second) (g second)) :
    Follows levels (Parser.peekSecond >>= f) (peekSecond >>= g) := by
  intro clock r able
  have second : r.tokens[r.cursor + 1]? = r.rest[1]? := List.getElem?_drop.symm
  obtain ⟨outcome, r', ended, same, onward⟩ := h r.rest[1]? clock r able
  refine ⟨outcome, r', (bind_ok ?_).trans ended, same, onward⟩
  rw [← second]
  rfl

/-! ### Levels -/

/-- No further level may be opened. -/
theorem tooDeep (q : Descent α) : Follows 0 (Parser.tooDeep : Parser α) (nested q) := by
  intro clock r able
  refine ⟨.error .tooDeep, r, if_pos ?_, rfl, .refl able.sound⟩
  exact Nat.le_of_eq able.depth.symm

/-- A level is closed as it was opened, whether or not there is a fault in it. The outcome is not
    looked at, so what follows is the same behind a fault. -/
theorem nested {p : Parser α} {q : Descent α} (h : Follows levels p q) :
    Follows (levels + 1) p (nested q) := by
  intro clock r able
  have shallow : r.depth < nestingLimit := by
    have depth := able.depth
    omega
  have opened := able.sound.moveTo (Nat.le_refl _) able.sound.cursor (Nat.succ_le_of_lt shallow)
  have able' : Able levels clock (r.moveTo r.cursor (r.depth + 1)) := by
    refine ⟨opened, ?_, able.tokens, Nat.lt_of_succ_lt able.levels⟩
    rw [← able.depth, Nat.add_comm levels, ← Nat.add_assoc]
    rfl
  obtain ⟨outcome, r', ended, same, onward⟩ := h clock _ able'
  have depth : r'.depth = r.depth + 1 := onward.depth
  have closed := onward.sound.moveTo (Nat.le_refl _) onward.sound.cursor
    (Nat.le_trans (Nat.sub_le r'.depth 1) onward.sound.depth)
  refine ⟨outcome, r'.moveTo r'.cursor (r'.depth - 1), ?_, same, closed, onward.tokens, ?_,
    onward.cursor, ?_⟩
  · rw [Descent.nested, if_neg (Nat.not_le.mpr shallow), ended]
  · show r'.depth - 1 = r.depth
    rw [depth, Nat.add_sub_cancel]
  · exact (List.prefix_append _ _).trans (onward.trail.trans (List.prefix_append _ _))

/-- What is bounded by the clock may be bounded by anything that is ahead of the levels. -/
theorem clocked {p : Parser α} {q : Nat → Descent α}
    (h : ∀ n, levels < n → Follows levels p (q n)) :
    Follows levels p fun clock => q clock clock := by
  intro clock r able
  obtain ⟨outcome, r', ended, same, onward⟩ := h clock able.levels clock r able
  exact ⟨outcome, r', ended, same, onward⟩

end Follows

/-! ### Loops -/

/-- The step takes tokens whenever it has something. -/
def Progresses (step : Parser (Option α)) : Prop :=
  ∀ {ts a rest}, step ts = .ok (some a) rest → rest.length < ts.length

theorem repeatFor_ends {step : Parser (Option α)} {step' : Descent (Option α)} {clock : Nat}
    (h : Follows levels step step') (progresses : Progresses step) (n : Nat) {r : Reader}
    (able : Able levels clock r) (enough : r.rest.length < n) :
    Ends clock (Parser.repeatedly step) (repeatFor step' n) r := by
  -- On how often the step may be run, since each run leaves fewer tokens.
  induction n generalizing r with
  | zero => exact absurd enough (Nat.not_lt_zero _)
  | succ n ih =>
    obtain ⟨outcome, r₁, ended, same, onward⟩ := h clock r able
    cases outcome with
    | error fault =>
      refine ⟨.error fault, r₁, bind_error ended, ?_, onward⟩
      rw [Parser.repeatedly, same]
      rfl
    | ok x =>
      cases x with
      | none => exact ⟨.ok [], r₁, bind_ok ended, Parser.repeatedly_nil same, onward⟩
      | some a =>
        have fewer := progresses same
        obtain ⟨outcome, r₂, ended', same', onward'⟩ :=
          ih (able.onward onward) (Nat.lt_of_lt_of_le fewer (Nat.le_of_lt_succ enough))
        refine ⟨outcome.map (a :: ·), r₂, (bind_ok ended).trans ?_, ?_, onward.trans onward'⟩
        · cases outcome with
          | error fault => exact bind_error ended'
          | ok as => exact bind_ok ended'
        · rw [Parser.repeatedly, same]
          simp only [leaving, if_pos fewer, same']
          cases outcome <;> rfl

theorem Follows.repeatedly {step : Parser (Option α)} {step' : Descent (Option α)}
    (h : Follows levels step step') (progresses : Progresses step) :
    Follows levels (Parser.repeatedly step) (repeatedly step') := fun clock _ able =>
  repeatFor_ends h progresses clock able able.tokens

theorem length_le_of_foresight {p : Parser α} (h : Parser.Foresight p) {ts rest : List Located}
    {a : α} (read : p ts = .ok a rest) : rest.length ≤ ts.length := by
  obtain ⟨taken, rest', outcome, rfl, same⟩ := h ts
  have outcomes := (same rest' rfl).symm.trans read
  cases outcome with
  | error fault => cases outcomes
  | ok b =>
    cases outcomes
    simp

/-! ## Small steps

The two sides look at a token in the same way, which shows once the token is known. -/

theorem accept_follows (t : Token) : Follows levels (Parser.accept t) (accept t) := by
  refine .peek fun next => ?_
  cases next with
  | none => exact (Follows.pure _).here
  | some next =>
    by_cases same : next.token = t
    · simp only [if_pos same]
      exact .bind .advance fun _ => .pure _
    · simp only [if_neg same]
      exact (Follows.pure _).here

theorem expect_follows (t : Token) : Follows levels (Parser.expect t) (expect t) := by
  refine .bind (accept_follows t) fun b => ?_
  cases b
  · exact .expected _
  · exact .pure _

theorem name_follows : Follows levels Parser.name name := by
  refine .peek fun next => ?_
  rcases next with _ | ⟨token, pos⟩
  · exact (Follows.expected _).here
  · cases token with
    | name n => exact .bind .advance fun _ => .pure _
    | _ => exact (Follows.expected _).here

theorem lineEnd_follows : Follows levels Parser.lineEnd lineEnd := by
  refine .peek fun next => ?_
  rcases next with _ | ⟨token, pos⟩
  · exact (Follows.pure _).here
  · cases token with
    | newline => exact .advance
    | _ => exact (Follows.expected _).here

/-- What is read only if a token comes that announces it. -/
theorem announced_follows {t : Token} {p p' : Parser α} {q q' : Descent α}
    (yes : Follows levels p q) (no : Follows levels p' q') :
    Follows levels (do if ← Parser.accept t then p else p') (do if ← accept t then q else q') := by
  refine .bind (accept_follows t) fun b => ?_
  cases b
  · exact no
  · exact yes

/-- So is one thing more behind a token that separates it, which takes that token at least. -/
theorem further_progresses {t : Token} {p : Parser α} {f : α → β} (ahead : Parser.Foresight p) :
    Progresses (do if ← Parser.accept t then return some (f (← p)) else return none) := by
  intro ts a rest read
  obtain ⟨_, mid, _, rfl, read, _⟩ | ⟨none, _⟩ := Parser.further_eq_ok.mp read
  · exact Nat.lt_succ_of_le (length_le_of_foresight ahead read)
  · cases none

/-- The next newline, if one comes. -/
def newlineStep : Parser (Option Unit) := do
  if ← Parser.accept .newline then return some () else return none

theorem newlineStep_progresses : Progresses newlineStep := by
  intro ts a rest read
  obtain ⟨_, mid, rfl, ended⟩ | ⟨none, _⟩ := Parser.announced_eq_ok.mp read
  · cases ended
    exact Nat.lt_succ_self _
  · cases none

theorem newlineStep_repeated (ts : List Located) :
    ∃ us, Parser.repeatedly newlineStep ts = .ok us (ts.dropWhile (·.token = .newline)) := by
  induction ts with
  | nil => exact ⟨[], Parser.repeatedly_nil rfl⟩
  | cons next ts ih =>
    obtain ⟨token, pos⟩ := next
    by_cases same : token = .newline
    · subst same
      obtain ⟨us, more⟩ := ih
      have first : newlineStep (⟨.newline, pos⟩ :: ts) = .ok (some ()) ts := rfl
      exact ⟨() :: us, Parser.repeatedly_cons first (Nat.lt_succ_self _) more⟩
    · have other : Grammar.NextIsNot .newline (⟨token, pos⟩ :: ts) := by
        rintro _ ⟨⟩
        exact same
      have none : newlineStep (⟨token, pos⟩ :: ts) = .ok none (⟨token, pos⟩ :: ts) :=
        Parser.announced_eq_ok.mpr (.inr ⟨rfl, rfl, other⟩)
      exact ⟨[], by simpa [same] using Parser.repeatedly_nil none⟩

/-- The parser takes all newlines at once, the descent one by one. -/
theorem newlines_follows : Follows levels Parser.newlines newlines := by
  have oneByOne : Parser.newlines = (do let _ ← Parser.repeatedly newlineStep; return ()) := by
    funext ts
    obtain ⟨us, read⟩ := newlineStep_repeated ts
    rw [Parser.bind_of_ok read]
    rfl
  have step : Follows levels newlineStep newline := announced_follows (.pure _) (.pure _)
  rw [oneByOne]
  exact .bind (.repeatedly step newlineStep_progresses) fun _ => .pure _

/-! ## Keys and calls -/

theorem index_follows : Follows levels Parser.index index := by
  refine announced_follows (.peek fun next => ?_) (.pure _)
  rcases next with _ | ⟨token, pos⟩
  · exact (Follows.expected _).here
  · cases token with
    | integer n => exact .bind .advance fun _ => .bind (expect_follows _) fun _ => .pure _
    | _ => exact (Follows.expected _).here

theorem keyPart_follows : Follows levels Parser.keyPart keyPart :=
  .bind name_follows fun _ => .bind index_follows fun _ => .pure _

theorem key_follows : Follows levels Parser.key key := by
  have further : Follows levels Parser.furtherPart furtherPart :=
    announced_follows (.bind keyPart_follows fun _ => .pure _) (.pure _)
  refine .bind keyPart_follows fun _ => .bind (.repeatedly further ?_) fun _ => .pure _
  exact further_progresses Parser.keyPart_foresight

section

variable {argument : Parser Expression} {argument' : Descent Expression}
  (follows : Follows levels argument argument') (foreseeing : Parser.Foresight argument)

include follows foreseeing

theorem arguments_follows : Follows levels (Parser.arguments argument) (arguments argument') := by
  have further : Follows levels (Parser.furtherArgument argument) (furtherArgument argument') :=
    announced_follows (.bind follows fun _ => .pure _) (.pure _)
  have some : Follows levels
      (do let first ← argument
          return first :: (← Parser.repeatedly (Parser.furtherArgument argument)))
      (do let first ← argument'
          return first :: (← repeatedly (furtherArgument argument'))) :=
    .bind follows fun _ => .bind (.repeatedly further (further_progresses foreseeing)) fun _ =>
      .pure _
  refine .peek fun next => ?_
  rcases next with _ | ⟨token, pos⟩
  · exact some.here
  · cases token with
    | symbol s =>
      cases s with
      | closeParen => exact (Follows.pure _).here
      | _ => exact some.here
    | _ => exact some.here

theorem call_follows : Follows levels (Parser.call argument) (call argument') := by
  refine .bind name_follows fun _ => .bind (expect_follows _) fun _ => ?_
  refine .bind (arguments_follows follows foreseeing) fun _ => ?_
  exact .bind (expect_follows _) fun _ => .pure _

end

/-! ## Expressions -/

section

variable {operand : Parser Expression} {operand' : Descent Expression}

theorem link_progresses (r : Rank) (foreseeing : Parser.Foresight operand) :
    Progresses (Parser.link (Parser.operator? r) operand) := by
  intro ts l rest read
  obtain ⟨_, _, mid, _, rfl, _, read, _⟩ | ⟨none, _⟩ := Parser.link_eq_ok.mp read
  · exact Nat.lt_succ_of_le (length_le_of_foresight foreseeing read)
  · cases none

variable (follows : Follows levels operand operand') (foreseeing : Parser.Foresight operand)

include follows

theorem link_follows (operator? : Token → Option Operator) :
    Follows levels (Parser.link operator? operand) (link operator? operand') := by
  refine .peek fun next => ?_
  cases next with
  | none => exact (Follows.pure _).here
  | some next =>
    dsimp only
    cases operator? next.token with
    | none => exact (Follows.pure _).here
    | some op => exact .bind .advance fun _ => .bind follows fun _ => .pure _

include foreseeing

theorem chain_follows (r : Rank) : Follows levels (Parser.chain (Parser.operator? r) operand)
    (chain (Parser.operator? r) operand') :=
  .bind follows fun _ =>
    .bind (.repeatedly (link_follows follows _) (link_progresses r foreseeing)) fun _ => .pure _

theorem expressionOver_follows :
    Follows levels (Parser.expressionOver operand) (expressionOver operand') := by
  have products := chain_follows follows foreseeing .product
  have sums := chain_follows products (Parser.chain_foresight foreseeing) .sum
  exact chain_follows sums (Parser.chain_foresight (Parser.chain_foresight foreseeing)) .comparison

end

/-- All tokens but names and parentheses are asked for what constant they are. -/
theorem constant_follows (next : Located) : FollowsAt levels (some next)
    (match Parser.constant? next.token with
      | some c => do Parser.advance; return Expression.constant c
      | none => Parser.expected .expression)
    (match Parser.constant? next.token with
      | some c => do advance; return Expression.constant c
      | none => expected .expression) := by
  cases Parser.constant? next.token with
  | none => exact (Follows.expected _).here
  | some c => exact .bind .advance fun _ => .pure _

section

variable {operand inner : Parser Expression} {operand' inner' : Descent Expression}
  (within : Follows levels inner inner') (foreseeing : Parser.Foresight inner)

include within foreseeing

theorem named_follows : Follows levels (Parser.named inner) (named inner') := by
  have called : Follows levels
      (do let c ← Parser.call inner; return Expression.call c.1 c.2.1 c.2.2)
      (do let c ← call inner'; return Expression.call c.1 c.2.1 c.2.2) :=
    .bind (call_follows within foreseeing) fun _ => .pure _
  have stored : Follows levels (do return Expression.key (← Parser.key))
      (do return Expression.key (← key)) := .bind key_follows fun _ => .pure _
  refine .peekSecond fun second => ?_
  rcases second with _ | ⟨token, pos⟩
  · exact stored
  · cases token with
    | symbol s =>
      cases s with
      | openParen => exact called
      | _ => exact stored
    | _ => exact stored

theorem primary_follows : Follows levels (Parser.primary inner) (primary inner') := by
  refine .peek fun next => ?_
  rcases next with _ | ⟨token, pos⟩
  · exact (Follows.expected _).here
  · cases token with
    | name n => exact (named_follows within foreseeing).here
    | symbol s =>
      cases s with
      | openParen =>
        exact .bind .advance fun _ => .bind within fun _ => .bind (expect_follows _) fun _ =>
          .pure _
      | _ => exact constant_follows _
    | _ => exact constant_follows _

theorem unaryOver_follows (follows : Follows levels operand operand') :
    Follows levels (Parser.unaryOver operand inner) (unaryOver operand' inner') := by
  have plain := primary_follows within foreseeing
  refine .peek fun next => ?_
  rcases next with _ | ⟨token, pos⟩
  · exact plain.here
  · cases token with
    | symbol s =>
      cases s with
      | bang => exact .bind .advance fun _ => .bind follows fun _ => .pure _
      | minus => exact .bind .advance fun _ => .bind follows fun _ => .pure _
      | _ => exact plain.here
    | _ => exact plain.here

end

/-- One operand in the other needs no more of the clock than levels. -/
theorem unaryWithin_follows : ∀ (levels : Nat) {n : Nat}, levels < n →
    Follows levels (Parser.unary levels) (unaryWithin n)
  | 0, n + 1, _ => unaryOver_follows (.tooDeep _) .tooDeep (.tooDeep _)
  | levels + 1, n + 1, less => by
    have operand := unaryWithin_follows levels (Nat.lt_of_succ_lt_succ less)
    have foreseeing := Parser.unary_foresight levels
    exact unaryOver_follows (expressionOver_follows operand foreseeing).nested
      (Parser.expressionOver_foresight foreseeing) operand.nested

theorem expressionWithin_follows (levels : Nat) {n : Nat} (less : levels < n) :
    Follows levels (Parser.expression levels) (expressionWithin n) :=
  expressionOver_follows (unaryWithin_follows levels less) (Parser.unary_foresight levels)

theorem expression_follows (levels : Nat) : Follows levels (Parser.expression levels) expression :=
  .clocked (q := expressionWithin) fun _ => expressionWithin_follows levels

theorem callStatement_follows : ∀ levels,
    Follows levels (Parser.callStatement levels) callStatement
  | 0 => call_follows (.tooDeep _) .tooDeep
  | levels + 1 =>
    call_follows (expression_follows levels).nested (Parser.expression_foresight levels)

/-! ## Statements -/

theorem type_follows : Follows levels Parser.type type := by
  refine .peek fun next => ?_
  rcases next with _ | ⟨token, pos⟩
  · exact (Follows.expected _).here
  · cases token with
    | keyword k =>
      cases k with
      | int | real | bool => exact .bind .advance fun _ => .pure _
      | _ => exact (Follows.expected _).here
    | name n => exact .bind .advance fun _ => .pure _
    | _ => exact (Follows.expected _).here

/-- The parser takes tokens whenever it gives a value. -/
def Takes (p : Parser α) : Prop := ∀ {ts a rest}, p ts = .ok a rest → rest.length < ts.length

theorem statement_takes (levels : Nat) : Takes (Parser.statement levels) := fun read =>
  ((Parser.statement_reads levels).sound read).1.length_lt

theorem expression_takes (levels : Nat) : Takes (Parser.expression levels) := fun read =>
  ((Parser.expression_reads levels).sound read).1.length_lt

section

variable {statement : Parser Statement} {statement' : Descent Statement}
  (follows : Follows levels statement statement') (takes : Takes statement) {pos : Position}

include follows

theorem blockStep_follows (c : Construct) (closers : List Keyword) :
    Follows levels (Parser.blockStep statement c pos closers)
      (blockStep statement' c pos closers) := by
  have some : Follows levels (do return some (← statement)) (do return some (← statement')) :=
    .bind follows fun _ => .pure _
  refine .peek fun next => ?_
  rcases next with _ | ⟨token, pos⟩
  · exact (Follows.fault _).here
  · cases token with
    | keyword k =>
      by_cases closes : k ∈ closers
      · simp only [if_pos closes]
        exact (Follows.pure _).here
      · simp only [if_neg closes]
        exact some.here
    | _ => exact some.here

include takes

theorem block_follows (c : Construct) (closers : List Keyword) :
    Follows levels (Parser.block statement c pos closers) (block statement' c pos closers) := by
  refine .repeatedly (blockStep_follows follows c closers) ?_
  intro ts s rest step
  obtain ⟨_, ⟨⟩, read⟩ | ⟨none, _⟩ := Parser.blockStep_sound step
  · exact takes read
  · cases none

theorem elseBranch_follows :
    Follows levels (Parser.elseBranch statement pos) (elseBranch statement' pos) := by
  refine announced_follows (.bind lineEnd_follows fun _ => ?_) (.pure _)
  exact .bind (block_follows follows takes _ _) fun _ => .pure _

theorem construct_follows {expression : Parser Expression} {expression' : Descent Expression}
    (condition : Follows levels expression expression') (c : Construct) :
    Follows levels (Parser.construct expression statement pos c)
      (construct expression' statement' pos c) := by
  cases c with
  | «if» =>
    refine .bind (expect_follows _) fun _ => .bind condition fun _ => ?_
    refine .bind newlines_follows fun _ => .bind (expect_follows _) fun _ => ?_
    refine .bind lineEnd_follows fun _ => .bind (block_follows follows takes _ _) fun _ => ?_
    refine .bind (elseBranch_follows follows takes) fun _ => .bind (expect_follows _) fun _ => ?_
    exact .bind lineEnd_follows fun _ => .pure _
  | «while» =>
    refine .bind (expect_follows _) fun _ => .bind condition fun _ => ?_
    refine .bind (expect_follows _) fun _ => .bind lineEnd_follows fun _ => ?_
    refine .bind (block_follows follows takes _ _) fun _ => .bind (expect_follows _) fun _ => ?_
    exact .bind lineEnd_follows fun _ => .pure _
  | «repeat» =>
    refine .bind (expect_follows _) fun _ => .bind lineEnd_follows fun _ => ?_
    refine .bind (block_follows follows takes _ _) fun _ => .bind (expect_follows _) fun _ => ?_
    exact .bind condition fun _ => .bind lineEnd_follows fun _ => .pure _

end

theorem line_follows {p : Parser Statement} {q : Descent Statement}
    (h : FollowsAt levels ahead p q) : FollowsAt levels ahead (Parser.line p) (line q) :=
  h.bind fun _ => .bind lineEnd_follows fun _ => .pure _

section

variable {expression : Parser Expression} {expression' : Descent Expression}
  {call : Parser (Position × String × List Expression)}
  {call' : Descent (Position × String × List Expression)}
  (follows : Follows levels expression expression') (called : Follows levels call call')

include follows

theorem assignment_follows (pos : Position) :
    Follows levels (Parser.assignment expression pos) (assignment expression' pos) :=
  .bind key_follows fun _ => .bind (expect_follows _) fun _ => .bind follows fun _ => .pure _

include called

theorem simple_follows (pos : Position) (k : Keyword) (next : Located) :
    FollowsAt levels (some next) (Parser.simple expression call pos k)
      (simple expression' call' pos k) := by
  cases k with
  | output | printInt | printReal => exact .bind .advance fun _ => .bind follows fun _ => .pure _
  | input => exact .bind .advance fun _ => .bind key_follows fun _ => .pure _
  | call => exact .bind .advance fun _ => .bind called fun _ => .pure _
  | declare =>
    refine .bind .advance fun _ => .bind name_follows fun _ => ?_
    exact .bind (expect_follows _) fun _ => .bind type_follows fun _ => .pure _
  | _ => exact (Follows.expected _).here

theorem statementOver_follows {constructs : Position → Construct → Parser Statement}
    {constructs' : Position → Construct → Descent Statement}
    (inner : ∀ pos c, Follows levels (constructs pos c) (constructs' pos c)) :
    Follows levels (Parser.statementOver expression call constructs)
      (statementOver expression' call' constructs') := by
  refine .peek fun next => ?_
  rcases next with _ | ⟨token, pos⟩
  · exact (Follows.expected _).here
  · cases token with
    | newline => exact .bind .advance fun _ => .pure _
    | keyword k =>
      dsimp only
      cases Parser.construct? k with
      | some c => exact (inner pos c).here
      | none => exact line_follows (simple_follows follows called pos k _)
    | name n => exact line_follows (assignment_follows follows pos).here
    | _ => exact (Follows.expected _).here

end

theorem statementWithin_follows : ∀ (levels : Nat) {n : Nat}, levels < n →
    Follows levels (Parser.statement levels) (statementWithin n)
  | 0, n + 1, _ =>
    statementOver_follows (expression_follows 0) (callStatement_follows 0) fun _ _ => .tooDeep _
  | levels + 1, n + 1, less => by
    have inner := statementWithin_follows levels (Nat.lt_of_succ_lt_succ less)
    exact statementOver_follows (expression_follows _) (callStatement_follows _) fun _ c =>
      (construct_follows inner (statement_takes levels) (expression_follows levels) c).nested

theorem statement_follows (levels : Nat) : Follows levels (Parser.statement levels) statement :=
  .clocked (q := statementWithin) fun _ => statementWithin_follows levels

theorem statements_follows {statement : Parser Statement} {statement' : Descent Statement}
    (follows : Follows levels statement statement') (takes : Takes statement) :
    Follows levels (Parser.repeatedly (Parser.nextStatement statement))
      (repeatedly (nextStatement statement')) := by
  refine .repeatedly (.peek fun next => ?_) ?_
  · cases next with
    | none => exact (Follows.pure _).here
    | some next => exact (Follows.bind follows fun _ => .pure _).here
  · intro ts s rest step
    obtain ⟨_, ⟨⟩, read, _⟩ | ⟨none, _⟩ := Parser.nextStatement_eq_ok.mp step
    · exact takes read
    · cases none

theorem program_follows : Follows nestingLimit Parser.program program :=
  statements_follows (statement_follows _) (statement_takes _)

/-! ## Calls -/

/-- A descent that follows a parser that takes tokens moves the cursor whenever it gives a value. -/
theorem Follows.cursor_lt {p : Parser α} {q : Descent α} (follows : Follows levels p q)
    (takes : Takes p) {clock : Nat} {r r' : Reader} {a : α} (able : Able levels clock r)
    (read : q clock r = some (.ok a, r')) : r.cursor < r'.cursor := by
  obtain ⟨outcome, r₁, ended, same, onward⟩ := follows clock r able
  cases ended.symm.trans read
  exact onward.cursor_lt (takes same)

end Descent

namespace Call

open Descent (Able Follows)

/-- How a call leaves a reader. -/
structure Leaves (c : Call) (r : Reader) (outcome : Except ParseFault Answer) (r' : Reader) :
    Prop where
  parsed : c.parser r.rest = Parser.leaving outcome r'.rest
  onward : r.Onward r'
  depth : r'.depth = 0
  taken : c = .expression → ∀ a, outcome = .ok a → r.cursor < r'.cursor
  ended : c = .program → ∀ a, outcome = .ok a → r'.cursor = r'.tokens.length

theorem follows : ∀ c : Call, Follows nestingLimit c.parser c.descent
  | expression => .bind (Descent.expression_follows _) fun _ => .pure _
  | program => .bind Descent.program_follows fun _ => .pure _

theorem expression_takes : Descent.Takes (parser .expression) := by
  intro ts a rest read
  obtain ⟨e, mid, read, ended⟩ := Parser.bind_eq_ok.mp read
  cases ended
  exact Descent.expression_takes nestingLimit read

theorem program_exhausts {ts rest : List Located} {a : Answer}
    (read : parser .program ts = .ok a rest) : rest = [] := by
  obtain ⟨p, mid, read, ended⟩ := Parser.bind_eq_ok.mp read
  cases ended
  exact (Parser.statements_sound (Parser.statement_reads nestingLimit) read).1

theorem leaves (c : Call) {clock : Nat} {r : Reader} (able : Able nestingLimit clock r) :
    ∃ outcome r', c.descent clock r = some (outcome, r') ∧ c.Leaves r outcome r' := by
  obtain ⟨outcome, r', ended, same, onward⟩ := c.follows clock r able
  refine ⟨outcome, r', ended, same, onward, ?_, ?_, ?_⟩
  · rw [onward.depth]
    exact Nat.add_eq_right.mp able.depth
  · rintro rfl a rfl
    exact onward.cursor_lt (expression_takes same)
  · rintro rfl a rfl
    have empty := program_exhausts same
    exact Nat.le_antisymm onward.sound.cursor (List.drop_eq_nil_iff.mp empty)

theorem after_able {clock : Nat} : ∀ (cs : List Call) {r : Reader}, Able nestingLimit clock r →
    ∃ r', after clock cs r = some r' ∧ Able nestingLimit clock r' ∧ r.Onward r'
  | [], r, able => ⟨r, rfl, able, .refl able.sound⟩
  | c :: cs, r, able => by
    obtain ⟨outcome, r₁, ended, left⟩ := c.leaves able
    obtain ⟨r₂, more, able', onward⟩ := after_able cs (able.onward left.onward)
    exact ⟨r₂, by rw [after, ended]; exact more, able', left.onward.trans onward⟩

end Call

namespace Descent

/-- Whatever a reader has been called for, each further call ends. It moves the cursor forward at
    most up to the end of the tokens, opens no more levels than may be open, closes each of them
    whether or not there is a fault, and has the outcome of the parser. A program ends at the end of
    the tokens. Nowhere is there a statement or an expression that takes no token. -/
theorem calls_disciplined (tokens : List Located) {clock : Nat}
    (ahead : nestingLimit + tokens.length < clock) :
    (∀ cs : List Call, ∃ r, Call.after clock cs (.start tokens) = some r ∧
      (Reader.start tokens).Onward r ∧
      ∀ c : Call, ∃ outcome r', c.descent clock r = some (outcome, r') ∧ c.Leaves r outcome r') ∧
    ∀ (r : Reader) (n : Nat), r.Sound → r.tokens = tokens → nestingLimit < r.depth + n →
      (∀ s r', statementWithin n clock r = some (.ok s, r') → r.cursor < r'.cursor) ∧
      ∀ e r', expressionWithin n clock r = some (.ok e, r') → r.cursor < r'.cursor := by
  constructor
  · intro cs
    have length : (Reader.start tokens).rest.length = tokens.length := rfl
    have able : Able nestingLimit clock (.start tokens) :=
      ⟨Reader.start_sound tokens, Nat.zero_add _, by omega, by omega⟩
    obtain ⟨r, made, able', onward⟩ := Call.after_able cs able
    exact ⟨r, made, onward, fun c => c.leaves able'⟩
  · rintro r n sound rfl deep
    have shallow := sound.depth
    have length := r.rest_length
    have able : Able (nestingLimit - r.depth) clock r := ⟨sound, by omega, by omega, by omega⟩
    have less : nestingLimit - r.depth < n := by omega
    exact ⟨fun s r' => (statementWithin_follows _ less).cursor_lt (statement_takes _) able,
      fun e r' => (expressionWithin_follows _ less).cursor_lt (expression_takes _) able⟩

/-- `((OUTPUT TRUE`, which is no expression, but a program behind its parentheses. -/
def unclosed : List Located :=
  [⟨.symbol .openParen, ⟨0, 1, 1⟩⟩, ⟨.symbol .openParen, ⟨1, 1, 2⟩⟩,
    ⟨.keyword .output, ⟨2, 1, 3⟩⟩, ⟨.keyword .true, ⟨9, 1, 10⟩⟩]

/-- The expression fails with two levels open. These are closed, and a program is read behind it. -/
theorem unclosed_disciplined :
    nestingLimit + unclosed.length < 200 ∧
    ∃ r, Call.after 200 [.expression] (.start unclosed) = some r ∧
      (r.trail.map fun m => (m.cursor, m.depth)) =
        [(0, 0), (1, 0), (1, 1), (2, 1), (2, 2), (2, 1), (2, 0)] ∧
      ∃ outcome r', Call.program.descent 200 r = some (outcome, r') ∧
        Call.program.Leaves r outcome r' := by
  have ahead : nestingLimit + unclosed.length < 200 := by decide
  obtain ⟨r, made, _, further⟩ := (calls_disciplined unclosed ahead).1 [.expression]
  have marks : (Call.after 200 [.expression] (.start unclosed)).map
      (fun r => r.trail.map fun m => (m.cursor, m.depth)) =
        some [(0, 0), (1, 0), (1, 1), (2, 1), (2, 2), (2, 1), (2, 0)] := by decide
  rw [made] at marks
  exact ⟨ahead, r, made, Option.some.inj marks, further .program⟩

end Descent

end Pseudocode
