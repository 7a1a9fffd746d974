import Pseudocode.Proofs.Parsing.Expressions

/-! # Statements are read by the grammar

* `ReadsStatements n p`: the parser `p` reads the statements that are nested less than `n`
  deep. Nothing need be asked of the tokens behind a statement, since the end of a line is
  part of it.
* `block_complete`: a block is read in front of a keyword that closes it. The parser goes on
  up to such a keyword, and no statement starts with one (`StatementAt.start`).
* `statement_reads` is by induction on the levels that may be opened.
-/

namespace Pseudocode.Parser

open Grammar

variable {n : Nat} {ts rest : List Located} {pos : Position}

/-- The parser reads the statements that are nested less than `n` deep. -/
structure ReadsStatements (n : Nat) (p : Parser Statement) : Prop where
  sound : ∀ {ts s rest}, p ts = .ok s rest → StatementAt ts s rest ∧ s.nesting < n
  complete : ∀ {ts s rest}, StatementAt ts s rest → s.nesting < n → p ts = .ok s rest

/-- The parsers read the IFs, WHILEs and REPEATs that are nested less than `n` deep. -/
structure ReadsConstructs (n : Nat) (p : Position → Construct → Parser Statement) : Prop where
  sound : ∀ {pos c ts s rest}, p pos c (⟨.keyword c.keyword, pos⟩ :: ts) = .ok s rest →
    StatementAt (⟨.keyword c.keyword, pos⟩ :: ts) s rest ∧ s.nesting < n
  complete : ∀ {pos c ts s rest}, StatementAt (⟨.keyword c.keyword, pos⟩ :: ts) s rest →
    s.nesting < n → p pos c (⟨.keyword c.keyword, pos⟩ :: ts) = .ok s rest

/-! ## Lines -/

theorem stops_of_lineEndAt {level : Option Rank} (h : LineEndAt ts rest) : Stops level ts := by
  cases h with
  | newline => exact .newline
  | finish => exact .nil

theorem line_eq_ok {p : Parser Statement} {s : Statement} :
    line p ts = .ok s rest ↔ ∃ mid, p ts = .ok s mid ∧ LineEndAt mid rest := by
  simp only [line, bind_eq_ok, lineEnd_eq_ok, pure_eq_ok]
  constructor
  · rintro ⟨_, mid, read, _, _, lineEnd, rfl, rfl⟩
    exact ⟨mid, read, lineEnd⟩
  · rintro ⟨mid, read, lineEnd⟩
    exact ⟨s, mid, read, (), rest, lineEnd, rfl, rfl⟩

theorem declaration_eq_ok {s : Statement} : declaration pos ts = .ok s rest ↔
    ∃ f p q r t, ts = ⟨.name f, p⟩ :: ⟨.symbol .colon, q⟩ :: ⟨DeclaredType.token t, r⟩ :: rest ∧
      s = .declare pos f t := by
  simp only [declaration, bind_eq_ok, expect_eq_ok, type_eq_ok, pure_eq_ok]
  constructor
  · rintro ⟨⟨f, p⟩, _, named, _, _, ⟨q, rfl⟩, t, _, ⟨r, rfl⟩, rfl, rfl⟩
    exact ⟨f, p, q, r, t, name_eq_ok.mp named, rfl⟩
  · rintro ⟨f, p, q, r, t, rfl, rfl⟩
    exact ⟨(f, p), _, name_eq_ok.mpr rfl, (), _, ⟨q, rfl⟩, t, _, ⟨r, rfl⟩, rfl, rfl⟩

section

variable {expression : Parser Expression} {call : Parser (Position × String × List Expression)}
  (expressions : ReadsExpressions (n + 1) (some .comparison) expression)
  (calls : ReadsCalls (n + 1) call)

include expressions

theorem assignment_sound {f : String} {s : Statement}
    (h : assignment expression pos (⟨.name f, pos⟩ :: ts) = .ok s rest) :
    SimpleAt (⟨.name f, pos⟩ :: ts) s rest ∧ s.nesting < n + 1 := by
  simp only [assignment, bind_eq_ok, expect_eq_ok, pure_eq_ok] at h
  obtain ⟨k, _, target, _, _, ⟨p, rfl⟩, e, _, read, rfl, rfl⟩ := h
  have target := key_sound target
  obtain ⟨_, _, same⟩ := target.start
  cases same
  obtain ⟨value, shallow⟩ := expressions.sound read
  exact ⟨.assign target value, shallow⟩

theorem assignment_complete {k : Key} {e : Expression} {p : Position} {mid : List Located}
    (target : KeyAt ts k (⟨.symbol .arrow, p⟩ :: mid))
    (value : ExpressionAt (some .comparison) mid e rest) (shallow : e.nesting < n + 1)
    (stops : Stops (some .comparison) rest) :
    assignment expression k.pos ts = .ok (.assign k.pos k e) rest := by
  have read := key_complete target (by rintro _ ⟨⟩; nofun) (by rintro _ ⟨⟩; nofun)
  have valueRead := expressions.complete value shallow stops
  simp only [assignment, bind_eq_ok, expect_eq_ok, pure_eq_ok]
  exact ⟨_, _, read, (), _, ⟨_, rfl⟩, _, _, valueRead, rfl, rfl⟩

include calls

theorem simple_sound {k : Keyword} {s : Statement}
    (h : simple expression call pos k (⟨.keyword k, pos⟩ :: ts) = .ok s rest) :
    SimpleAt (⟨.keyword k, pos⟩ :: ts) s rest ∧ s.nesting < n + 1 := by
  cases k
  case output =>
    simp only [simple, advance_bind, List.tail_cons, bind_eq_ok, pure_eq_ok] at h
    obtain ⟨e, _, read, rfl, rfl⟩ := h
    obtain ⟨value, shallow⟩ := expressions.sound read
    exact ⟨.output value, shallow⟩
  case input =>
    simp only [simple, advance_bind, List.tail_cons, bind_eq_ok, pure_eq_ok] at h
    obtain ⟨k, _, read, rfl, rfl⟩ := h
    exact ⟨.input (key_sound read), Nat.succ_pos n⟩
  case call =>
    simp only [simple, advance_bind, List.tail_cons, bind_eq_ok, pure_eq_ok] at h
    obtain ⟨⟨callPos, f, args⟩, _, read, rfl, rfl⟩ := h
    obtain ⟨called, shallow⟩ := calls.sound read
    exact ⟨.call called, shallow⟩
  case printInt =>
    simp only [simple, advance_bind, List.tail_cons, bind_eq_ok, pure_eq_ok] at h
    obtain ⟨e, _, read, rfl, rfl⟩ := h
    obtain ⟨value, shallow⟩ := expressions.sound read
    exact ⟨.printInt value, shallow⟩
  case printReal =>
    simp only [simple, advance_bind, List.tail_cons, bind_eq_ok, pure_eq_ok] at h
    obtain ⟨e, _, read, rfl, rfl⟩ := h
    obtain ⟨value, shallow⟩ := expressions.sound read
    exact ⟨.printReal value, shallow⟩
  case declare =>
    obtain ⟨f, p, q, r, t, same, rfl⟩ := declaration_eq_ok.mp
      (h : declaration pos ts = .ok s rest)
    subst same
    exact ⟨.declare, Nat.succ_pos n⟩
  all_goals cases h

theorem line_complete {constructs : Position → Construct → Parser Statement} {s : Statement}
    {mid : List Located} (simple : SimpleAt ts s mid) (lineEnd : LineEndAt mid rest)
    (shallow : s.nesting < n + 1) :
    statementOver expression call constructs ts = .ok s rest := by
  have stops : Stops (some .comparison) mid := stops_of_lineEndAt lineEnd
  cases simple with
  | output value =>
    have read := expressions.complete value shallow stops
    exact line_eq_ok.mpr ⟨mid, (bind_eq_ok (x := expression)).mpr ⟨_, _, read, rfl⟩, lineEnd⟩
  | input target =>
    have read := key_complete target stops.dot stops.openBracket
    exact line_eq_ok.mpr ⟨mid, (bind_eq_ok (x := key)).mpr ⟨_, _, read, rfl⟩, lineEnd⟩
  | @declare pos p q r f t =>
    have read : declaration pos (⟨.name f, p⟩ :: ⟨.symbol .colon, q⟩ :: ⟨t.token, r⟩ :: mid)
        = .ok (.declare pos f t) mid := declaration_eq_ok.mpr ⟨f, p, q, r, t, rfl, rfl⟩
    exact line_eq_ok.mpr ⟨mid, read, lineEnd⟩
  | call called =>
    have read := calls.complete called shallow
    exact line_eq_ok.mpr ⟨mid, (bind_eq_ok (x := call)).mpr ⟨_, _, read, rfl⟩, lineEnd⟩
  | printInt value =>
    have read := expressions.complete value shallow stops
    exact line_eq_ok.mpr ⟨mid, (bind_eq_ok (x := expression)).mpr ⟨_, _, read, rfl⟩, lineEnd⟩
  | printReal value =>
    have read := expressions.complete value shallow stops
    exact line_eq_ok.mpr ⟨mid, (bind_eq_ok (x := expression)).mpr ⟨_, _, read, rfl⟩, lineEnd⟩
  | assign target value =>
    have read := assignment_complete expressions target value shallow stops
    obtain ⟨_, _, rfl⟩ := target.start
    exact line_eq_ok.mpr ⟨mid, read, lineEnd⟩

end

/-! ## Blocks -/

section

variable {statement : Parser Statement} {c : Construct} {closers : List Keyword}

theorem blockStep_of_mem {k : Keyword} {p : Position} (mem : k ∈ closers) :
    blockStep statement c pos closers (⟨.keyword k, p⟩ :: ts)
      = .ok none (⟨.keyword k, p⟩ :: ts) := by
  simp only [blockStep, peek_bind, List.head?_cons, if_pos mem]
  rfl

theorem blockStep_of_ne {next : Located} (other : ∀ k ∈ closers, next.token ≠ .keyword k) :
    blockStep statement c pos closers (next :: ts)
      = (do return some (← statement) : Parser _) (next :: ts) := by
  obtain ⟨token, p⟩ := next
  cases token
  case keyword k =>
    have notMem : k ∉ closers := fun mem => other k mem rfl
    simp only [blockStep, peek_bind, List.head?_cons, if_neg notMem]
  all_goals rfl

theorem blockStep_sound {x : Option Statement}
    (h : blockStep statement c pos closers ts = .ok x rest) :
    (∃ s, x = some s ∧ statement ts = .ok s rest) ∨ x = none ∧ ts = rest := by
  rcases ts with _ | ⟨next, ts⟩
  · cases h
  by_cases other : ∀ k ∈ closers, next.token ≠ .keyword k
  · rw [blockStep_of_ne other] at h
    simp only [bind_eq_ok, pure_eq_ok] at h
    obtain ⟨s, _, read, rfl, rfl⟩ := h
    exact .inl ⟨s, rfl, read⟩
  · obtain ⟨token, p⟩ := next
    obtain ⟨k, mem, same⟩ : ∃ k ∈ closers, token = .keyword k := by simpa using other
    subst same
    rw [blockStep_of_mem mem] at h
    cases h
    exact .inr ⟨rfl, rfl⟩

variable (reads : ReadsStatements (n + 1) statement)

include reads

theorem block_sound {b : List Statement} (h : block statement c pos closers ts = .ok b rest) :
    BlockAt ts b rest ∧ Program.nesting b < n + 1 := by
  refine repeatedly_induction
    (P := fun ts b rest => BlockAt ts b rest ∧ Program.nesting b < n + 1) ?_ ?_ ?_ h
  · intro ts s mid step
    obtain ⟨_, ⟨⟩, read⟩ | ⟨⟨⟩, _⟩ := blockStep_sound step
    exact (reads.sound read).1.length_lt
  · intro ts rest step
    obtain ⟨_, ⟨⟩, _⟩ | ⟨_, rfl⟩ := blockStep_sound step
    exact ⟨.nil, Nat.succ_pos n⟩
  · intro ts s mid b rest step more
    obtain ⟨_, ⟨⟩, read⟩ | ⟨⟨⟩, _⟩ := blockStep_sound step
    obtain ⟨head, shallow⟩ := reads.sound read
    exact ⟨.cons head more.1, Nat.max_lt.mpr ⟨shallow, more.2⟩⟩

theorem block_complete (c : Construct) (pos : Position) {k : Keyword} {p : Position}
    (mem : k ∈ closers) (known : closers ⊆ closing) :
    ∀ {ts b}, BlockAt ts b (⟨.keyword k, p⟩ :: rest) → Program.nesting b < n + 1 →
      block statement c pos closers ts = .ok b (⟨.keyword k, p⟩ :: rest)
  | _, _, .nil, _ => repeatedly_nil (blockStep_of_mem mem)
  | ts, _, .cons head tail, shallow => by
    obtain ⟨shallowHead, shallowTail⟩ := Nat.max_lt.mp shallow
    have read := reads.complete head shallowHead
    obtain ⟨next, first, other⟩ := head.start
    obtain ⟨ts, rfl⟩ := List.head?_eq_some_iff.mp first
    have step : blockStep statement c pos closers (next :: ts) = .ok (some _) _ :=
      (blockStep_of_ne fun k mem => other k (known mem)).trans
        (bind_eq_ok.mpr ⟨_, _, read, rfl⟩)
    exact repeatedly_cons step head.length_lt (block_complete c pos mem known tail shallowTail)

omit reads in
theorem elseBranch_eq_ok {b : Option (List Statement)} :
    elseBranch statement pos ts = .ok b rest ↔
      (∃ p mid last body, ts = ⟨.keyword .else, p⟩ :: mid ∧ LineEndAt mid last ∧
        block statement .if pos [.endIf] last = .ok body rest ∧ b = some body) ∨
      b = none ∧ ts = rest ∧ NextIsNot (.keyword .else) ts := by
  refine announced_eq_ok.trans (or_congr_left ?_)
  simp only [bind_eq_ok, lineEnd_eq_ok, pure_eq_ok]
  constructor
  · rintro ⟨p, mid, rfl, _, last, elseEnd, body, _, read, rfl, rfl⟩
    exact ⟨p, mid, last, body, rfl, elseEnd, read, rfl⟩
  · rintro ⟨p, mid, last, body, rfl, elseEnd, read, rfl⟩
    exact ⟨p, mid, rfl, (), last, elseEnd, body, rest, read, rfl, rfl⟩

theorem elseBranch_sound {b : Option (List Statement)}
    (h : elseBranch statement pos ts = .ok b rest) : ElseAt ts b rest ∧ elseNesting b < n + 1 := by
  obtain ⟨_, _, _, _, rfl, elseEnd, read, rfl⟩ | ⟨rfl, rfl, _⟩ := elseBranch_eq_ok.mp h
  · obtain ⟨block, shallow⟩ := block_sound reads read
    exact ⟨.some elseEnd block, shallow⟩
  · exact ⟨.none, Nat.succ_pos n⟩

theorem elseBranch_complete (pos : Position) {b : Option (List Statement)} {p : Position}
    (h : ElseAt ts b (⟨.keyword .endIf, p⟩ :: rest)) (shallow : elseNesting b < n + 1) :
    elseBranch statement pos ts = .ok b (⟨.keyword .endIf, p⟩ :: rest) := by
  refine elseBranch_eq_ok.mpr ?_
  cases h with
  | none => exact .inr ⟨rfl, rfl, by rintro _ ⟨⟩; nofun⟩
  | some elseEnd block =>
    refine .inl ⟨_, _, _, _, rfl, elseEnd, ?_, rfl⟩
    exact block_complete reads .if pos (List.mem_singleton.mpr rfl) (by decide) block shallow

end

/-! ## Constructs -/

/-- The keyword of a construct stands at the start of no line. -/
theorem not_simpleAt_construct {c : Construct} {s : Statement} :
    ¬ SimpleAt (⟨.keyword c.keyword, pos⟩ :: ts) s rest := by
  intro h
  cases c <;> cases h <;>
    · rename KeyAt _ _ _ => target
      obtain ⟨_, _, ⟨⟩⟩ := target.start

theorem tooDeep_constructs : ReadsConstructs 1 fun _ _ => tooDeep where
  sound := nofun
  complete {_ c _ _ _} h shallow := by
    cases c <;> cases h
    case if.line simple _ => exact absurd simple (not_simpleAt_construct (c := .if))
    case while.line simple _ => exact absurd simple (not_simpleAt_construct (c := .while))
    case repeat.line simple _ => exact absurd simple (not_simpleAt_construct (c := .repeat))
    all_goals exact absurd (Nat.lt_of_succ_lt_succ shallow) (Nat.not_lt_zero _)

theorem stops_of_newlinesAt {level : Option Rank} {k : Keyword} {p : Position}
    (h : NewlinesAt ts (⟨.keyword k, p⟩ :: rest)) : Stops level ts := by
  cases h with
  | nil => exact .keyword
  | cons => exact .newline

section

variable {expression : Parser Expression} {statement : Parser Statement}
  (expressions : ReadsExpressions (n + 1) (some .comparison) expression)
  (statements : ReadsStatements (n + 1) statement)

include expressions statements

theorem construct_sound {c : Construct} {s : Statement}
    (h : construct expression statement pos c (⟨.keyword c.keyword, pos⟩ :: ts) = .ok s rest) :
    StatementAt (⟨.keyword c.keyword, pos⟩ :: ts) s rest ∧ s.nesting < n + 2 := by
  cases c with
  | «if» =>
    simp only [construct, bind_eq_ok, expect_eq_ok, lineEnd_eq_ok, pure_eq_ok] at h
    obtain ⟨_, _, ⟨_, ⟨⟩⟩, e, _, read, _, _, breaks, _, _, ⟨p, rfl⟩, _, _, thenEnd, b, _, first, b', _,
      second, _, _, ⟨q, rfl⟩, _, _, lineEnd, rfl, rfl⟩ := h
    obtain ⟨condition, shallow⟩ := expressions.sound read
    obtain ⟨first, shallowFirst⟩ := block_sound statements first
    obtain ⟨second, shallowSecond⟩ := elseBranch_sound statements second
    refine ⟨.ifElse condition (newlines_sound breaks) thenEnd first second lineEnd, ?_⟩
    simp only [Statement.nesting]
    omega
  | «while» =>
    simp only [construct, bind_eq_ok, expect_eq_ok, lineEnd_eq_ok, pure_eq_ok] at h
    obtain ⟨_, _, ⟨_, ⟨⟩⟩, e, _, read, _, _, ⟨p, rfl⟩, _, _, doEnd, b, _, body, _, _, ⟨q, rfl⟩, _, _,
      lineEnd, rfl, rfl⟩ := h
    obtain ⟨condition, shallow⟩ := expressions.sound read
    obtain ⟨body, shallowBody⟩ := block_sound statements body
    refine ⟨.while condition doEnd body lineEnd, ?_⟩
    simp only [Statement.nesting]
    omega
  | «repeat» =>
    simp only [construct, bind_eq_ok, expect_eq_ok, lineEnd_eq_ok, pure_eq_ok] at h
    obtain ⟨_, _, ⟨_, ⟨⟩⟩, _, _, repeatEnd, b, _, body, _, _, ⟨q, rfl⟩, e, _, read, _, _,
      lineEnd, rfl, rfl⟩ := h
    obtain ⟨condition, shallow⟩ := expressions.sound read
    obtain ⟨body, shallowBody⟩ := block_sound statements body
    refine ⟨.repeat repeatEnd body condition lineEnd, ?_⟩
    simp only [Statement.nesting]
    omega

theorem construct_complete {c : Construct} {s : Statement}
    (h : StatementAt (⟨.keyword c.keyword, pos⟩ :: ts) s rest) (shallow : s.nesting < n + 2) :
    construct expression statement pos c (⟨.keyword c.keyword, pos⟩ :: ts) = .ok s rest := by
  cases c with
  | «if» =>
    cases h with
    | line simple _ => exact absurd simple (not_simpleAt_construct (c := .if))
    | ifElse condition breaks thenEnd first second lineEnd =>
      simp only [Statement.nesting] at shallow
      have conditionRead := expressions.complete condition (by omega) (stops_of_newlinesAt breaks)
      have breaksRead := newlines_of_newlinesAt breaks (by rintro _ ⟨⟩; nofun)
      have secondRead := elseBranch_complete statements pos second (by omega)
      obtain ⟨k, q, _, rfl, mem⟩ := second.start
      have firstRead := block_complete statements .if pos mem (by decide) first (by omega)
      simp only [construct, bind_eq_ok, expect_eq_ok, lineEnd_eq_ok, pure_eq_ok]
      exact ⟨(), _, ⟨_, rfl⟩, _, _, conditionRead, (), _, breaksRead, (), _, ⟨_, rfl⟩, (), _, thenEnd,
        _, _, firstRead, _, _, secondRead, (), _, ⟨_, rfl⟩, (), _, lineEnd, rfl, rfl⟩
  | «while» =>
    cases h with
    | line simple _ => exact absurd simple (not_simpleAt_construct (c := .while))
    | «while» condition doEnd body lineEnd =>
      simp only [Statement.nesting] at shallow
      have conditionRead := expressions.complete condition (by omega) .keyword
      have bodyRead :=
        block_complete statements .while pos (List.mem_singleton.mpr rfl) (by decide) body (by omega)
      simp only [construct, bind_eq_ok, expect_eq_ok, lineEnd_eq_ok, pure_eq_ok]
      exact ⟨(), _, ⟨_, rfl⟩, _, _, conditionRead, (), _, ⟨_, rfl⟩, (), _, doEnd, _, _, bodyRead,
        (), _, ⟨_, rfl⟩, (), _, lineEnd, rfl, rfl⟩
  | «repeat» =>
    cases h with
    | line simple _ => exact absurd simple (not_simpleAt_construct (c := .repeat))
    | «repeat» repeatEnd body condition lineEnd =>
      simp only [Statement.nesting] at shallow
      have bodyRead :=
        block_complete statements .repeat pos (List.mem_singleton.mpr rfl) (by decide) body (by omega)
      have conditionRead := expressions.complete condition (by omega) (stops_of_lineEndAt lineEnd)
      simp only [construct, bind_eq_ok, expect_eq_ok, lineEnd_eq_ok, pure_eq_ok]
      exact ⟨(), _, ⟨_, rfl⟩, (), _, repeatEnd, _, _, bodyRead, (), _, ⟨_, rfl⟩, _, _, conditionRead,
        (), _, lineEnd, rfl, rfl⟩

theorem construct_reads :
    ReadsConstructs (n + 2) fun pos c => construct expression statement pos c where
  sound := construct_sound expressions statements
  complete := construct_complete expressions statements

end

/-! ## Statements -/

section

variable {expression : Parser Expression} {call : Parser (Position × String × List Expression)}
  {constructs : Position → Construct → Parser Statement}
  (expressions : ReadsExpressions (n + 1) (some .comparison) expression)
  (calls : ReadsCalls (n + 1) call) (reads : ReadsConstructs (n + 1) constructs)

include expressions calls reads

theorem statementOver_sound {s : Statement}
    (h : statementOver expression call constructs ts = .ok s rest) :
    StatementAt ts s rest ∧ s.nesting < n + 1 := by
  rcases ts with _ | ⟨⟨token, pos⟩, ts⟩
  · cases h
  cases token
  case newline =>
    cases h
    exact ⟨.empty, Nat.succ_pos n⟩
  case keyword k =>
    have lineOf (h : line (simple expression call pos k) (⟨.keyword k, pos⟩ :: ts) = .ok s rest) :
        StatementAt (⟨.keyword k, pos⟩ :: ts) s rest ∧ s.nesting < n + 1 := by
      obtain ⟨mid, read, lineEnd⟩ := line_eq_ok.mp h
      obtain ⟨simple, shallow⟩ := simple_sound expressions calls read
      exact ⟨.line simple lineEnd, shallow⟩
    cases k
    case «if» => exact reads.sound (c := .if) h
    case «while» => exact reads.sound (c := .while) h
    case «repeat» => exact reads.sound (c := .repeat) h
    all_goals exact lineOf h
  case name f =>
    obtain ⟨mid, read, lineEnd⟩ := line_eq_ok.mp
      (h : line (assignment expression pos) (⟨.name f, pos⟩ :: ts) = .ok s rest)
    obtain ⟨simple, shallow⟩ := assignment_sound expressions read
    exact ⟨.line simple lineEnd, shallow⟩
  all_goals cases h

theorem statementOver_complete {s : Statement} (h : StatementAt ts s rest)
    (shallow : s.nesting < n + 1) : statementOver expression call constructs ts = .ok s rest := by
  cases h with
  | empty => rfl
  | line simple lineEnd => exact line_complete expressions calls simple lineEnd shallow
  | ifElse condition breaks thenEnd first second lineEnd =>
    exact reads.complete (c := .if) (.ifElse condition breaks thenEnd first second lineEnd) shallow
  | «while» condition doEnd body lineEnd =>
    exact reads.complete (c := .while) (.while condition doEnd body lineEnd) shallow
  | «repeat» repeatEnd body condition lineEnd =>
    exact reads.complete (c := .repeat) (.repeat repeatEnd body condition lineEnd) shallow

theorem statementOver_reads :
    ReadsStatements (n + 1) (statementOver expression call constructs) where
  sound := statementOver_sound expressions calls reads
  complete := statementOver_complete expressions calls reads

end

theorem statement_reads : ∀ levels, ReadsStatements (levels + 1) (statement levels)
  | 0 => statementOver_reads (expression_reads 0) (callStatement_reads 0) tooDeep_constructs
  | levels + 1 =>
    statementOver_reads (expression_reads (levels + 1)) (callStatement_reads (levels + 1))
      (construct_reads (expression_reads levels) (statement_reads levels))

end Pseudocode.Parser
