import Pseudocode.Proofs.Parsing.Primitives

/-! # Expressions are read by the grammar

* `ReadsExpressions n level p`: the parser `p` reads the expressions of the level that are
  nested less than `n` deep. All that it reads is one, and it reads each one that stands in
  front of a token which cannot prolong it (`Stops`).
* `chain_reads` goes from operands to chains of operators of one rank. The parser reads the
  operands from left to right and the grammar leans left, so the chain is taken apart by
  induction on its derivation (`links_of_expressionAt`).
* `unary_reads` is by induction on the levels that may be opened.
-/

namespace Pseudocode.Parser

open Grammar

variable {n : Nat} {ts rest : List Located}

/-! ## Keys -/

theorem furtherPart_eq_ok {x : Option KeyPart} : furtherPart ts = .ok x rest ↔
    (∃ pos mid part, ts = ⟨.symbol .dot, pos⟩ :: mid ∧ keyPart mid = .ok part rest ∧
      x = some part.1) ∨ x = none ∧ ts = rest ∧ NextIsNot (.symbol .dot) ts :=
  further_eq_ok

theorem key_sound {k : Key} (h : key ts = .ok k rest) : KeyAt ts k rest := by
  obtain ⟨⟨part, pos⟩, mid, first, h⟩ := bind_eq_ok.mp h
  obtain ⟨parts, last, more, h⟩ := bind_eq_ok.mp h
  obtain ⟨rfl, rfl⟩ := pure_eq_ok.mp h
  refine .key (keyPart_eq_ok.mp first).1 (repeatedly_induction ?_ ?_ ?_ more)
  · intro ts part mid step
    obtain ⟨p, _, _, rfl, read, _⟩ | ⟨⟨⟩, _⟩ := furtherPart_eq_ok.mp step
    exact Nat.lt_succ_of_lt (keyPart_eq_ok.mp read).1.length_lt
  · intro ts rest step
    obtain ⟨p, _, _, rfl, _, ⟨⟩⟩ | ⟨_, rfl, _⟩ := furtherPart_eq_ok.mp step
    exact .nil
  · intro ts part mid parts rest step more
    obtain ⟨p, _, _, rfl, read, ⟨⟩⟩ | ⟨⟨⟩, _⟩ := furtherPart_eq_ok.mp step
    exact .cons (keyPart_eq_ok.mp read).1 more

theorem parts_complete {parts : List KeyPart} (h : PartsAt ts parts rest)
    (dot : NextIsNot (.symbol .dot) rest) (bracket : NextIsNot (.symbol .openBracket) rest) :
    repeatedly furtherPart ts = .ok parts rest := by
  induction h with
  | nil => exact repeatedly_nil (furtherPart_eq_ok.mpr (.inr ⟨rfl, rfl, dot⟩))
  | cons head tail ih =>
    have part := keyPart_eq_ok.mpr ⟨head, fun _ => tail.nextIsNot nofun bracket⟩
    exact repeatedly_cons (furtherPart_eq_ok.mpr (.inl ⟨_, _, _, rfl, part, rfl⟩))
      (Nat.lt_succ_of_lt head.length_lt) (ih dot bracket)

theorem key_complete {k : Key} (h : KeyAt ts k rest) (dot : NextIsNot (.symbol .dot) rest)
    (bracket : NextIsNot (.symbol .openBracket) rest) : key ts = .ok k rest := by
  cases h with
  | key first more =>
    have part := keyPart_eq_ok.mpr ⟨first, fun _ => more.nextIsNot nofun bracket⟩
    refine bind_eq_ok.mpr ⟨_, _, part, ?_⟩
    exact bind_eq_ok.mpr ⟨_, _, parts_complete more dot bracket, rfl⟩

/-! ## The token behind an expression -/

def operator? : Rank → Token → Option Operator
  | .product => productOperator?
  | .sum => sumOperator?
  | .comparison => comparison?

theorem operator?_eq_some {r : Rank} {t : Token} {op : Operator} :
    operator? r t = some op ↔ t = .symbol op.symbol ∧ op.rank = r := by
  constructor
  · intro h
    cases t
    case symbol s => cases r <;> cases s <;> cases h <;> exact ⟨rfl, rfl⟩
    all_goals cases r <;> cases h
  · rintro ⟨rfl, rfl⟩
    rcases op with c | a
    · cases c <;> rfl
    · cases a <;> rfl

/-- The ranks of the operators in an expression of the level. -/
def ranksUpTo : Option Rank → List Rank
  | none => []
  | some .product => [.product]
  | some .sum => [.product, .sum]
  | some .comparison => [.product, .sum, .comparison]

/-- The token, behind an expression of the level, would belong to it. -/
def prolongs (level : Option Rank) (t : Token) : Bool :=
  t ∈ [.symbol .dot, .symbol .openBracket, .symbol .openParen] ||
    (ranksUpTo level).any fun r => (operator? r t).isSome

/-- An expression of the level that ends in front of these tokens cannot be longer. -/
def Stops (level : Option Rank) (ts : List Located) : Prop :=
  ∀ next ∈ ts.head?, prolongs level next.token = false

namespace Stops

variable {level : Option Rank}

theorem cons {t : Token} {pos : Position} (other : prolongs level t = false) :
    Stops level (⟨t, pos⟩ :: ts) := by
  rintro _ ⟨⟩
  exact other

theorem nil : Stops level [] := nofun

theorem keyword {k : Keyword} {pos : Position} : Stops level (⟨.keyword k, pos⟩ :: ts) :=
  .cons (by rcases level with _ | _ | _ | _ <;> rfl)

theorem newline {pos : Position} : Stops level (⟨.newline, pos⟩ :: ts) :=
  .cons (by rcases level with _ | _ | _ | _ <;> rfl)

theorem closeParen {pos : Position} : Stops level (⟨.symbol .closeParen, pos⟩ :: ts) :=
  .cons (by rcases level with _ | _ | _ | _ <;> rfl)

theorem comma {pos : Position} : Stops level (⟨.symbol .comma, pos⟩ :: ts) :=
  .cons (by rcases level with _ | _ | _ | _ <;> rfl)

/-- The operands of an operator end in front of it. -/
theorem operator {op : Operator} {pos : Position} :
    Stops op.rank.below (⟨.symbol op.symbol, pos⟩ :: ts) := by
  refine .cons ?_
  rcases op with c | a
  · cases c <;> rfl
  · cases a <;> rfl

theorem below {r : Rank} (h : Stops (some r) ts) : Stops r.below ts := by
  intro next found
  have other := h next found
  cases r <;> simp_all [prolongs, ranksUpTo, Rank.below]

theorem operator?_eq_none {r : Rank} (h : Stops (some r) ts) :
    ∀ next ∈ ts.head?, operator? r next.token = none := by
  intro next found
  have other := h next found
  cases r <;> simp_all [prolongs, ranksUpTo]

theorem nextIsNot {t : Token} (h : Stops level ts) (prolonging : prolongs level t = true) :
    NextIsNot t ts := by
  rintro next found rfl
  exact absurd ((h next found).symm.trans prolonging) nofun

theorem dot (h : Stops level ts) : NextIsNot (.symbol .dot) ts := h.nextIsNot rfl

theorem openBracket (h : Stops level ts) : NextIsNot (.symbol .openBracket) ts := h.nextIsNot rfl

theorem openParen (h : Stops level ts) : NextIsNot (.symbol .openParen) ts := h.nextIsNot rfl

end Stops

/-- The parser reads the expressions of the level that are nested less than `n` deep. -/
structure ReadsExpressions (n : Nat) (level : Option Rank) (p : Parser Expression) : Prop where
  sound : ∀ {ts e rest}, p ts = .ok e rest → ExpressionAt level ts e rest ∧ e.nesting < n
  complete : ∀ {ts e rest}, ExpressionAt level ts e rest → e.nesting < n → Stops level rest →
    p ts = .ok e rest

theorem tooDeep_reads {level : Option Rank} : ReadsExpressions 0 level tooDeep where
  sound := nofun
  complete _ shallow _ := absurd shallow (Nat.not_lt_zero _)

/-! ## Calls -/

/-- The parser reads the calls whose arguments are nested less than `n` deep, where each
    of them is one level deeper than the call. -/
structure ReadsCalls (n : Nat) (p : Parser (Position × String × List Expression)) : Prop where
  sound : ∀ {ts c rest}, p ts = .ok c rest → CallAt ts c rest ∧ argumentNesting c.2.2 < n
  complete : ∀ {ts c rest}, CallAt ts c rest → argumentNesting c.2.2 < n → p ts = .ok c rest

section

variable {argument : Parser Expression} (reads : ReadsExpressions n (some .comparison) argument)

theorem furtherArgument_eq_ok {x : Option Expression} :
    furtherArgument argument ts = .ok x rest ↔
      (∃ pos mid e, ts = ⟨.symbol .comma, pos⟩ :: mid ∧ argument mid = .ok e rest ∧ x = some e) ∨
        x = none ∧ ts = rest ∧ NextIsNot (.symbol .comma) ts :=
  further_eq_ok

include reads

theorem further_sound {es : List Expression}
    (h : repeatedly (furtherArgument argument) ts = .ok es rest) :
    FurtherAt ts es rest ∧ argumentNesting es < n + 1 := by
  refine repeatedly_induction
    (P := fun ts es rest => FurtherAt ts es rest ∧ argumentNesting es < n + 1) ?_ ?_ ?_ h
  · intro ts e mid step
    obtain ⟨p, _, _, rfl, read, _⟩ | ⟨⟨⟩, _⟩ := furtherArgument_eq_ok.mp step
    exact Nat.lt_succ_of_lt (reads.sound read).1.length_lt
  · intro ts rest step
    obtain ⟨p, _, _, rfl, _, ⟨⟩⟩ | ⟨_, rfl, _⟩ := furtherArgument_eq_ok.mp step
    exact ⟨.nil, Nat.succ_pos n⟩
  · intro ts e mid es rest step more
    obtain ⟨p, _, _, rfl, read, ⟨⟩⟩ | ⟨⟨⟩, _⟩ := furtherArgument_eq_ok.mp step
    obtain ⟨head, shallow⟩ := reads.sound read
    exact ⟨.cons head more.1, Nat.max_lt.mpr ⟨Nat.succ_lt_succ shallow, more.2⟩⟩

omit reads in
theorem arguments_of_nextIsNot (other : NextIsNot (.symbol .closeParen) ts) :
    arguments argument ts =
      (do let first ← argument
          return first :: (← repeatedly (furtherArgument argument)) : Parser _) ts := by
  rcases ts with _ | ⟨⟨token, pos⟩, ts⟩
  · rfl
  · cases token
    case symbol s =>
      cases s
      case closeParen => exact absurd rfl (other _ rfl)
      all_goals rfl
    all_goals rfl

theorem arguments_sound {es : List Expression} (h : arguments argument ts = .ok es rest) :
    ArgumentsAt ts es rest ∧ argumentNesting es < n + 1 := by
  obtain ⟨q, ts, rfl⟩ | other := nextIs_or_nextIsNot (.symbol .closeParen) ts
  · cases h
    exact ⟨.none, Nat.succ_pos n⟩
  · rw [arguments_of_nextIsNot other] at h
    obtain ⟨e, mid, first, h⟩ := bind_eq_ok.mp h
    obtain ⟨es, last, more, h⟩ := bind_eq_ok.mp h
    obtain ⟨rfl, rfl⟩ := pure_eq_ok.mp h
    obtain ⟨head, shallow⟩ := reads.sound first
    obtain ⟨tail, shallowTail⟩ := further_sound reads more
    exact ⟨.some head tail, Nat.max_lt.mpr ⟨Nat.succ_lt_succ shallow, shallowTail⟩⟩

omit reads in
/-- Behind an argument comes a comma or the closing parenthesis. -/
theorem stops_of_furtherAt {level : Option Rank} {es : List Expression} {q : Position}
    (h : FurtherAt ts es (⟨.symbol .closeParen, q⟩ :: rest)) : Stops level ts := by
  cases h with
  | nil => exact .closeParen
  | cons => exact .comma

theorem further_complete {es : List Expression} {q : Position} :
    ∀ {ts : List Located}, FurtherAt ts es (⟨.symbol .closeParen, q⟩ :: rest) →
      argumentNesting es < n + 1 →
      repeatedly (furtherArgument argument) ts = .ok es (⟨.symbol .closeParen, q⟩ :: rest)
  | _, .nil, _ => repeatedly_nil (furtherArgument_eq_ok.mpr (.inr ⟨rfl, rfl, nofun⟩))
  | _, .cons head tail, shallow => by
    obtain ⟨shallowHead, shallowTail⟩ := Nat.max_lt.mp shallow
    have first := reads.complete head (Nat.lt_of_succ_lt_succ shallowHead) (stops_of_furtherAt tail)
    exact repeatedly_cons (furtherArgument_eq_ok.mpr (.inl ⟨_, _, _, rfl, first, rfl⟩))
      (Nat.lt_succ_of_lt head.length_lt) (further_complete tail shallowTail)

theorem arguments_complete {es : List Expression} {q : Position}
    (h : ArgumentsAt ts es (⟨.symbol .closeParen, q⟩ :: rest))
    (shallow : argumentNesting es < n + 1) :
    arguments argument ts = .ok es (⟨.symbol .closeParen, q⟩ :: rest) := by
  cases h with
  | none => rfl
  | some first more =>
    obtain ⟨shallowFirst, shallowMore⟩ := Nat.max_lt.mp shallow
    have read := reads.complete first (Nat.lt_of_succ_lt_succ shallowFirst) (stops_of_furtherAt more)
    rw [arguments_of_nextIsNot first.nextIsNot_closeParen]
    refine bind_eq_ok.mpr ⟨_, _, read, ?_⟩
    exact bind_eq_ok.mpr ⟨_, _, further_complete reads more shallowMore, rfl⟩

theorem call_reads : ReadsCalls (n + 1) (call argument) where
  sound h := by
    simp only [call, bind_eq_ok, expect_eq_ok, pure_eq_ok] at h
    obtain ⟨⟨f, pos⟩, _, named, _, _, ⟨p, rfl⟩, args, _, read, _, _, ⟨q, rfl⟩, rfl, rfl⟩ := h
    cases name_eq_ok.mp named
    obtain ⟨arguments, shallow⟩ := arguments_sound reads read
    exact ⟨.call arguments, shallow⟩
  complete h shallow := by
    cases h with
    | call arguments =>
      simp only [call, bind_eq_ok, expect_eq_ok, pure_eq_ok]
      exact ⟨_, _, name_eq_ok.mpr rfl, (), _, ⟨_, rfl⟩, _, _,
        arguments_complete reads arguments shallow, (), _, ⟨_, rfl⟩, rfl, rfl⟩

end

/-! ## Chains of operators -/

section

variable {r : Rank} {operand : Parser Expression}

theorem link_eq_ok {x : Option Link} : link (operator? r) operand ts = .ok x rest ↔
    (∃ op pos mid rhs, ts = ⟨.symbol op.symbol, pos⟩ :: mid ∧ op.rank = r ∧
      operand mid = .ok rhs rest ∧ x = some ⟨op, pos, rhs⟩) ∨
    x = none ∧ ts = rest ∧ ∀ next ∈ ts.head?, operator? r next.token = none := by
  simp only [link, peek_bind]
  rcases ts with _ | ⟨⟨token, pos⟩, ts⟩
  · constructor
    · intro h
      cases h
      exact .inr ⟨rfl, rfl, nofun⟩
    · rintro (⟨_, _, _, _, ⟨⟩, _⟩ | ⟨rfl, rfl, _⟩)
      rfl
  · simp only [List.head?_cons]
    cases found : operator? r token with
    | none =>
      simp only [pure_eq_ok]
      constructor
      · rintro ⟨rfl, rfl⟩
        refine .inr ⟨rfl, rfl, ?_⟩
        rintro _ ⟨⟩
        exact found
      · rintro (⟨op, _, _, _, ⟨⟩, rank, _⟩ | ⟨rfl, rfl, _⟩)
        · cases found.symm.trans (operator?_eq_some.mpr ⟨rfl, rank⟩)
        · exact ⟨rfl, rfl⟩
    | some op =>
      obtain ⟨rfl, rank⟩ := operator?_eq_some.mp found
      simp only [advance_bind, bind_eq_ok, pure_eq_ok]
      constructor
      · rintro ⟨rhs, _, read, rfl, rfl⟩
        exact .inl ⟨op, pos, ts, rhs, rfl, rank, read, rfl⟩
      · rintro (⟨op', _, _, rhs, same, rank', read, rfl⟩ | ⟨_, _, other⟩)
        · injection same with next behind
          injection next with symbol place
          cases found.symm.trans (operator?_eq_some.mpr ⟨symbol, rank'⟩)
          subst behind place
          exact ⟨rhs, rest, read, rfl, rfl⟩
        · cases found.symm.trans (other _ rfl)

theorem chain_sound (reads : ReadsExpressions n r.below operand) {e : Expression}
    (h : chain (operator? r) operand ts = .ok e rest) :
    ExpressionAt (some r) ts e rest ∧ e.nesting < n := by
  obtain ⟨first, mid, start, h⟩ := bind_eq_ok.mp h
  obtain ⟨links, last, more, h⟩ := bind_eq_ok.mp h
  obtain ⟨rfl, rfl⟩ := pure_eq_ok.mp h
  obtain ⟨head, shallow⟩ := reads.sound start
  refine repeatedly_induction
    (P := fun mid links last => ∀ {first}, ExpressionAt (some r) ts first mid →
      first.nesting < n → ExpressionAt (some r) ts (chainOf first links) last ∧
        (chainOf first links).nesting < n) ?_ ?_ ?_ more (.single head) shallow
  · intro ts l mid step
    obtain ⟨_, _, _, _, rfl, _, read, _⟩ | ⟨⟨⟩, _⟩ := link_eq_ok.mp step
    exact Nat.lt_succ_of_lt (reads.sound read).1.length_lt
  · intro mid last step first left shallow
    obtain ⟨_, _, _, _, _, _, _, ⟨⟩⟩ | ⟨_, rfl, _⟩ := link_eq_ok.mp step
    exact ⟨left, shallow⟩
  · intro mid l mid' links last step more first left shallow
    obtain ⟨_, _, _, _, rfl, rank, read, ⟨⟩⟩ | ⟨⟨⟩, _⟩ := link_eq_ok.mp step
    obtain ⟨right, shallowRight⟩ := reads.sound read
    exact more (.binary rank left right) (Nat.max_lt.mpr ⟨shallow, shallowRight⟩)

/-- The chain that a derivation leans to the left is read link by link. -/
theorem links_of_expressionAt (reads : ReadsExpressions n r.below operand) :
    ∀ {ts e mid}, ExpressionAt (some r) ts e mid → e.nesting < n → Stops r.below mid →
      ∃ first links start, operand ts = .ok first start ∧ chainOf first links = e ∧
        ∀ more last, repeatedly (link (operator? r) operand) mid = .ok more last →
          repeatedly (link (operator? r) operand) start = .ok (links ++ more) last
  | _, e, mid, .single head, shallow, stops =>
    ⟨e, [], mid, reads.complete head shallow stops, rfl, fun _ _ h => h⟩
  | _, .binary op pos _ rhs, _, .binary rank left right, shallow, stops => by
    obtain ⟨shallowLeft, shallowRight⟩ := Nat.max_lt.mp shallow
    obtain ⟨first, links, start, read, rfl, run⟩ :=
      links_of_expressionAt reads left shallowLeft (rank ▸ .operator)
    have operandRead := reads.complete right shallowRight stops
    have linked := link_eq_ok.mpr (.inl ⟨op, pos, _, rhs, rfl, rank, operandRead, rfl⟩)
    refine ⟨first, links ++ [⟨op, pos, rhs⟩], start, read, ?_, ?_⟩
    · simp [chainOf]
    · intro more last behind
      rw [List.append_assoc]
      exact run _ _ (repeatedly_cons linked (Nat.lt_succ_of_lt right.length_lt) behind)

theorem chain_complete (reads : ReadsExpressions n r.below operand) {e : Expression}
    (h : ExpressionAt (some r) ts e rest) (shallow : e.nesting < n) (stops : Stops (some r) rest) :
    chain (operator? r) operand ts = .ok e rest := by
  obtain ⟨first, links, start, read, rfl, run⟩ :=
    links_of_expressionAt reads h shallow stops.below
  have done := repeatedly_nil
    (link_eq_ok.mpr (.inr ⟨rfl, rfl, stops.operator?_eq_none⟩) :
      link (operator? r) operand rest = .ok none rest)
  have more := run [] rest done
  rw [List.append_nil] at more
  exact bind_eq_ok.mpr ⟨_, _, read, bind_eq_ok.mpr ⟨_, _, more, rfl⟩⟩

theorem chain_reads (reads : ReadsExpressions n r.below operand) :
    ReadsExpressions n (some r) (chain (operator? r) operand) where
  sound := chain_sound reads
  complete := chain_complete reads

end

theorem expressionOver_reads {unary : Parser Expression} (reads : ReadsExpressions n none unary) :
    ReadsExpressions n (some .comparison) (expressionOver unary) :=
  have product : ReadsExpressions n (some .product) (chain productOperator? unary) :=
    chain_reads reads
  have sum : ReadsExpressions n (some .sum) (chain sumOperator? (chain productOperator? unary)) :=
    chain_reads product
  chain_reads sum

/-! ## Operands -/

section

variable {inner : Parser Expression}

/-- A name is a call or a key, as the token behind it says. -/
theorem named_eq (inner : Parser Expression) (next : Located) (ts : List Located) :
    (∃ pos tail, ts = ⟨.symbol .openParen, pos⟩ :: tail ∧
      named inner (next :: ts) =
        (do let (pos, n, args) ← call inner; return .call pos n args : Parser _) (next :: ts)) ∨
    NextIsNot (.symbol .openParen) ts ∧
      named inner (next :: ts) = (do return .key (← key) : Parser _) (next :: ts) := by
  obtain ⟨pos, tail, rfl⟩ | other := nextIs_or_nextIsNot (.symbol .openParen) ts
  · exact .inl ⟨pos, tail, rfl, rfl⟩
  · refine .inr ⟨other, ?_⟩
    rcases ts with _ | ⟨⟨token, pos⟩, ts⟩
    · rfl
    · cases token
      case symbol s =>
        cases s
        case openParen => exact absurd rfl (other _ rfl)
        all_goals rfl
      all_goals rfl

theorem named_sound (reads : ReadsExpressions n (some .comparison) inner) {next : Located}
    {e : Expression} (h : named inner (next :: ts) = .ok e rest) :
    ExpressionAt none (next :: ts) e rest ∧ e.nesting < n + 1 := by
  obtain ⟨_, _, _, same⟩ | ⟨_, same⟩ := named_eq inner next ts
  · rw [same] at h
    obtain ⟨⟨pos, f, args⟩, mid, read, h⟩ := bind_eq_ok.mp h
    obtain ⟨rfl, rfl⟩ := pure_eq_ok.mp h
    obtain ⟨called, shallow⟩ := (call_reads reads).sound read
    exact ⟨.call called, shallow⟩
  · rw [same] at h
    obtain ⟨k, mid, read, h⟩ := bind_eq_ok.mp h
    obtain ⟨rfl, rfl⟩ := pure_eq_ok.mp h
    exact ⟨.key (key_sound read), Nat.succ_pos n⟩

theorem primary_sound (reads : ReadsExpressions n (some .comparison) inner) {e : Expression}
    (h : primary inner ts = .ok e rest) : ExpressionAt none ts e rest ∧ e.nesting < n + 1 := by
  rcases ts with _ | ⟨⟨token, p⟩, ts⟩
  · cases h
  cases token
  case keyword k =>
    cases k
    case true =>
      cases h
      exact ⟨.constant (c := .bool true), Nat.succ_pos n⟩
    case false =>
      cases h
      exact ⟨.constant (c := .bool false), Nat.succ_pos n⟩
    all_goals cases h
  case symbol s =>
    cases s
    case openParen =>
      simp only [primary, peek_bind, List.head?_cons, advance_bind, List.tail_cons, bind_eq_ok,
        expect_eq_ok, pure_eq_ok] at h
      obtain ⟨e, _, read, _, _, ⟨q, rfl⟩, rfl, rfl⟩ := h
      obtain ⟨within, shallow⟩ := reads.sound read
      exact ⟨.parenthesized within, Nat.succ_lt_succ shallow⟩
    all_goals cases h
  case name f => exact named_sound reads h
  case integer i =>
    cases h
    exact ⟨.constant (c := .integer i), Nat.succ_pos n⟩
  case real x =>
    cases h
    exact ⟨.constant (c := .real x), Nat.succ_pos n⟩
  case string s =>
    cases h
    exact ⟨.constant (c := .string s), Nat.succ_pos n⟩
  case newline => cases h

theorem unaryOver_sound {operand : Parser Expression} (signed : ReadsExpressions n none operand)
    (reads : ReadsExpressions n (some .comparison) inner) {e : Expression}
    (h : unaryOver operand inner ts = .ok e rest) :
    ExpressionAt none ts e rest ∧ e.nesting < n + 1 := by
  rcases ts with _ | ⟨⟨token, pos⟩, ts⟩
  · cases h
  cases token
  case symbol s =>
    cases s
    case bang =>
      simp only [unaryOver, peek_bind, List.head?_cons, advance_bind, List.tail_cons, bind_eq_ok,
        pure_eq_ok] at h
      obtain ⟨e, _, read, rfl, rfl⟩ := h
      obtain ⟨within, shallow⟩ := signed.sound read
      exact ⟨.not within, Nat.succ_lt_succ shallow⟩
    case minus =>
      simp only [unaryOver, peek_bind, List.head?_cons, advance_bind, List.tail_cons, bind_eq_ok,
        pure_eq_ok] at h
      obtain ⟨e, _, read, rfl, rfl⟩ := h
      obtain ⟨within, shallow⟩ := signed.sound read
      exact ⟨.negate within, Nat.succ_lt_succ shallow⟩
    all_goals exact primary_sound reads h
  all_goals exact primary_sound reads h

theorem unaryOver_complete {operand : Parser Expression} (signed : ReadsExpressions n none operand)
    (reads : ReadsExpressions n (some .comparison) inner) {e : Expression}
    (h : ExpressionAt none ts e rest) (shallow : e.nesting < n + 1) (stops : Stops none rest) :
    unaryOver operand inner ts = .ok e rest := by
  cases h with
  | @constant c =>
    rcases c with (_ | _) | _ | _ | _ <;> rfl
  | key path =>
    have read := key_complete path stops.dot stops.openBracket
    obtain ⟨f, tail, rfl⟩ := path.start
    have other := path.nextIsNot_openParen stops.openParen
    obtain ⟨_, _, rfl, _⟩ | ⟨_, same⟩ := named_eq inner ⟨.name f, _⟩ tail
    · exact absurd rfl (other _ rfl)
    · exact same.trans (bind_eq_ok.mpr ⟨_, _, read, rfl⟩)
  | call called =>
    have read := (call_reads reads).complete called shallow
    cases called
    exact (bind_eq_ok (x := Parser.call inner)).mpr ⟨_, _, read, rfl⟩
  | parenthesized within =>
    have read := reads.complete within (Nat.lt_of_succ_lt_succ shallow) .closeParen
    exact (bind_eq_ok (x := inner)).mpr ⟨_, _, read, bind_eq_ok.mpr ⟨_, _, expect_cons, rfl⟩⟩
  | not within =>
    have read := signed.complete within (Nat.lt_of_succ_lt_succ shallow) stops
    exact (bind_eq_ok (x := operand)).mpr ⟨_, _, read, rfl⟩
  | negate within =>
    have read := signed.complete within (Nat.lt_of_succ_lt_succ shallow) stops
    exact (bind_eq_ok (x := operand)).mpr ⟨_, _, read, rfl⟩

theorem unaryOver_reads {operand : Parser Expression} (signed : ReadsExpressions n none operand)
    (reads : ReadsExpressions n (some .comparison) inner) :
    ReadsExpressions (n + 1) none (unaryOver operand inner) where
  sound := unaryOver_sound signed reads
  complete := unaryOver_complete signed reads

end

/-! ## Levels -/

theorem unary_reads : ∀ levels, ReadsExpressions (levels + 1) none (unary levels)
  | 0 => unaryOver_reads tooDeep_reads tooDeep_reads
  | levels + 1 =>
    unaryOver_reads (unary_reads levels) (expressionOver_reads (unary_reads levels))

theorem expression_reads (levels : Nat) :
    ReadsExpressions (levels + 1) (some .comparison) (expression levels) :=
  expressionOver_reads (unary_reads levels)

theorem callStatement_reads : ∀ levels, ReadsCalls (levels + 1) (callStatement levels)
  | 0 => call_reads tooDeep_reads
  | levels + 1 => call_reads (expression_reads levels)

end Pseudocode.Parser
