import Pseudocode.Proofs.Parsing.Statements

/-! # What was taken before a fault can be completed

Unless the limit of nesting is met, the tokens that a parser took before it failed are the first
tokens of something that the grammar has, and that is nested no deeper than the parser may read.

* `Viable G ts result`: of the tokens `ts`, a parser with this result took a `G`, or the first
  tokens of one.
* `Viable.bind` goes through a sequence. What a failed parser leaves open is completed, and so is
  what the parsers behind it were to read. That this can be is seen when they run without tokens.
* `repeatedly_viable` goes through a repetition.
* `statement_viable`, `program_viable`: statements and programs.

At the end of the tokens the end of a line is read where none is. It has to be written before
anything else can come, and that is why `Covers` lets tokens be missing there.
-/

namespace Pseudocode.Parser

open Grammar

variable {α β : Type} {ts mid rest s t : List Located}

/-! ## Tokens that were taken -/

/-- Between `ts` and `rest` stand the first tokens of `s`. -/
def Begins (s ts rest : List Located) : Prop := ∃ taken, ts = taken ++ rest ∧ taken <+: s

/-- Between `ts` and `rest` stands `s`, but for tokens that are missing where no more come. -/
def Covers (s ts rest : List Located) : Prop :=
  ∃ taken, ts = taken ++ rest ∧ taken <+: s ∧ (rest ≠ [] → taken = s)

theorem Begins.nil : Begins s ts ts := ⟨[], rfl, List.nil_prefix⟩

theorem Begins.cons {next : Located} (h : Begins s ts rest) :
    Begins (next :: s) (next :: ts) rest := by
  obtain ⟨taken, rfl, first⟩ := h
  exact ⟨next :: taken, rfl, (List.prefix_cons_inj next).mpr first⟩

theorem Begins.append (h : Begins s ts rest) : Begins (s ++ t) ts rest := by
  obtain ⟨taken, whole, first⟩ := h
  exact ⟨taken, whole, first.trans (List.prefix_append s t)⟩

theorem Covers.nil : Covers [] ts ts := ⟨[], rfl, List.nil_prefix, fun _ => rfl⟩

theorem Covers.cons {next : Located} (h : Covers s ts rest) :
    Covers (next :: s) (next :: ts) rest := by
  obtain ⟨taken, rfl, first, all⟩ := h
  exact ⟨next :: taken, rfl, (List.prefix_cons_inj next).mpr first, fun some => by rw [all some]⟩

theorem Covers.begins (h : Covers s ts rest) : Begins s ts rest := by
  obtain ⟨taken, whole, first, _⟩ := h
  exact ⟨taken, whole, first⟩

theorem Covers.begins_append (h : Covers s ts mid) (more : Begins t mid rest) :
    Begins (s ++ t) ts rest := by
  obtain ⟨taken, rfl, first, all⟩ := h
  obtain ⟨taken', rfl, first'⟩ := more
  by_cases nothing : taken' = []
  · subst nothing
    exact ⟨taken, rfl, first.trans (List.prefix_append s t)⟩
  · rw [all (by simp [nothing])]
    exact ⟨s ++ taken', (List.append_assoc ..).symm, (List.prefix_append_right_inj s).mpr first'⟩

theorem Covers.append (h : Covers s ts mid) (more : Covers t mid rest) :
    Covers (s ++ t) ts rest := by
  obtain ⟨taken, whole, first⟩ := h.begins_append more.begins
  refine ⟨taken, whole, first, fun some => ?_⟩
  obtain ⟨taken₁, rfl, _, all₁⟩ := h
  obtain ⟨taken₂, rfl, _, all₂⟩ := more
  have same : taken₁ ++ taken₂ = taken :=
    List.append_cancel_right ((List.append_assoc ..).trans whole)
  rw [← same, all₁ (by simp [some]), all₂ some]

/-! ## Results -/

/-- Of the tokens `ts`, a parser with this result took a `G`, or the first tokens of one unless it
    met the limit. -/
def Viable (G : List Located → α → Prop) (ts : List Located) :
    EStateM.Result ParseFault (List Located) α → Prop
  | .ok a rest => ∃ s, Covers s ts rest ∧ G s a
  | .error fault rest => fault ≠ .tooDeep → ∃ s a, Begins s ts rest ∧ G s a

/-- Without tokens, the parser does not meet the limit. -/
def Shallow (p : Parser α) : Prop := ∀ rest, p [] ≠ .error .tooDeep rest

theorem Shallow.pure (a : α) : Shallow (pure a : Parser α) := nofun

theorem Shallow.bind_of_ok {x : Parser α} {f : α → Parser β} {a : α} (read : x [] = .ok a [])
    (h : Shallow (f a)) : Shallow (x >>= f) := by
  intro rest
  rw [Parser.bind_of_ok read]
  exact h rest

theorem Shallow.bind_of_error {x : Parser α} {f : α → Parser β} {fault : ParseFault}
    (failed : x [] = .error fault []) (other : fault ≠ .tooDeep) : Shallow (x >>= f) := by
  intro rest
  rw [Parser.bind_of_error failed]
  intro same
  cases same
  exact other rfl

theorem Shallow.bind_of_expected {x : Parser α} {f : α → Parser β} {what : Expectation}
    (failed : x [] = .error (.expected what) []) : Shallow (x >>= f) := by
  apply Shallow.bind_of_error failed
  intro same
  cases same

theorem Shallow.expect (t : Token) {f : Unit → Parser α} : Shallow (expect t >>= f) :=
  have failed : Parser.expect t [] = .error (.expected (.token t)) [] := rfl
  .bind_of_expected failed

theorem Shallow.lineEnd {f : Unit → Parser α} (h : Shallow (f ())) : Shallow (lineEnd >>= f) :=
  .bind_of_ok (a := ()) rfl h

namespace Viable

variable {G G' : List Located → α → Prop} {H : List Located → β → Prop}

theorem imp {r : EStateM.Result ParseFault (List Located) α} (h : Viable G ts r)
    (weaker : ∀ s a, G s a → G' s a) : Viable G' ts r := by
  cases r with
  | ok a rest =>
    obtain ⟨s, covers, g⟩ := h
    exact ⟨s, covers, weaker s a g⟩
  | error fault rest =>
    intro other
    obtain ⟨s, a, begins, g⟩ := h other
    exact ⟨s, a, begins, weaker s a g⟩

theorem pure {a : α} (h : G [] a) : Viable G ts ((pure a : Parser α) ts) := ⟨[], .nil, h⟩

theorem expected {what : Expectation} {a : α} (h : G s a) :
    Viable G ts ((expected what : Parser α) ts) :=
  fun _ => ⟨s, a, .nil, h⟩

theorem tooDeep : Viable G ts ((tooDeep : Parser α) ts) := fun other => absurd rfl other

/-- What comes behind a token that was taken. -/
theorem cons {next : Located} {r : EStateM.Result ParseFault (List Located) α}
    (h : Viable (fun s a => G (next :: s) a) ts r) : Viable G (next :: ts) r := by
  cases r with
  | ok a rest =>
    obtain ⟨s, covers, g⟩ := h
    exact ⟨next :: s, covers.cons, g⟩
  | error fault rest =>
    intro other
    obtain ⟨s, a, begins, g⟩ := h other
    exact ⟨next :: s, a, begins.cons, g⟩

/-- What can be read without tokens can be written. -/
theorem exists_of_shallow {p : Parser α} (h : Viable G [] (p [])) (shallow : Shallow p) :
    ∃ s a, G s a := by
  cases result : p [] with
  | ok a rest =>
    rw [result] at h
    obtain ⟨s, _, g⟩ := h
    exact ⟨s, a, g⟩
  | error fault rest =>
    rw [result] at h
    have other : fault ≠ .tooDeep := by
      intro same
      subst same
      exact shallow rest result
    obtain ⟨s, a, _, g⟩ := h other
    exact ⟨s, a, g⟩

/-- A sequence of which the second part can be completed from nothing. -/
theorem bind_of_exists {x : Parser α} {f : α → Parser β} (first : Viable G ts (x ts))
    (second : ∀ s a, G s a → ∀ mid, Viable (fun t b => H (s ++ t) b) mid (f a mid))
    (possible : ∀ s a, G s a → ∃ t b, H (s ++ t) b) : Viable H ts ((x >>= f) ts) := by
  cases result : x ts with
  | error fault rest =>
    rw [bind_of_error result]
    rw [result] at first
    intro other
    obtain ⟨s, a, begins, g⟩ := first other
    obtain ⟨t, b, h⟩ := possible s a g
    exact ⟨s ++ t, b, begins.append, h⟩
  | ok a mid =>
    rw [bind_of_ok result]
    rw [result] at first
    obtain ⟨s, covers, g⟩ := first
    have behind := second s a g mid
    cases result' : f a mid with
    | ok b rest =>
      rw [result'] at behind
      obtain ⟨t, covers', h⟩ := behind
      exact ⟨s ++ t, covers.append covers', h⟩
    | error fault rest =>
      rw [result'] at behind
      intro other
      obtain ⟨t, b, begins, h⟩ := behind other
      exact ⟨s ++ t, b, covers.begins_append begins, h⟩

/-- A sequence of which the second part does not meet the limit at once. -/
theorem bind {x : Parser α} {f : α → Parser β} (first : Viable G ts (x ts))
    (second : ∀ s a, G s a → ∀ mid, Viable (fun t b => H (s ++ t) b) mid (f a mid))
    (shallow : ∀ a, Shallow (f a)) : Viable H ts ((x >>= f) ts) :=
  first.bind_of_exists second fun s a g => (second s a g []).exists_of_shallow (shallow a)

/-- What is made of a value. -/
theorem map {x : Parser α} {f : α → β} (h : Viable G ts (x ts))
    (made : ∀ s a, G s a → H s (f a)) : Viable H ts ((do return f (← x) : Parser β) ts) := by
  apply h.bind
  · intro s a g mid
    apply Viable.pure
    rw [List.append_nil]
    exact made s a g
  · exact fun a => .pure _

/-- What is read only if a token comes that announces it. -/
theorem announced {t : Token} {p : Parser (Option α)} {G : List Located → Option α → Prop}
    (yes : ∀ pos mid, Viable (fun s x => G (⟨t, pos⟩ :: s) x) mid (p mid)) (no : G [] none) :
    Viable G ts ((do if ← accept t then p else return none : Parser (Option α)) ts) := by
  obtain ⟨pos, tail, rfl⟩ | other := nextIs_or_nextIsNot t ts
  · rw [bind_of_ok (accept_eq_ok.mpr (.inl ⟨rfl, pos, rfl⟩))]
    exact (yes pos tail).cons
  · rw [bind_of_ok (accept_eq_ok.mpr (.inr ⟨rfl, rfl, other⟩))]
    exact .pure no

end Viable

/-- The tokens are what the step reads when it declines, or they go in front of a `G`. -/
def Adds (G : List Located → List α → Prop) (s : List Located) : Option α → Prop
  | none => G s []
  | some a => ∀ t as, G t as → G (s ++ t) (a :: as)

theorem repeatedly_viable {step : Parser (Option α)} {G : List Located → List α → Prop}
    (nil : G [] []) (next : ∀ ts, Viable (Adds G) ts (step ts)) :
    ∀ ts, Viable G ts (repeatedly step ts) := by
  intro ts
  fun_induction repeatedly step ts with
  | case1 ts fault rest failed =>
    have one := next ts
    rw [failed] at one
    intro other
    obtain ⟨s, x, begins, adds⟩ := one other
    cases x with
    | none => exact ⟨s, [], begins, adds⟩
    | some a => exact ⟨s ++ [], [a], begins.append, adds [] [] nil⟩
  | case2 ts rest done =>
    have one := next ts
    rw [done] at one
    exact one
  | case3 ts a mid first _ as rest more ih =>
    have one := next ts
    rw [first] at one
    rw [more] at ih
    obtain ⟨s, covers, adds⟩ := one
    obtain ⟨t, covers', g⟩ := ih
    exact ⟨s ++ t, covers.append covers', adds t as g⟩
  | case4 ts a mid first _ fault rest failed ih =>
    have one := next ts
    rw [first] at one
    rw [failed] at ih
    obtain ⟨s, covers, adds⟩ := one
    intro other
    obtain ⟨t, as, begins, g⟩ := ih other
    exact ⟨s ++ t, a :: as, covers.begins_append begins, adds t as g⟩
  | case5 ts a mid first =>
    have one := next ts
    rw [first] at one
    obtain ⟨s, covers, adds⟩ := one
    exact ⟨s ++ [], by rwa [List.append_nil], adds [] [] nil⟩

/-! ## Small parsers -/

theorem expect_viable (t : Token) :
    Viable (fun s _ => ∃ pos, s = [⟨t, pos⟩]) ts (expect t ts) := by
  obtain ⟨pos, tail, rfl⟩ | other := nextIs_or_nextIsNot t ts
  · rw [expect_cons]
    exact .cons (.pure ⟨pos, rfl⟩)
  · unfold expect
    rw [bind_of_ok (accept_eq_ok.mpr (.inr ⟨rfl, rfl, other⟩))]
    exact .expected (a := ()) ⟨.nowhere, rfl⟩

theorem lineEnd_viable : Viable (fun s _ => ∃ pos, s = [⟨.newline, pos⟩]) ts (lineEnd ts) := by
  rcases ts with _ | ⟨⟨token, pos⟩, ts⟩
  · exact ⟨_, ⟨[], rfl, List.nil_prefix, fun some => absurd rfl some⟩, .nowhere, rfl⟩
  · cases token
    case newline => exact .cons (.pure ⟨pos, rfl⟩)
    all_goals exact .expected (a := ()) ⟨.nowhere, rfl⟩

section

variable {G : List Located → α → Prop} {f : Unit → Parser α}

theorem Viable.expect {t : Token}
    (behind : ∀ pos mid, Viable (fun s a => G (⟨t, pos⟩ :: s) a) mid (f () mid))
    (shallow : Shallow (f ())) : Viable G ts ((expect t >>= f) ts) := by
  apply (expect_viable t).bind
  · intro s _ single mid
    obtain ⟨pos, rfl⟩ := single
    exact behind pos mid
  · exact fun _ => shallow

theorem Viable.lineEnd
    (behind : ∀ pos mid, Viable (fun s a => G (⟨.newline, pos⟩ :: s) a) mid (f () mid))
    (shallow : Shallow (f ())) : Viable G ts ((lineEnd >>= f) ts) := by
  apply lineEnd_viable.bind
  · intro s _ single mid
    obtain ⟨pos, rfl⟩ := single
    exact behind pos mid
  · exact fun _ => shallow

end

/-- The place is that of the name which the tokens start with, if they start with one. -/
def AtName (ts : List Located) (pos : Position) : Prop :=
  ∀ n p tail, ts = ⟨.name n, p⟩ :: tail → pos = p

theorem name_viable :
    Viable (fun s x => s = [⟨.name x.1, x.2⟩] ∧ AtName ts x.2) ts (name ts) := by
  rcases ts with _ | ⟨⟨token, pos⟩, ts⟩
  · exact .expected (a := ("", .nowhere)) ⟨rfl, nofun⟩
  · cases token
    case name n =>
      apply Viable.cons
      apply Viable.pure
      refine ⟨rfl, fun _ _ _ same => ?_⟩
      cases same
      rfl
    all_goals exact .expected (a := ("", .nowhere)) ⟨rfl, nofun⟩

theorem type_viable :
    Viable (fun s t => ∃ pos, s = [⟨DeclaredType.token t, pos⟩]) ts (type ts) := by
  have missing : ∃ pos, [⟨.keyword .int, .nowhere⟩] = [(⟨DeclaredType.int.token, pos⟩ : Located)] :=
    ⟨_, rfl⟩
  rcases ts with _ | ⟨⟨token, pos⟩, ts⟩
  · exact .expected missing
  · cases token
    case keyword k =>
      cases k
      case int => exact .cons (.pure ⟨pos, rfl⟩)
      case real => exact .cons (.pure ⟨pos, rfl⟩)
      case bool => exact .cons (.pure ⟨pos, rfl⟩)
      all_goals exact .expected missing
    case name n => exact .cons (.pure ⟨pos, rfl⟩)
    all_goals exact .expected missing

theorem newlines_viable :
    Viable (fun s _ => ∀ tail, NewlinesAt (s ++ tail) tail) ts (newlines ts) := by
  induction ts with
  | nil => exact .pure fun _ => .nil
  | cons next ts ih =>
    obtain ⟨token, pos⟩ := next
    by_cases same : token = .newline
    · subst same
      exact .cons (ih.imp fun _ _ h tail => .cons (h tail))
    · have none : newlines (⟨token, pos⟩ :: ts) = .ok () (⟨token, pos⟩ :: ts) := by
        simp [newlines, same]
      rw [none]
      exact .pure fun _ => .nil

/-! ## Keys -/

theorem index_viable : Viable (fun s i => ∀ tail, IndexAt (s ++ tail) i tail) ts (index ts) := by
  apply Viable.announced
  · intro pos mid
    rcases mid with _ | ⟨⟨token, q⟩, mid⟩
    · exact .expected (s := [⟨.integer 0, pos⟩, ⟨.symbol .closeBracket, pos⟩]) fun _ => .some
    · cases token
      case integer n =>
        apply Viable.cons
        exact .expect (fun r mid => .pure fun _ => .some) (.pure _)
      all_goals
        exact .expected (s := [⟨.integer 0, pos⟩, ⟨.symbol .closeBracket, pos⟩]) fun _ => .some
  · exact fun _ => .none

theorem keyPart_viable :
    Viable (fun s part => (∀ tail, PartAt (s ++ tail) part tail) ∧ AtName ts part.2) ts
      (keyPart ts) := by
  apply name_viable.bind
  · rintro _ ⟨n, pos⟩ ⟨rfl, atName⟩ mid
    exact index_viable.map fun s i index => ⟨fun tail => .part (index tail), atName⟩
  · exact fun _ => .bind_of_ok (a := none) rfl (.pure _)

theorem parts_viable : ∀ ts, Viable (fun s parts => ∀ tail, PartsAt (s ++ tail) parts tail) ts
    (repeatedly furtherPart ts) := by
  apply repeatedly_viable
  · exact fun _ => .nil
  · intro ts
    refine .announced (fun pos mid => ?_) fun _ => .nil
    apply keyPart_viable.map
    intro s part head t parts behind tail
    rw [List.cons_append, List.cons_append, List.append_assoc]
    exact .cons (head.1 _) (behind tail)

theorem key_viable :
    Viable (fun s k => (∀ tail, KeyAt (s ++ tail) k tail) ∧ AtName ts k.pos) ts (key ts) := by
  apply keyPart_viable.bind
  · intro s part first mid
    apply (parts_viable mid).map
    intro t parts more
    refine ⟨fun tail => ?_, first.2⟩
    rw [List.append_assoc]
    exact .key (first.1 _) (more tail)
  · exact fun _ => .bind_of_ok (repeatedly_nil rfl) (.pure _)

/-! ## Expressions -/

/-- The tokens are an expression of the level, whatever comes behind them. -/
def Spells (n : Nat) (level : Option Rank) (s : List Located) (e : Expression) : Prop :=
  (∀ tail, ExpressionAt level (s ++ tail) e tail) ∧ e.nesting < n

/-- The tokens are a call, whatever comes behind them. -/
def SpellsCall (n : Nat) (s : List Located) (c : Position × String × List Expression) : Prop :=
  (∀ tail, CallAt (s ++ tail) c tail) ∧ argumentNesting c.2.2 < n

variable {n : Nat}

section

variable {argument : Parser Expression}
  (viable : ∀ ts, Viable (Spells n (some .comparison)) ts (argument ts))

include viable

theorem further_viable : ∀ ts,
    Viable (fun s es => (∀ tail, FurtherAt (s ++ tail) es tail) ∧ argumentNesting es < n + 1) ts
      (repeatedly (furtherArgument argument) ts) := by
  apply repeatedly_viable
  · exact ⟨fun _ => .nil, Nat.succ_pos n⟩
  · intro ts
    refine .announced (fun pos mid => ?_) ⟨fun _ => .nil, Nat.succ_pos n⟩
    apply (viable mid).map
    intro s e spelled t es behind
    refine ⟨fun tail => ?_, Nat.max_lt.mpr ⟨Nat.succ_lt_succ spelled.2, behind.2⟩⟩
    rw [List.cons_append, List.cons_append, List.append_assoc]
    exact .cons (spelled.1 _) (behind.1 tail)

theorem arguments_viable :
    Viable (fun s es => (∀ tail, ArgumentsAt (s ++ tail) es tail) ∧ argumentNesting es < n + 1) ts
      (arguments argument ts) := by
  obtain ⟨q, tail, rfl⟩ | other := nextIs_or_nextIsNot (.symbol .closeParen) ts
  · exact .pure ⟨fun _ => .none, Nat.succ_pos n⟩
  · rw [arguments_of_nextIsNot other]
    apply (viable ts).bind
    · intro s e spelled mid
      apply (further_viable viable mid).map
      intro t es more
      refine ⟨fun tail => ?_, Nat.max_lt.mpr ⟨Nat.succ_lt_succ spelled.2, more.2⟩⟩
      rw [List.append_assoc]
      exact .some (spelled.1 _) (more.1 tail)
    · exact fun _ => .bind_of_ok (repeatedly_nil rfl) (.pure _)

/-- The arguments may lie too deep, but there need be none. -/
theorem call_viable : Viable (SpellsCall (n + 1)) ts (call argument ts) := by
  refine .bind name_viable ?_ fun _ => .expect _
  rintro _ ⟨f, pos⟩ ⟨rfl, _⟩ mid
  apply (expect_viable _).bind_of_exists
  · rintro _ _ ⟨p, rfl⟩ mid
    refine .bind (arguments_viable viable) ?_ fun _ => .expect _
    intro s es arguments mid
    refine .expect (fun q mid => .pure ⟨fun tail => ?_, arguments.2⟩) (.pure _)
    simp only [List.cons_append, List.nil_append, List.append_assoc]
    exact .call (arguments.1 _)
  · rintro _ _ ⟨p, rfl⟩
    exact ⟨[⟨.symbol .closeParen, p⟩], (pos, f, []), fun _ => .call .none, Nat.succ_pos n⟩

end

section

variable {r : Rank} {operand : Parser Expression}

/-- Behind any expression of the rank, the tokens go on with these links. -/
def SpellsLinks (n : Nat) (r : Rank) (s : List Located) (links : List Link) : Prop :=
  ∀ t first, Spells n (some r) t first → Spells n (some r) (t ++ s) (chainOf first links)

theorem Spells.binary {op : Operator} {pos : Position} {lhs rhs : Expression} (rank : op.rank = r)
    (left : Spells n (some r) s lhs) (right : Spells n r.below t rhs) :
    Spells n (some r) (s ++ ⟨.symbol op.symbol, pos⟩ :: t) (.binary op pos lhs rhs) := by
  refine ⟨fun tail => ?_, Nat.max_lt.mpr ⟨left.2, right.2⟩⟩
  rw [List.append_assoc]
  exact .binary rank (left.1 _) (right.1 tail)

theorem links_viable (viable : ∀ ts, Viable (Spells n r.below) ts (operand ts)) : ∀ ts,
    Viable (SpellsLinks n r) ts (repeatedly (link (operator? r) operand) ts) := by
  have none : SpellsLinks n r [] [] := fun t first spelled => by rwa [List.append_nil]
  refine repeatedly_viable none fun ts => ?_
  rcases ts with _ | ⟨⟨token, pos⟩, ts⟩
  · exact .pure none
  · simp only [link, peek_bind, List.head?_cons]
    cases found : operator? r token with
    | none => exact .pure none
    | some op =>
      obtain ⟨rfl, rank⟩ := operator?_eq_some.mp found
      apply Viable.cons
      apply (viable ts).map
      intro s rhs right t links behind u first left
      have longer : Spells n (some r) (u ++ ⟨.symbol op.symbol, pos⟩ :: s)
          (.binary op pos first rhs) := left.binary rank right
      have chained := behind _ _ longer
      rwa [List.append_assoc] at chained

theorem chain_viable (viable : ∀ ts, Viable (Spells n r.below) ts (operand ts)) :
    Viable (Spells n (some r)) ts (chain (operator? r) operand ts) := by
  apply (viable ts).bind
  · intro s first spelled mid
    apply (links_viable viable mid).map
    intro t links more
    exact more s first ⟨fun tail => .single (spelled.1 tail), spelled.2⟩
  · exact fun _ => .bind_of_ok (repeatedly_nil rfl) (.pure _)

theorem expressionOver_viable (viable : ∀ ts, Viable (Spells n none) ts (operand ts)) :
    Viable (Spells n (some .comparison)) ts (expressionOver operand ts) :=
  have product ts : Viable (Spells n (some .product)) ts (chain productOperator? operand ts) :=
    chain_viable viable
  have sum ts : Viable (Spells n (some .sum)) ts
      (chain sumOperator? (chain productOperator? operand) ts) := chain_viable product
  chain_viable sum

end

/-! ## Operands -/

section

variable {inner : Parser Expression}
  (within : ∀ ts, Viable (Spells n (some .comparison)) ts (inner ts))

include within

theorem named_viable {f : String} {pos : Position} :
    Viable (Spells (n + 1) none) (⟨.name f, pos⟩ :: ts) (named inner (⟨.name f, pos⟩ :: ts)) := by
  obtain ⟨_, _, _, same⟩ | ⟨_, same⟩ := named_eq inner ⟨.name f, pos⟩ ts
  · rw [same]
    apply (call_viable within).map
    intro s c called
    exact ⟨fun tail => .call (called.1 tail), called.2⟩
  · rw [same]
    apply key_viable.map
    intro s k path
    exact ⟨fun tail => .key (path.1 tail), Nat.succ_pos n⟩

theorem primary_viable : Viable (Spells (n + 1) none) ts (primary inner ts) := by
  have constant {c : Constant} {pos : Position} :
      Spells (n + 1) none [⟨c.token, pos⟩] (.constant c) := ⟨fun _ => .constant, Nat.succ_pos n⟩
  have missing : Spells (n + 1) none [⟨.integer 0, .nowhere⟩] (.constant (.integer 0)) :=
    constant (c := .integer 0)
  rcases ts with _ | ⟨⟨token, pos⟩, ts⟩
  · exact .expected missing
  cases token
  case keyword k =>
    cases k
    case true => exact .cons (.pure (constant (c := .bool true)))
    case false => exact .cons (.pure (constant (c := .bool false)))
    all_goals exact .expected missing
  case symbol s =>
    cases s
    case openParen =>
      refine .cons (.bind (within ts) ?_ fun _ => .expect _)
      intro s e spelled mid
      refine .expect (fun q mid => .pure ⟨fun tail => ?_, Nat.succ_lt_succ spelled.2⟩) (.pure _)
      simp only [List.cons_append, List.nil_append, List.append_assoc]
      exact .parenthesized (spelled.1 _)
    all_goals exact .expected missing
  case name f => exact named_viable within
  case integer i => exact .cons (.pure (constant (c := .integer i)))
  case real x => exact .cons (.pure (constant (c := .real x)))
  case string s => exact .cons (.pure (constant (c := .string s)))
  case newline => exact .expected missing

theorem unaryOver_viable {operand : Parser Expression}
    (signed : ∀ ts, Viable (Spells n none) ts (operand ts)) :
    Viable (Spells (n + 1) none) ts (unaryOver operand inner ts) := by
  rcases ts with _ | ⟨⟨token, pos⟩, ts⟩
  · exact primary_viable within
  cases token
  case symbol s =>
    cases s
    case bang =>
      apply Viable.cons
      apply (signed ts).map
      intro s e spelled
      exact ⟨fun tail => .not (spelled.1 tail), Nat.succ_lt_succ spelled.2⟩
    case minus =>
      apply Viable.cons
      apply (signed ts).map
      intro s e spelled
      exact ⟨fun tail => .negate (spelled.1 tail), Nat.succ_lt_succ spelled.2⟩
    all_goals exact primary_viable within
  all_goals exact primary_viable within

end

theorem unary_viable : ∀ levels ts, Viable (Spells (levels + 1) none) ts (unary levels ts)
  | 0, _ => unaryOver_viable (fun _ => .tooDeep) fun _ => .tooDeep
  | levels + 1, _ =>
    unaryOver_viable (fun _ => expressionOver_viable (unary_viable levels)) (unary_viable levels)

theorem expression_viable (levels : Nat) :
    Viable (Spells (levels + 1) (some .comparison)) ts (expression levels ts) :=
  expressionOver_viable (unary_viable levels)

theorem callStatement_viable :
    ∀ levels, Viable (SpellsCall (levels + 1)) ts (callStatement levels ts)
  | 0 => call_viable fun _ => .tooDeep
  | levels + 1 => call_viable fun _ => expression_viable levels

theorem expression_nil : ∀ levels, expression levels [] = .error (.expected .expression) []
  | 0 => rfl
  | _ + 1 => rfl

/-! ## Blocks -/

/-- The tokens are a statement, whatever comes behind them. -/
def SpellsStatement (n : Nat) (s : List Located) (st : Statement) : Prop :=
  (∀ tail, StatementAt (s ++ tail) st tail) ∧ st.nesting < n

/-- The tokens are statements in order, whatever comes behind them. -/
def SpellsBlock (n : Nat) (s : List Located) (b : List Statement) : Prop :=
  (∀ tail, BlockAt (s ++ tail) b tail) ∧ Program.nesting b < n + 1

theorem SpellsBlock.nil : SpellsBlock n [] [] := ⟨fun _ => .nil, Nat.succ_pos n⟩

section

variable {statement : Parser Statement} {pos : Position}
  (viable : ∀ ts, Viable (SpellsStatement (n + 1)) ts (statement ts))

include viable

/-- A statement goes in front of a block. -/
theorem adds_statement :
    Viable (Adds (SpellsBlock n)) ts ((do return some (← statement) : Parser _) ts) := by
  apply (viable ts).map
  intro s st spelled t b behind
  refine ⟨fun tail => ?_, Nat.max_lt.mpr ⟨spelled.2, behind.2⟩⟩
  rw [List.append_assoc]
  exact .cons (spelled.1 _) (behind.1 tail)

theorem block_viable (c : Construct) (closers : List Keyword) : ∀ ts,
    Viable (SpellsBlock n) ts (block statement c pos closers ts) := by
  refine repeatedly_viable .nil fun ts => ?_
  rcases ts with _ | ⟨next, ts⟩
  · exact fun _ => ⟨[], none, .nil, .nil⟩
  by_cases other : ∀ k ∈ closers, next.token ≠ .keyword k
  · rw [blockStep_of_ne other]
    exact adds_statement viable
  · obtain ⟨token, p⟩ := next
    obtain ⟨k, mem, same⟩ : ∃ k ∈ closers, token = .keyword k := by simpa using other
    subst same
    rw [blockStep_of_mem mem]
    exact ⟨[], .nil, .nil⟩

omit viable in
/-- Without tokens, a block is not closed. -/
theorem block_shallow {c : Construct} {closers : List Keyword} {f : List Statement → Parser α} :
    Shallow (block statement c pos closers >>= f) := by
  have failed : block statement c pos closers [] =
      .error (.unterminated c pos.line closers) [] := by
    rw [block, repeatedly]
    rfl
  apply Shallow.bind_of_error failed
  intro same
  cases same

theorem elseBranch_viable :
    Viable (fun s b => (∀ tail, ElseAt (s ++ tail) b tail) ∧ elseNesting b < n + 1) ts
      (elseBranch statement pos ts) := by
  apply Viable.announced
  · intro p mid
    refine .lineEnd (fun q mid => ?_) block_shallow
    apply (block_viable viable _ _ mid).map
    intro s b block
    exact ⟨fun tail => .some .newline (block.1 tail), block.2⟩
  · exact ⟨fun _ => .none, Nat.succ_pos n⟩

/-! ## Constructs -/

/-- Without tokens there are no newlines in front of THEN, and THEN is missed at once. -/
theorem construct_viable {expression : Parser Expression}
    (condition : ∀ ts, Viable (Spells (n + 1) (some .comparison)) ts (expression ts))
    (start : expression [] = .error (.expected .expression) []) (c : Construct) :
    Viable (SpellsStatement (n + 2)) (⟨.keyword c.keyword, pos⟩ :: ts)
      (construct expression statement pos c (⟨.keyword c.keyword, pos⟩ :: ts)) := by
  cases c with
  | «if» =>
    simp only [construct, Construct.keyword, bind_of_ok expect_cons]
    refine .cons (.bind (condition ts) ?_ fun _ => .bind_of_ok (a := ()) rfl (.expect _))
    intro s₁ e spelled mid
    refine .bind newlines_viable ?_ fun _ => .expect _
    intro s₂ _ breaks mid
    refine .expect (fun p mid => ?_) (.lineEnd block_shallow)
    refine .lineEnd (fun q mid => ?_) block_shallow
    refine .bind (block_viable viable _ _ mid) ?_ fun _ => .bind_of_ok (a := none) rfl (.expect _)
    intro s₃ b first mid
    refine .bind (elseBranch_viable viable) ?_ fun _ => .expect _
    intro s₄ b' second mid
    refine .expect (fun p' mid => ?_) (.lineEnd (.pure _))
    refine .lineEnd (fun q' mid => .pure ⟨fun tail => ?_, ?_⟩) (.pure _)
    · simp only [List.cons_append, List.nil_append, List.append_assoc]
      exact .ifElse (spelled.1 _) (breaks _) .newline (first.1 _) (second.1 _) .newline
    · have := spelled.2
      have := first.2
      have := second.2
      simp only [Statement.nesting]
      omega
  | «while» =>
    simp only [construct, Construct.keyword, bind_of_ok expect_cons]
    refine .cons (.bind (condition ts) ?_ fun _ => .expect _)
    intro s₁ e spelled mid
    refine .expect (fun p mid => ?_) (.lineEnd block_shallow)
    refine .lineEnd (fun q mid => ?_) block_shallow
    refine .bind (block_viable viable _ _ mid) ?_ fun _ => .expect _
    intro s₂ b body mid
    refine .expect (fun p' mid => ?_) (.lineEnd (.pure _))
    refine .lineEnd (fun q' mid => .pure ⟨fun tail => ?_, ?_⟩) (.pure _)
    · simp only [List.cons_append, List.nil_append, List.append_assoc]
      exact .while (spelled.1 _) .newline (body.1 _) .newline
    · have := spelled.2
      have := body.2
      simp only [Statement.nesting]
      omega
  | «repeat» =>
    simp only [construct, Construct.keyword, bind_of_ok expect_cons]
    refine .cons (.lineEnd (fun p mid => ?_) block_shallow)
    refine .bind (block_viable viable _ _ mid) ?_ fun _ => .expect _
    intro s₁ b body mid
    refine .expect (fun q mid => ?_) (.bind_of_expected start)
    refine .bind (condition mid) ?_ fun _ => .lineEnd (.pure _)
    intro s₂ e spelled mid
    refine .lineEnd (fun q' mid => .pure ⟨fun tail => ?_, ?_⟩) (.pure _)
    · simp only [List.cons_append, List.nil_append, List.append_assoc]
      exact .repeat .newline (body.1 _) (spelled.1 _) .newline
    · have := spelled.2
      have := body.2
      simp only [Statement.nesting]
      omega

end

/-! ## Lines -/

/-- The tokens are what stands on one line, whatever comes behind them. -/
def SpellsSimple (n : Nat) (s : List Located) (st : Statement) : Prop :=
  (∀ tail, SimpleAt (s ++ tail) st tail) ∧ st.nesting < n

theorem line_viable {p : Parser Statement} (viable : Viable (SpellsSimple n) ts (p ts)) :
    Viable (SpellsStatement n) ts (line p ts) := by
  refine viable.bind ?_ fun _ => .lineEnd (.pure _)
  intro s st simple mid
  refine .lineEnd (fun p mid => .pure ⟨fun tail => ?_, simple.2⟩) (.pure _)
  rw [List.append_assoc]
  exact .line (simple.1 _) .newline

theorem declaration_viable {pos : Position} :
    Viable (fun s st => SpellsSimple (n + 1) (⟨.keyword .declare, pos⟩ :: s) st) ts
      (declaration pos ts) := by
  refine .bind name_viable ?_ fun _ => .expect _
  rintro _ ⟨f, p⟩ ⟨rfl, _⟩ mid
  apply Viable.expect
  · intro q mid
    apply type_viable.map
    rintro _ t ⟨r, rfl⟩
    exact ⟨fun _ => .declare, Nat.succ_pos n⟩
  · have failed : type [] = .error (.expected .type) [] := rfl
    exact .bind_of_expected failed

section

variable {expression : Parser Expression} {call : Parser (Position × String × List Expression)}
  (value : ∀ ts, Viable (Spells (n + 1) (some .comparison)) ts (expression ts))

include value

theorem assignment_viable {f : String} {pos : Position}
    (start : expression [] = .error (.expected .expression) []) :
    Viable (SpellsSimple (n + 1)) (⟨.name f, pos⟩ :: ts)
      (assignment expression pos (⟨.name f, pos⟩ :: ts)) := by
  refine .bind key_viable ?_ fun _ => .expect _
  intro s k target mid
  have place : k.pos = pos := target.2 f pos ts rfl
  refine .expect (fun q mid => ?_) (.bind_of_expected start)
  apply (value mid).map
  intro t e spelled
  refine ⟨fun tail => ?_, spelled.2⟩
  rw [List.append_assoc]
  exact place ▸ .assign (target.1 _) (spelled.1 tail)

theorem simple_viable {k : Keyword} {pos : Position}
    (called : ∀ ts, Viable (SpellsCall (n + 1)) ts (call ts)) :
    Viable (SpellsSimple (n + 1)) (⟨.keyword k, pos⟩ :: ts)
      (simple expression call pos k (⟨.keyword k, pos⟩ :: ts)) := by
  cases k
  case output =>
    apply Viable.cons
    apply (value ts).map
    intro s e spelled
    exact ⟨fun tail => .output (spelled.1 tail), spelled.2⟩
  case input =>
    apply Viable.cons
    apply key_viable.map
    intro s k target
    exact ⟨fun tail => .input (target.1 tail), Nat.succ_pos n⟩
  case call =>
    apply Viable.cons
    apply (called ts).map
    intro s c called
    exact ⟨fun tail => .call (called.1 tail), called.2⟩
  case printInt =>
    apply Viable.cons
    apply (value ts).map
    intro s e spelled
    exact ⟨fun tail => .printInt (spelled.1 tail), spelled.2⟩
  case printReal =>
    apply Viable.cons
    apply (value ts).map
    intro s e spelled
    exact ⟨fun tail => .printReal (spelled.1 tail), spelled.2⟩
  case declare => exact .cons declaration_viable
  all_goals
    refine .expected (s := [⟨.keyword .declare, pos⟩, ⟨.name "", pos⟩, ⟨.symbol .colon, pos⟩,
      ⟨DeclaredType.int.token, pos⟩]) (a := .declare pos "" .int) ?_
    exact ⟨fun _ => .declare, Nat.succ_pos n⟩

/-! ## Statements -/

theorem statementOver_viable {constructs : Position → Construct → Parser Statement}
    (start : expression [] = .error (.expected .expression) [])
    (called : ∀ ts, Viable (SpellsCall (n + 1)) ts (call ts))
    (nested : ∀ pos c ts, Viable (SpellsStatement (n + 1)) (⟨.keyword c.keyword, pos⟩ :: ts)
      (constructs pos c (⟨.keyword c.keyword, pos⟩ :: ts))) :
    Viable (SpellsStatement (n + 1)) ts (statementOver expression call constructs ts) := by
  have missing : SpellsStatement (n + 1) [⟨.newline, .nowhere⟩] (.empty .nowhere) :=
    ⟨fun _ => .empty, Nat.succ_pos n⟩
  rcases ts with _ | ⟨⟨token, pos⟩, ts⟩
  · exact .expected missing
  cases token
  case newline => exact .cons (.pure ⟨fun _ => .empty, Nat.succ_pos n⟩)
  case keyword k =>
    cases k
    case «if» => exact nested pos .if ts
    case «while» => exact nested pos .while ts
    case «repeat» => exact nested pos .repeat ts
    all_goals exact line_viable (simple_viable value called)
  case name f => exact line_viable (assignment_viable value start)
  all_goals exact .expected missing

end

theorem statement_viable : ∀ levels ts,
    Viable (SpellsStatement (levels + 1)) ts (statement levels ts)
  | 0, _ =>
    statementOver_viable (fun _ => expression_viable 0) (expression_nil 0)
      (fun _ => callStatement_viable 0) fun _ _ _ => .tooDeep
  | levels + 1, _ =>
    statementOver_viable (fun _ => expression_viable (levels + 1)) (expression_nil (levels + 1))
      (fun _ => callStatement_viable (levels + 1)) fun _ c _ =>
        construct_viable (statement_viable levels) (fun _ => expression_viable levels)
          (expression_nil levels) c

/-- What a program took before it failed is the beginning of another program. -/
theorem program_viable : ∀ ts, Viable (SpellsBlock nestingLimit) ts (program ts) := by
  refine repeatedly_viable .nil fun ts => ?_
  rcases ts with _ | ⟨next, ts⟩
  · exact .pure .nil
  · exact adds_statement (statement_viable nestingLimit)

end Pseudocode.Parser
