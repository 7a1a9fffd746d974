import Pseudocode.Program
import Pseudocode.Token

/-! # The grammar

What the tokens of a program may be, said by rules and without a parser. In each
relation the first list is where a construct starts and the last is what remains
behind it. A rule looks at no token but those of the construct, and none of them sets
a bound on how deep constructs may lie in each other.

* `ExpressionAt`: an expression of a level. The level `some r` is that of chains of
  operators of the rank `r`; `none` is that of an operand.
* `StatementAt`, `BlockAt`: a statement, and statements in order.
* `Derives`: a whole list of tokens is a program.
* `Program.nesting`: how deep constructs lie in each other in a program.

The rules fix all places in the tree. The place of a construct is that of its first
token, but that of an operator is where its symbol stands, and that of a call is where
its name does.
-/

namespace Pseudocode

/-! ## Words -/

def Operator.symbol : Operator → Symbol
  | .compare .eq => .equal
  | .compare .ne => .unequal
  | .compare .lt => .less
  | .compare .gt => .greater
  | .compare .le => .atMost
  | .compare .ge => .atLeast
  | .arithmetic .add => .plus
  | .arithmetic .sub => .minus
  | .arithmetic .mul => .star
  | .arithmetic .div => .slash

/-- The level of the operands to the right of operators of the rank. -/
def Rank.below : Rank → Option Rank
  | .product => none
  | .sum => some .product
  | .comparison => some .sum

def Constant.token : Constant → Token
  | .bool true => .keyword .true
  | .bool false => .keyword .false
  | .string s => .string s
  | .real x => .real x
  | .integer n => .integer n

def DeclaredType.token : DeclaredType → Token
  | .int => .keyword .int
  | .real => .keyword .real
  | .bool => .keyword .bool
  | .custom n => .name n

namespace Grammar

/-! ## Keys -/

/-- An index in brackets, or nothing. -/
inductive IndexAt : List Located → Option Int32 → List Located → Prop where
  | none {ts : List Located} : IndexAt ts none ts
  | some {n : Int32} {p q r : Position} {ts : List Located} :
      IndexAt (⟨.symbol .openBracket, p⟩ :: ⟨.integer n, q⟩ :: ⟨.symbol .closeBracket, r⟩ :: ts)
        (some n) ts

/-- A step of a path, with its place. -/
inductive PartAt : List Located → KeyPart × Position → List Located → Prop where
  | part {n : String} {pos : Position} {i : Option Int32} {ts rest : List Located}
      (index : IndexAt ts i rest) : PartAt (⟨.name n, pos⟩ :: ts) (⟨n, i⟩, pos) rest

/-- Further steps of a path, each behind a dot. -/
inductive PartsAt : List Located → List KeyPart → List Located → Prop where
  | nil {ts : List Located} : PartsAt ts [] ts
  | cons {p q : Position} {part : KeyPart} {parts : List KeyPart} {ts mid rest : List Located}
      (head : PartAt ts (part, q) mid) (tail : PartsAt mid parts rest) :
      PartsAt (⟨.symbol .dot, p⟩ :: ts) (part :: parts) rest

/-- A path. -/
inductive KeyAt : List Located → Key → List Located → Prop where
  | key {pos : Position} {part : KeyPart} {parts : List KeyPart} {ts mid rest : List Located}
      (first : PartAt ts (part, pos) mid) (more : PartsAt mid parts rest) :
      KeyAt ts ⟨pos, part :: parts⟩ rest

/-! ## Expressions -/

mutual

/-- An expression of the level. A chain of operators leans left: what stands to the left
    of an operator may itself be a chain of its rank. -/
inductive ExpressionAt : Option Rank → List Located → Expression → List Located → Prop where
  | constant {c : Constant} {p : Position} {rest : List Located} :
      ExpressionAt none (⟨c.token, p⟩ :: rest) (.constant c) rest
  | key {k : Key} {ts rest : List Located} (path : KeyAt ts k rest) :
      ExpressionAt none ts (.key k) rest
  | call {pos : Position} {n : String} {args : List Expression} {ts rest : List Located}
      (called : CallAt ts (pos, n, args) rest) : ExpressionAt none ts (.call pos n args) rest
  | parenthesized {p q : Position} {e : Expression} {ts rest : List Located}
      (inner : ExpressionAt (some .comparison) ts e (⟨.symbol .closeParen, q⟩ :: rest)) :
      ExpressionAt none (⟨.symbol .openParen, p⟩ :: ts) (.parenthesized e) rest
  | not {pos : Position} {e : Expression} {ts rest : List Located}
      (operand : ExpressionAt none ts e rest) :
      ExpressionAt none (⟨.symbol .bang, pos⟩ :: ts) (.not pos e) rest
  | negate {pos : Position} {e : Expression} {ts rest : List Located}
      (operand : ExpressionAt none ts e rest) :
      ExpressionAt none (⟨.symbol .minus, pos⟩ :: ts) (.negate pos e) rest
  | single {r : Rank} {e : Expression} {ts rest : List Located}
      (operand : ExpressionAt r.below ts e rest) : ExpressionAt (some r) ts e rest
  | binary {r : Rank} {op : Operator} {pos : Position} {lhs rhs : Expression}
      {ts mid rest : List Located} (rank : op.rank = r)
      (left : ExpressionAt (some r) ts lhs (⟨.symbol op.symbol, pos⟩ :: mid))
      (right : ExpressionAt r.below mid rhs rest) :
      ExpressionAt (some r) ts (.binary op pos lhs rhs) rest

/-- A call: the place and the name of the function, and the arguments. -/
inductive CallAt : List Located → Position × String × List Expression → List Located → Prop where
  | call {pos p q : Position} {n : String} {args : List Expression} {ts rest : List Located}
      (arguments : ArgumentsAt ts args (⟨.symbol .closeParen, q⟩ :: rest)) :
      CallAt (⟨.name n, pos⟩ :: ⟨.symbol .openParen, p⟩ :: ts) (pos, n, args) rest

/-- Arguments with commas between them, or nothing. -/
inductive ArgumentsAt : List Located → List Expression → List Located → Prop where
  | none {ts : List Located} : ArgumentsAt ts [] ts
  | some {e : Expression} {es : List Expression} {ts mid rest : List Located}
      (first : ExpressionAt (some .comparison) ts e mid) (more : FurtherAt mid es rest) :
      ArgumentsAt ts (e :: es) rest

/-- Further arguments, each behind a comma. -/
inductive FurtherAt : List Located → List Expression → List Located → Prop where
  | nil {ts : List Located} : FurtherAt ts [] ts
  | cons {p : Position} {e : Expression} {es : List Expression} {ts mid rest : List Located}
      (head : ExpressionAt (some .comparison) ts e mid) (tail : FurtherAt mid es rest) :
      FurtherAt (⟨.symbol .comma, p⟩ :: ts) (e :: es) rest

end

/-! ## Statements -/

/-- The end of a line: a newline or the end of the tokens. -/
inductive LineEndAt : List Located → List Located → Prop where
  | newline {p : Position} {rest : List Located} : LineEndAt (⟨.newline, p⟩ :: rest) rest
  | finish : LineEndAt [] []

/-- Newlines, or nothing. -/
inductive NewlinesAt : List Located → List Located → Prop where
  | nil {ts : List Located} : NewlinesAt ts ts
  | cons {p : Position} {ts rest : List Located} (tail : NewlinesAt ts rest) :
      NewlinesAt (⟨.newline, p⟩ :: ts) rest

/-- What stands on one line. -/
inductive SimpleAt : List Located → Statement → List Located → Prop where
  | output {pos : Position} {e : Expression} {ts rest : List Located}
      (value : ExpressionAt (some .comparison) ts e rest) :
      SimpleAt (⟨.keyword .output, pos⟩ :: ts) (.output pos e) rest
  | input {pos : Position} {k : Key} {ts rest : List Located} (target : KeyAt ts k rest) :
      SimpleAt (⟨.keyword .input, pos⟩ :: ts) (.input pos k) rest
  | declare {pos p q r : Position} {n : String} {t : DeclaredType} {rest : List Located} :
      SimpleAt
        (⟨.keyword .declare, pos⟩ :: ⟨.name n, p⟩ :: ⟨.symbol .colon, q⟩ :: ⟨t.token, r⟩ :: rest)
        (.declare pos n t) rest
  | call {pos callPos : Position} {n : String} {args : List Expression} {ts rest : List Located}
      (called : CallAt ts (callPos, n, args) rest) :
      SimpleAt (⟨.keyword .call, pos⟩ :: ts) (.call pos callPos n args) rest
  | printInt {pos : Position} {e : Expression} {ts rest : List Located}
      (value : ExpressionAt (some .comparison) ts e rest) :
      SimpleAt (⟨.keyword .printInt, pos⟩ :: ts) (.printInt pos e) rest
  | printReal {pos : Position} {e : Expression} {ts rest : List Located}
      (value : ExpressionAt (some .comparison) ts e rest) :
      SimpleAt (⟨.keyword .printReal, pos⟩ :: ts) (.printReal pos e) rest
  | assign {p : Position} {k : Key} {e : Expression} {ts mid rest : List Located}
      (target : KeyAt ts k (⟨.symbol .arrow, p⟩ :: mid))
      (value : ExpressionAt (some .comparison) mid e rest) :
      SimpleAt ts (.assign k.pos k e) rest

mutual

/-- A statement, with the end of its last line. -/
inductive StatementAt : List Located → Statement → List Located → Prop where
  | empty {pos : Position} {rest : List Located} :
      StatementAt (⟨.newline, pos⟩ :: rest) (.empty pos) rest
  | line {s : Statement} {ts mid rest : List Located} (simple : SimpleAt ts s mid)
      (lineEnd : LineEndAt mid rest) : StatementAt ts s rest
  | ifElse {pos p q : Position} {e : Expression} {thenBranch : List Statement}
      {elseBranch : Option (List Statement)} {ts ts₁ ts₂ ts₃ ts₄ ts₅ rest : List Located}
      (condition : ExpressionAt (some .comparison) ts e ts₁)
      (newlines : NewlinesAt ts₁ (⟨.keyword .then, p⟩ :: ts₂)) (thenEnd : LineEndAt ts₂ ts₃)
      (first : BlockAt ts₃ thenBranch ts₄)
      (second : ElseAt ts₄ elseBranch (⟨.keyword .endIf, q⟩ :: ts₅)) (lineEnd : LineEndAt ts₅ rest) :
      StatementAt (⟨.keyword .if, pos⟩ :: ts) (.ifElse pos e thenBranch elseBranch) rest
  | while {pos p q : Position} {e : Expression} {body : List Statement}
      {ts ts₁ ts₂ ts₃ rest : List Located}
      (condition : ExpressionAt (some .comparison) ts e (⟨.keyword .do, p⟩ :: ts₁))
      (doEnd : LineEndAt ts₁ ts₂) (block : BlockAt ts₂ body (⟨.keyword .endWhile, q⟩ :: ts₃))
      (lineEnd : LineEndAt ts₃ rest) :
      StatementAt (⟨.keyword .while, pos⟩ :: ts) (.while pos e body) rest
  | repeat {pos p : Position} {e : Expression} {body : List Statement}
      {ts ts₁ ts₂ ts₃ rest : List Located} (repeatEnd : LineEndAt ts ts₁)
      (block : BlockAt ts₁ body (⟨.keyword .until, p⟩ :: ts₂))
      (condition : ExpressionAt (some .comparison) ts₂ e ts₃) (lineEnd : LineEndAt ts₃ rest) :
      StatementAt (⟨.keyword .repeat, pos⟩ :: ts) (.repeat pos body e) rest

/-- The other branch of an IF, or nothing. -/
inductive ElseAt : List Located → Option (List Statement) → List Located → Prop where
  | none {ts : List Located} : ElseAt ts none ts
  | some {p : Position} {b : List Statement} {ts mid rest : List Located}
      (elseEnd : LineEndAt ts mid) (block : BlockAt mid b rest) :
      ElseAt (⟨.keyword .else, p⟩ :: ts) (some b) rest

/-- Statements in order. -/
inductive BlockAt : List Located → List Statement → List Located → Prop where
  | nil {ts : List Located} : BlockAt ts [] ts
  | cons {s : Statement} {b : List Statement} {ts mid rest : List Located}
      (head : StatementAt ts s mid) (tail : BlockAt mid b rest) : BlockAt ts (s :: b) rest

end

/-- The tokens are the program. -/
def Derives (ts : List Located) (p : Program) : Prop := BlockAt ts p []

/-! ## Progress -/

theorem IndexAt.length_le {ts rest : List Located} {i : Option Int32} (h : IndexAt ts i rest) :
    rest.length ≤ ts.length := by
  cases h with
  | none => exact Nat.le_refl _
  | some => simp only [List.length_cons]; omega

theorem PartAt.length_lt {ts rest : List Located} {part : KeyPart × Position}
    (h : PartAt ts part rest) : rest.length < ts.length := by
  cases h with
  | part index => exact Nat.lt_succ_of_le index.length_le

theorem PartsAt.length_le {ts rest : List Located} {parts : List KeyPart}
    (h : PartsAt ts parts rest) : rest.length ≤ ts.length := by
  induction h with
  | nil => exact Nat.le_refl _
  | cons head _ ih =>
    have shorter := head.length_lt
    simp only [List.length_cons]
    omega

theorem KeyAt.length_lt {ts rest : List Located} {k : Key} (h : KeyAt ts k rest) :
    rest.length < ts.length := by
  cases h with
  | key first more => exact Nat.lt_of_le_of_lt more.length_le first.length_lt

mutual

theorem ExpressionAt.length_lt {level : Option Rank} {ts rest : List Located} {e : Expression} :
    ExpressionAt level ts e rest → rest.length < ts.length
  | .constant => Nat.lt_succ_self _
  | .key path => path.length_lt
  | .call called => called.length_lt
  | .parenthesized inner => by
    have shorter := inner.length_lt
    simp only [List.length_cons] at shorter ⊢
    omega
  | .not operand => Nat.lt_succ_of_lt operand.length_lt
  | .negate operand => Nat.lt_succ_of_lt operand.length_lt
  | .single operand => operand.length_lt
  | .binary _ left right => by
    have leftShorter := left.length_lt
    have rightShorter := right.length_lt
    simp only [List.length_cons] at leftShorter
    omega

theorem CallAt.length_lt {ts rest : List Located} {c : Position × String × List Expression} :
    CallAt ts c rest → rest.length < ts.length
  | .call arguments => by
    have shorter := arguments.length_le
    simp only [List.length_cons] at shorter ⊢
    omega

theorem ArgumentsAt.length_le {ts rest : List Located} {es : List Expression} :
    ArgumentsAt ts es rest → rest.length ≤ ts.length
  | .none => Nat.le_refl _
  | .some first more => Nat.le_trans more.length_le (Nat.le_of_lt first.length_lt)

theorem FurtherAt.length_le {ts rest : List Located} {es : List Expression} :
    FurtherAt ts es rest → rest.length ≤ ts.length
  | .nil => Nat.le_refl _
  | .cons head tail =>
    Nat.le_succ_of_le (Nat.le_trans tail.length_le (Nat.le_of_lt head.length_lt))

end

theorem LineEndAt.length_le {ts rest : List Located} (h : LineEndAt ts rest) :
    rest.length ≤ ts.length := by
  cases h with
  | newline => exact Nat.le_succ _
  | finish => exact Nat.le_refl _

theorem NewlinesAt.length_le {ts rest : List Located} (h : NewlinesAt ts rest) :
    rest.length ≤ ts.length := by
  induction h with
  | nil => exact Nat.le_refl _
  | cons _ ih => exact Nat.le_succ_of_le ih

theorem SimpleAt.length_lt {ts rest : List Located} {s : Statement} (h : SimpleAt ts s rest) :
    rest.length < ts.length := by
  cases h with
  | output value => exact Nat.lt_succ_of_lt value.length_lt
  | input target => exact Nat.lt_succ_of_lt target.length_lt
  | declare => simp only [List.length_cons]; omega
  | call called => exact Nat.lt_succ_of_lt called.length_lt
  | printInt value => exact Nat.lt_succ_of_lt value.length_lt
  | printReal value => exact Nat.lt_succ_of_lt value.length_lt
  | assign target value =>
    have targetShorter := target.length_lt
    have valueShorter := value.length_lt
    simp only [List.length_cons] at targetShorter
    omega

mutual

theorem StatementAt.length_lt {ts rest : List Located} {s : Statement} :
    StatementAt ts s rest → rest.length < ts.length
  | .empty => Nat.lt_succ_self _
  | .line simple lineEnd => Nat.lt_of_le_of_lt lineEnd.length_le simple.length_lt
  | .ifElse condition newlines thenEnd first second lineEnd => by
    have := condition.length_lt
    have := newlines.length_le
    have := thenEnd.length_le
    have := first.length_le
    have := second.length_le
    have := lineEnd.length_le
    simp only [List.length_cons] at *
    omega
  | .while condition doEnd block lineEnd => by
    have := condition.length_lt
    have := doEnd.length_le
    have := block.length_le
    have := lineEnd.length_le
    simp only [List.length_cons] at *
    omega
  | .repeat repeatEnd block condition lineEnd => by
    have := repeatEnd.length_le
    have := block.length_le
    have := condition.length_lt
    have := lineEnd.length_le
    simp only [List.length_cons] at *
    omega

theorem ElseAt.length_le {ts rest : List Located} {b : Option (List Statement)} :
    ElseAt ts b rest → rest.length ≤ ts.length
  | .none => Nat.le_refl _
  | .some elseEnd block => Nat.le_succ_of_le (Nat.le_trans block.length_le elseEnd.length_le)

theorem BlockAt.length_le {ts rest : List Located} {b : List Statement} :
    BlockAt ts b rest → rest.length ≤ ts.length
  | .nil => Nat.le_refl _
  | .cons head tail => Nat.le_trans tail.length_le (Nat.le_of_lt head.length_lt)

end

/-! ## The first token -/

/-- The next token, if there is one, is not this one. -/
def NextIsNot (t : Token) (ts : List Located) : Prop := ∀ next ∈ ts.head?, next.token ≠ t

theorem nextIs_or_nextIsNot (t : Token) (ts : List Located) :
    (∃ pos tail, ts = ⟨t, pos⟩ :: tail) ∨ NextIsNot t ts := by
  rcases ts with _ | ⟨⟨token, pos⟩, ts⟩
  · exact .inr nofun
  · by_cases same : token = t
    · exact .inl ⟨pos, ts, by rw [same]⟩
    · refine .inr ?_
      rintro _ ⟨⟩
      exact same

/-- Behind a step of a path comes a dot or what is behind the path. -/
theorem PartsAt.nextIsNot {t : Token} {ts rest : List Located} {parts : List KeyPart}
    (h : PartsAt ts parts rest) (other : t ≠ .symbol .dot) (stop : NextIsNot t rest) : NextIsNot t ts := by
  cases h with
  | nil => exact stop
  | cons =>
    rintro _ ⟨⟩
    exact other.symm

/-- A key starts with a name, at the place of the key. -/
theorem KeyAt.start {ts rest : List Located} {k : Key} (h : KeyAt ts k rest) :
    ∃ n tail, ts = ⟨.name n, k.pos⟩ :: tail := by
  cases h with
  | key first _ =>
    cases first
    exact ⟨_, _, rfl⟩

/-- No parenthesis comes behind the first name of a key if none comes behind the key. -/
theorem KeyAt.nextIsNot_openParen {next : Located} {ts rest : List Located} {k : Key}
    (h : KeyAt (next :: ts) k rest) (stop : NextIsNot (.symbol .openParen) rest) :
    NextIsNot (.symbol .openParen) ts := by
  cases h with
  | key first more =>
    cases first with
    | part index =>
      cases index with
      | none => exact more.nextIsNot nofun stop
      | some =>
        rintro _ ⟨⟩
        nofun

/-- No expression starts with a parenthesis that closes. -/
theorem ExpressionAt.nextIsNot_closeParen {level : Option Rank} {ts rest : List Located}
    {e : Expression} : ExpressionAt level ts e rest → NextIsNot (.symbol .closeParen) ts
  | .constant (c := c) => by
    rintro _ ⟨⟩
    rcases c with (_ | _) | _ | _ | _ <;> nofun
  | .key (.key (.part _) _) => by rintro _ ⟨⟩; nofun
  | .call (.call _) => by rintro _ ⟨⟩; nofun
  | .parenthesized _ => by rintro _ ⟨⟩; nofun
  | .not _ => by rintro _ ⟨⟩; nofun
  | .negate _ => by rintro _ ⟨⟩; nofun
  | .single operand => operand.nextIsNot_closeParen
  | .binary _ left _ => left.nextIsNot_closeParen

/-- Behind the first branch of an IF comes a keyword that closes it. -/
theorem ElseAt.start {ts rest : List Located} {b : Option (List Statement)} {p : Position}
    (h : ElseAt ts b (⟨.keyword .endIf, p⟩ :: rest)) :
    ∃ k q tail, ts = ⟨.keyword k, q⟩ :: tail ∧ k ∈ [Keyword.else, Keyword.endIf] := by
  cases h with
  | none => exact ⟨.endIf, p, rest, rfl, by decide⟩
  | some => exact ⟨.else, _, _, rfl, by decide⟩

/-- The keywords that close a block. -/
def closing : List Keyword := [.else, .endIf, .endWhile, .until]

/-- No statement starts with a keyword that closes a block. -/
theorem StatementAt.start {ts rest : List Located} {s : Statement} (h : StatementAt ts s rest) :
    ∃ next ∈ ts.head?, ∀ k ∈ closing, next.token ≠ .keyword k := by
  cases h with
  | line simple _ =>
    cases simple with
    | assign target _ =>
      obtain ⟨_, _, rfl⟩ := target.start
      exact ⟨_, rfl, fun _ _ => nofun⟩
    | _ => exact ⟨_, rfl, by simp [closing]⟩
  | _ => exact ⟨_, rfl, by simp [closing]⟩

end Grammar

/-! ## Depth -/

mutual

/-- How many parentheses, argument lists and signs lie in each other. -/
def Expression.nesting : Expression → Nat
  | .constant _ => 0
  | .key _ => 0
  | .call _ _ args => argumentNesting args
  | .parenthesized e => e.nesting + 1
  | .not _ e => e.nesting + 1
  | .negate _ e => e.nesting + 1
  | .binary _ _ lhs rhs => max lhs.nesting rhs.nesting

def argumentNesting : List Expression → Nat
  | [] => 0
  | e :: es => max (e.nesting + 1) (argumentNesting es)

end

mutual

/-- How many IFs, WHILEs and REPEATs, and then levels of an expression, lie in each other. -/
def Statement.nesting : Statement → Nat
  | .output _ e => e.nesting
  | .input _ _ => 0
  | .declare _ _ _ => 0
  | .assign _ _ e => e.nesting
  | .printInt _ e => e.nesting
  | .printReal _ e => e.nesting
  | .ifElse _ e thenBranch elseBranch =>
    max e.nesting (max (Program.nesting thenBranch) (elseNesting elseBranch)) + 1
  | .while _ e body => max e.nesting (Program.nesting body) + 1
  | .repeat _ body e => max (Program.nesting body) e.nesting + 1
  | .call _ _ _ args => argumentNesting args
  | .empty _ => 0

def elseNesting : Option (List Statement) → Nat
  | none => 0
  | some b => Program.nesting b

def Program.nesting : List Statement → Nat
  | [] => 0
  | s :: b => max s.nesting (Program.nesting b)

end

end Pseudocode
