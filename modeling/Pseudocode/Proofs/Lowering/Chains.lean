import Pseudocode.Lowering.Expression
import Pseudocode.Program.Parser.Expression
import Pseudocode.Proofs.Parsing.Expressions

/-! # Chains

In the tree of an expression a chain of operators leans left. Here it is kept as it is written: an
operand, and operators of one rank with the operands behind them.

* `Chains`: expressions in which chains are kept. The operands in a chain of one rank are those of
  the rank that binds tighter.
* `exists_chains`, `tree_injective`: each expression that can be written is the tree of one of them
  and of no other.
* `Chains.lower`: chains are lowered one operand after the other, which is how their trees are
  lowered (`lower_eq_expression`).
* `chains_of_written` puts this together.
-/

namespace Pseudocode

open Pseudocode.Parser (chainOf ranksUpTo)

/-! ## Expressions with chains -/

mutual

/-- An expression of the level, with the chains in it. -/
inductive Chains : Option Rank → Type where
  | constant (c : Constant) : Chains none
  | key (k : Key) : Chains none
  | call (pos : Position) (name : String) (args : ChainList) : Chains none
  | parenthesized (e : Chains (some .comparison)) : Chains none
  | not (pos : Position) (e : Chains none) : Chains none
  | negate (pos : Position) (e : Chains none) : Chains none
  | chain {r : Rank} (head : Chains r.below) (tail : Links r) : Chains (some r)

/-- Operators of the rank, each with its place and the operand to its right. -/
inductive Links : Rank → Type where
  | nil {r : Rank} : Links r
  | cons {r : Rank} (op : Operator) (rank : op.rank = r) (pos : Position) (rhs : Chains r.below)
      (tail : Links r) : Links r

/-- Arguments of a call. -/
inductive ChainList : Type where
  | nil : ChainList
  | cons (e : Chains (some .comparison)) (es : ChainList) : ChainList

end

mutual

/-- The tree, in which chains lean left. -/
def Chains.tree {level : Option Rank} : Chains level → Expression
  | .constant c => .constant c
  | .key k => .key k
  | .call pos name args => .call pos name args.trees
  | .parenthesized e => .parenthesized e.tree
  | .not pos e => .not pos e.tree
  | .negate pos e => .negate pos e.tree
  | .chain head tail => chainOf head.tree tail.trees

def Links.trees {r : Rank} : Links r → List Parser.Link
  | .nil => []
  | .cons op _ pos rhs tail => ⟨op, pos, rhs.tree⟩ :: tail.trees

def ChainList.trees : ChainList → List Expression
  | .nil => []
  | .cons e es => e.tree :: es.trees

end

/-! ## What can be written -/

section Written

open Grammar

/-- One more link behind the others. -/
def Links.snoc {r : Rank} (op : Operator) (rank : op.rank = r) (pos : Position)
    (rhs : Chains r.below) : Links r → Links r
  | .nil => .cons op rank pos rhs .nil
  | .cons op' rank' pos' rhs' tail => .cons op' rank' pos' rhs' (tail.snoc op rank pos rhs)

theorem Links.trees_snoc {r : Rank} {op : Operator} (rank : op.rank = r) (pos : Position)
    (rhs : Chains r.below) :
    ∀ tail : Links r, (tail.snoc op rank pos rhs).trees = tail.trees ++ [⟨op, pos, rhs.tree⟩]
  | .nil => rfl
  | .cons _ _ _ _ tail => congrArg (List.cons _) (tail.trees_snoc rank pos rhs)

theorem tree_snoc {r : Rank} {op : Operator} (rank : op.rank = r) (pos : Position)
    (rhs : Chains r.below) (head : Chains r.below) (tail : Links r) :
    (Chains.chain head (tail.snoc op rank pos rhs)).tree =
      .binary op pos (Chains.chain head tail).tree rhs.tree := by
  rw [Chains.tree, Links.trees_snoc, chainOf, List.foldl_append]
  rfl

mutual

/-- Each expression that can be written is the tree of one with chains. -/
theorem exists_chains {level : Option Rank} {e : Expression} {ts rest : List Located} :
    ExpressionAt level ts e rest → ∃ c : Chains level, c.tree = e
  | @ExpressionAt.constant c _ _ => ⟨.constant c, rfl⟩
  | @ExpressionAt.key k _ _ _ => ⟨.key k, rfl⟩
  | @ExpressionAt.call pos n _ _ _ called => by
    obtain ⟨args, rfl⟩ := exists_called called
    exact ⟨.call pos n args, rfl⟩
  | .parenthesized inner => by
    obtain ⟨c, rfl⟩ := exists_chains inner
    exact ⟨.parenthesized c, rfl⟩
  | @ExpressionAt.not pos _ _ _ operand => by
    obtain ⟨c, rfl⟩ := exists_chains operand
    exact ⟨.not pos c, rfl⟩
  | @ExpressionAt.negate pos _ _ _ operand => by
    obtain ⟨c, rfl⟩ := exists_chains operand
    exact ⟨.negate pos c, rfl⟩
  | .single operand => by
    obtain ⟨c, rfl⟩ := exists_chains operand
    exact ⟨.chain c .nil, rfl⟩
  | @ExpressionAt.binary _ _ pos _ _ _ _ _ rank left right => by
    obtain ⟨c, rfl⟩ := exists_chains left
    obtain ⟨rhs, rfl⟩ := exists_chains right
    cases c with
    | chain head tail =>
      exact ⟨.chain head (tail.snoc _ rank pos rhs), tree_snoc rank pos rhs head tail⟩

theorem exists_called {c : Position × String × List Expression} {ts rest : List Located} :
    CallAt ts c rest → ∃ args : ChainList, args.trees = c.2.2
  | .call arguments => exists_arguments arguments

theorem exists_arguments {es : List Expression} {ts rest : List Located} :
    ArgumentsAt ts es rest → ∃ args : ChainList, args.trees = es
  | .none => ⟨.nil, rfl⟩
  | .some first more => by
    obtain ⟨c, rfl⟩ := exists_chains first
    obtain ⟨cs, rfl⟩ := exists_further more
    exact ⟨.cons c cs, rfl⟩

theorem exists_further {es : List Expression} {ts rest : List Located} :
    FurtherAt ts es rest → ∃ args : ChainList, args.trees = es
  | .nil => ⟨.nil, rfl⟩
  | .cons head tail => by
    obtain ⟨c, rfl⟩ := exists_chains head
    obtain ⟨cs, rfl⟩ := exists_further tail
    exact ⟨.cons c cs, rfl⟩

end

end Written

/-! ## Trees tell the chains -/

/-- How many operators of the rank there are on the left of the tree. -/
def Expression.operators (r : Rank) : Expression → Nat
  | .binary op _ lhs _ => if op.rank = r then lhs.operators r + 1 else 0
  | _ => 0

theorem operators_chainOf {r : Rank} : ∀ (first : Expression) (tail : Links r),
    (chainOf first tail.trees).operators r = first.operators r + tail.trees.length
  | _, .nil => rfl
  | first, .cons op rank pos rhs tail => by
    have further := operators_chainOf (.binary op pos first rhs.tree) tail
    rw [Expression.operators, if_pos rank] at further
    exact further.trans (by rw [Links.trees, List.length_cons]; omega)

/-- Operators of another rank end the count. -/
theorem operators_other {r other : Rank} (apart : other ≠ r) : ∀ (first : Expression)
    (tail : Links other), first.operators r = 0 → (chainOf first tail.trees).operators r = 0
  | _, .nil, zero => zero
  | first, .cons op rank pos rhs tail, _ => by
    refine operators_other apart (.binary op pos first rhs.tree) tail ?_
    rw [Expression.operators, if_neg (rank ▸ apart)]

theorem notMem_ranksUpTo {r other : Rank} (outside : r ∉ ranksUpTo (some other)) :
    other ≠ r ∧ r ∉ ranksUpTo other.below := by
  cases other <;> cases r <;> simp_all [ranksUpTo, Rank.below]

theorem operators_eq_zero {r : Rank} : ∀ {level : Option Rank} (c : Chains level),
    r ∉ ranksUpTo level → c.tree.operators r = 0
  | _, .constant _, _ => rfl
  | _, .key _, _ => rfl
  | _, .call _ _ _, _ => rfl
  | _, .parenthesized _, _ => rfl
  | _, .not _ _, _ => rfl
  | _, .negate _ _, _ => rfl
  | _, .chain head tail, outside => by
    obtain ⟨apart, below⟩ := notMem_ranksUpTo outside
    exact operators_other apart head.tree tail (operators_eq_zero head below)

/-- The operators of a chain are all in its links. -/
theorem operators_chain {r : Rank} (head : Chains r.below) (tail : Links r) :
    (Chains.chain head tail).tree.operators r = tail.trees.length := by
  have none : head.tree.operators r = 0 := operators_eq_zero head (by cases r <;> decide)
  rw [Chains.tree, operators_chainOf, none, Nat.zero_add]

theorem chainOf_inj {first first' : Expression} {links links' : List Parser.Link}
    (length : links.length = links'.length) (same : chainOf first links = chainOf first' links') :
    first = first' ∧ links = links' := by
  induction links generalizing first first' links' with
  | nil =>
    obtain rfl := List.eq_nil_of_length_eq_zero length.symm
    exact ⟨same, rfl⟩
  | cons l links ih =>
    obtain ⟨l', links', rfl⟩ := List.exists_cons_of_length_eq_add_one length.symm
    obtain ⟨binary, rfl⟩ := ih (Nat.succ.inj length) same
    obtain ⟨op, pos, rhs⟩ := l
    obtain ⟨op', pos', rhs'⟩ := l'
    cases binary
    exact ⟨rfl, rfl⟩

mutual

/-- Nothing is lost of the chains in a tree: it is that of one expression with chains only. -/
theorem tree_injective : ∀ {level : Option Rank} (c c' : Chains level), c.tree = c'.tree → c = c'
  | _, .constant _, c', same => by
    cases c' <;> cases same
    rfl
  | _, .key _, c', same => by
    cases c' <;> cases same
    rfl
  | _, .call pos name args, .call pos' name' args', same => by
    injection same with pos name trees
    rw [pos, name, trees_injective args args' trees]
  | _, .parenthesized e, .parenthesized e', same => by
    injection same with inner
    rw [tree_injective e e' inner]
  | _, .not pos e, .not pos' e', same => by
    injection same with pos operand
    rw [pos, tree_injective e e' operand]
  | _, .negate pos e, .negate pos' e', same => by
    injection same with pos operand
    rw [pos, tree_injective e e' operand]
  | _, .chain head tail, .chain head' tail', same => by
    have length : tail.trees.length = tail'.trees.length := by
      rw [← operators_chain head tail, same, operators_chain]
    obtain ⟨first, links⟩ := chainOf_inj length same
    rw [tree_injective head head' first, links_injective tail tail' links]

theorem links_injective : ∀ {r : Rank} (tail tail' : Links r),
    tail.trees = tail'.trees → tail = tail'
  | _, .nil, .nil, _ => rfl
  | _, .cons op rank pos rhs tail, .cons op' rank' pos' rhs' tail', same => by
    injection same with link links
    injection link with op pos operand
    subst op
    rw [pos, tree_injective rhs rhs' operand, links_injective tail tail' links]

theorem trees_injective : ∀ args args' : ChainList, args.trees = args'.trees → args = args'
  | .nil, .nil, _ => rfl
  | .cons e es, .cons e' es', same => by
    injection same with first further
    rw [tree_injective e e' first, trees_injective es es' further]

end

/-! ## Lowering -/

namespace Lowering

open Assembly

mutual

/-- Lowers an expression with the chains in it. -/
def Chains.lower {level : Option Rank} : Chains level → Lower Value
  | .constant c => constant c
  | .key k => load k
  | .call pos name args => do
    let vs ← ChainList.lower args
    call pos name vs
  | .parenthesized e => Chains.lower e
  | .not pos e => do
    let v ← Chains.lower e
    not pos v
  | .negate pos e => do
    let v ← Chains.lower e
    negate pos v
  | .chain head tail => do
    let first ← Chains.lower head
    Links.lower tail first

/-- Goes on with what has been computed up to here as the left operand. -/
def Links.lower {r : Rank} : Links r → Value → Lower Value
  | .nil, acc => return acc
  | .cons op _ pos rhs tail, acc => do
    let v ← Chains.lower rhs
    let acc ← operate op pos acc v
    Links.lower tail acc

def ChainList.lower : ChainList → Lower (List Value)
  | .nil => return []
  | .cons e es => do
    let v ← Chains.lower e
    let vs ← ChainList.lower es
    return v :: vs

end

mutual

/-- Chains are lowered as the trees are that lean left. -/
theorem lower_eq_expression {level : Option Rank} :
    ∀ c : Chains level, Chains.lower c = expression c.tree
  | .constant _ => rfl
  | .key _ => rfl
  | .call pos name args => by
    rw [Chains.lower, Chains.tree, expression, lower_eq_expressions args]
  | .parenthesized e => by
    rw [Chains.lower, Chains.tree, expression, lower_eq_expression e]
  | .not pos e => by
    rw [Chains.lower, Chains.tree, expression, lower_eq_expression e]
  | .negate pos e => by
    rw [Chains.lower, Chains.tree, expression, lower_eq_expression e]
  | .chain head tail => by
    rw [Chains.lower, Chains.tree, lower_eq_expression head, expression_chainOf]

theorem expression_chainOf {r : Rank} : ∀ (first : Expression) (tail : Links r),
    expression (chainOf first tail.trees) = expression first >>= Links.lower tail
  | first, .nil => (bind_pure (expression first)).symm
  | first, .cons op _ pos rhs tail => by
    have further := expression_chainOf (.binary op pos first rhs.tree) tail
    rw [expression, ← lower_eq_expression rhs] at further
    simp only [bind_assoc] at further
    exact further

theorem lower_eq_expressions : ∀ args : ChainList, ChainList.lower args = expressions args.trees
  | .nil => rfl
  | .cons e es => by
    rw [ChainList.lower, ChainList.trees, expressions, lower_eq_expression e,
      lower_eq_expressions es]

end

/-- Each expression that can be written has its chains, which its tree tells, and is lowered one
    operand after the other as they stand in them. -/
theorem chains_of_written {level : Option Rank} {ts rest : List Located} {e : Expression}
    (written : Grammar.ExpressionAt level ts e rest) :
    ∃ c : Chains level, (∀ c' : Chains level, c'.tree = e ↔ c' = c) ∧
      expression e = Chains.lower c := by
  obtain ⟨c, rfl⟩ := exists_chains written
  refine ⟨c, fun c' => ⟨tree_injective c' c, ?_⟩, (lower_eq_expression c).symm⟩
  rintro rfl
  rfl

end Lowering

end Pseudocode
