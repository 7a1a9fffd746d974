import Pseudocode.Proofs.Parsing.Foresight
import Pseudocode.Proofs.Parsing.Relocation

/-! # Parsers move places along

Tokens at other places are read as the same tree with its places moved, and a fault is about the
same token. `Derives.relocate` says so of values; here it is said of what a parser does, so of
faults as well. Ends of lines may be moved in another way than other tokens, since only empty
statements have a place from them.

* `Located.shift f g`, `Program.shift f g`: places are moved by `f`, and those of ends of lines,
  and so of empty statements, by `g`.
* `Shifts f g map p q`: on shifted tokens `q` does what `p` does, with the value under `map`.
* `program_shifts`: it is so for the whole program, if lines keep their numbers.
-/

namespace Pseudocode

/-! ## Shifted trees -/

section

variable (f g : Position → Position)

def Located.shift : Located → Located
  | ⟨.newline, pos⟩ => ⟨.newline, g pos⟩
  | ⟨token, pos⟩ => ⟨token, f pos⟩

mutual

def Statement.shift : Statement → Statement
  | .empty pos => .empty (g pos)
  | .ifElse pos e thenBranch elseBranch =>
    .ifElse (f pos) (e.relocate f) (Program.shift thenBranch) (Program.shiftElse elseBranch)
  | .while pos e body => .while (f pos) (e.relocate f) (Program.shift body)
  | .repeat pos body e => .repeat (f pos) (Program.shift body) (e.relocate f)
  | s => s.relocate f

def Program.shiftElse : Option (List Statement) → Option (List Statement)
  | none => none
  | some b => some (Program.shift b)

def Program.shift : List Statement → List Statement
  | [] => []
  | s :: rest => s.shift :: Program.shift rest

end

@[simp] theorem Located.token_shift (t : Located) : (t.shift f g).token = t.token := by
  obtain ⟨token, pos⟩ := t
  cases token <;> rfl

theorem Located.shift_of_ne {token : Token} (other : token ≠ .newline) (pos : Position) :
    (⟨token, pos⟩ : Located).shift f g = ⟨token, f pos⟩ := by
  cases token <;> first | rfl | exact absurd rfl other

theorem Program.shift_eq_map (ss : List Statement) :
    Program.shift f g ss = ss.map (Statement.shift f g) := by
  induction ss with
  | nil => rfl
  | cons s ss ih => rw [Program.shift, ih, List.map_cons]

theorem Expression.relocateAll_eq_map (es : List Expression) :
    Expression.relocateAll f es = es.map (Expression.relocate f) := by
  induction es with
  | nil => rfl
  | cons e es ih => rw [Expression.relocateAll, ih, List.map_cons]

end

namespace Parser

variable {α β γ δ : Type} {f g : Position → Position}

/-! ## Combinations -/

section

variable (f g)

/-- The outcome with the value under `map`, in front of shifted tokens. -/
def shifted (map : α → β) : EStateM.Result ParseFault (List Located) α →
    EStateM.Result ParseFault (List Located) β
  | .ok a rest => .ok (map a) (rest.map (Located.shift f g))
  | .error fault rest => .error fault (rest.map (Located.shift f g))

def Shifts (map : α → β) (p : Parser α) (q : Parser β) : Prop :=
  ∀ ts, q (ts.map (Located.shift f g)) = shifted f g map (p ts)

end

namespace Shifts

theorem pure (map : α → β) (a : α) : Shifts f g map (pure a) (pure (map a)) := fun _ => rfl

theorem fault (map : α → β) (x : ParseFault) : Shifts f g map (throw x) (throw x) := fun _ => rfl

theorem advance : Shifts f g id advance advance := by
  intro ts
  cases ts <;> rfl

theorem bind {map : α → β} {map' : γ → δ} {x : Parser α} {y : Parser β} {k : α → Parser γ}
    {l : β → Parser δ} (first : Shifts f g map x y)
    (second : ∀ a, Shifts f g map' (k a) (l (map a))) : Shifts f g map' (x >>= k) (y >>= l) := by
  intro ts
  have same := first ts
  cases outcome : x ts with
  | ok a rest =>
    rw [outcome] at same
    rw [bind_of_ok same, bind_of_ok outcome]
    exact second a rest
  | error fault rest =>
    rw [outcome] at same
    rw [bind_of_error same, bind_of_error outcome]
    rfl

theorem peek {map : α → β} {k : Option Located → Parser α} {l : Option Located → Parser β}
    (next : ∀ x, Shifts f g map (k x) (l (x.map (Located.shift f g)))) :
    Shifts f g map (peek >>= k) (peek >>= l) := by
  intro ts
  rw [peek_bind, peek_bind, List.head?_map]
  exact next ts.head? ts

theorem peekSecond {map : α → β} {k : Option Located → Parser α} {l : Option Located → Parser β}
    (next : ∀ x, Shifts f g map (k x) (l (x.map (Located.shift f g)))) :
    Shifts f g map (peekSecond >>= k) (peekSecond >>= l) := by
  intro ts
  show l (ts.map (Located.shift f g))[1]? _ = shifted f g map (k ts[1]? ts)
  rw [List.getElem?_map]
  exact next ts[1]? ts

theorem accept (t : Token) : Shifts f g id (accept t) (accept t) := by
  apply Shifts.peek
  rintro (_ | next)
  · exact .pure id false
  · by_cases same : next.token = t
    · simp only [Option.map_some, Located.token_shift, same, if_true]
      exact .bind .advance fun _ => .pure id true
    · simp only [Option.map_some, Located.token_shift, same, if_false]
      exact .pure id false

/-- What is read only if a token comes that announces it. -/
theorem announced {map : α → β} {t : Token} {p p' : Parser α} {q q' : Parser β}
    (yes : Shifts f g map p q) (no : Shifts f g map p' q') :
    Shifts f g map (do if ← Parser.accept t then p else p')
      (do if ← Parser.accept t then q else q') := by
  refine .bind (accept t) fun b => ?_
  cases b
  · exact no
  · exact yes

theorem repeatedly {map : α → β} {step : Parser (Option α)} {step' : Parser (Option β)}
    (once : Shifts f g (Option.map map) step step') :
    Shifts f g (List.map map) (repeatedly step) (repeatedly step') := by
  intro ts
  induction size : ts.length using Nat.strongRecOn generalizing ts with
  | _ n ih =>
    have same := once ts
    rw [Parser.repeatedly, Parser.repeatedly, same, List.length_map]
    rcases step ts with ⟨_ | a, rest⟩ | ⟨fault, rest⟩
    · rfl
    · simp only [shifted, Option.map_some, List.length_map]
      by_cases fewer : rest.length < ts.length
      · rw [if_pos fewer, if_pos fewer, ih rest.length (size ▸ fewer) rest rfl]
        cases Parser.repeatedly step rest <;> rfl
      · rw [if_neg fewer, if_neg fewer]
        rfl
    · rfl

end Shifts

/-! ## Small parsers -/

theorem expect_shifts (t : Token) : Shifts f g id (expect t) (expect t) := by
  refine .bind (.accept t) fun b => ?_
  cases b
  · exact .fault _ _
  · exact .pure id ()

theorem name_shifts : Shifts f g (fun x => (x.1, f x.2)) name name := by
  apply Shifts.peek
  rintro (_ | ⟨token, pos⟩)
  · exact .fault _ _
  · cases token
    case name n => exact .bind .advance fun _ => .pure _ (n, pos)
    all_goals exact .fault _ _

theorem lineEnd_shifts : Shifts f g id lineEnd lineEnd := by
  apply Shifts.peek
  rintro (_ | ⟨token, pos⟩)
  · exact .pure id ()
  · cases token
    case newline => exact .advance
    all_goals exact .fault _ _

theorem type_shifts : Shifts f g id type type := by
  apply Shifts.peek
  rintro (_ | ⟨token, pos⟩)
  · exact .fault _ _
  · cases token
    case name n => exact .bind .advance fun _ => .pure id (DeclaredType.custom n)
    case keyword k =>
      cases k
      case int => exact .bind .advance fun _ => .pure id DeclaredType.int
      case real => exact .bind .advance fun _ => .pure id DeclaredType.real
      case bool => exact .bind .advance fun _ => .pure id DeclaredType.bool
      all_goals exact .fault _ _
    all_goals exact .fault _ _

theorem newlines_shifts : Shifts f g id newlines newlines := by
  intro ts
  show EStateM.Result.ok () ((ts.map _).dropWhile _) = _
  rw [List.dropWhile_map]
  simp only [Function.comp_def, Located.token_shift]
  rfl

/-! ## Keys and calls -/

theorem index_shifts : Shifts f g id index index := by
  refine .announced (.peek ?_) (.pure id none)
  rintro (_ | ⟨token, pos⟩)
  · exact .fault _ _
  · cases token
    case integer n =>
      exact .bind .advance fun _ => .bind (expect_shifts _) fun _ => .pure id (some n)
    all_goals exact .fault _ _

theorem keyPart_shifts : Shifts f g (fun x => (x.1, f x.2)) keyPart keyPart :=
  .bind name_shifts fun x => .bind index_shifts fun i => .pure _ (KeyPart.mk x.1 i, x.2)

theorem parts_shifts : Shifts f g id (repeatedly furtherPart) (repeatedly furtherPart) := by
  have further : Shifts f g (Option.map id) furtherPart furtherPart :=
    .announced (.bind keyPart_shifts fun x => .pure _ (some x.1)) (.pure _ none)
  have whole := Shifts.repeatedly further
  rwa [List.map_id_fun] at whole

theorem key_shifts : Shifts f g (Key.relocate f) key key :=
  .bind keyPart_shifts fun x => .bind parts_shifts fun parts => .pure _ (Key.mk x.2 (x.1 :: parts))

section

variable {argument : Parser Expression}
  (same : Shifts f g (Expression.relocate f) argument argument)

include same

theorem arguments_shifts :
    Shifts f g (List.map (Expression.relocate f)) (arguments argument) (arguments argument) := by
  have further : Shifts f g (List.map (Expression.relocate f))
      (repeatedly (furtherArgument argument)) (repeatedly (furtherArgument argument)) :=
    .repeatedly (.announced (.bind same fun e => .pure _ (some e)) (.pure _ none))
  have some : Shifts f g (List.map (Expression.relocate f))
      (do let first ← argument; return first :: (← repeatedly (furtherArgument argument)))
      (do let first ← argument; return first :: (← repeatedly (furtherArgument argument))) :=
    .bind same fun first => .bind further fun more => .pure _ (first :: more)
  apply Shifts.peek
  rintro (_ | ⟨token, pos⟩)
  · exact some
  · cases token
    case symbol s =>
      cases s
      case closeParen => exact .pure _ []
      all_goals exact some
    all_goals exact some

theorem call_shifts : Shifts f g (fun c => (f c.1, c.2.1, Expression.relocateAll f c.2.2))
    (call argument) (call argument) := by
  refine .bind name_shifts fun x => .bind (expect_shifts _) fun _ => ?_
  refine .bind (arguments_shifts same) fun args => .bind (expect_shifts _) fun _ => ?_
  rw [← Expression.relocateAll_eq_map]
  exact .pure _ (x.2, x.1, args)

end

/-! ## Expressions -/

def Link.relocate (f : Position → Position) (l : Link) : Link := ⟨l.op, f l.pos, l.rhs.relocate f⟩

theorem chainOf_relocate (first : Expression) (links : List Link) :
    chainOf (first.relocate f) (links.map (Link.relocate f)) =
      (chainOf first links).relocate f := by
  induction links generalizing first with
  | nil => rfl
  | cons l links ih => exact ih (.binary l.op l.pos first l.rhs)

section

variable {operator? : Token → Option Operator} {operand : Parser Expression}
  (same : Shifts f g (Expression.relocate f) operand operand)

include same

theorem link_shifts (none : operator? .newline = none) :
    Shifts f g (Option.map (Link.relocate f)) (link operator? operand)
      (link operator? operand) := by
  apply Shifts.peek
  rintro (_ | ⟨token, pos⟩)
  · exact .pure _ Option.none
  · by_cases newline : token = .newline
    · subst newline
      simp only [Option.map_some, Located.shift, none]
      exact .pure _ Option.none
    · simp only [Option.map_some, Located.shift_of_ne f g newline]
      cases operator? token with
      | none => exact .pure _ Option.none
      | some op =>
        exact .bind .advance fun _ => .bind same fun e => .pure _ (some (Link.mk op pos e))

theorem chain_shifts (none : operator? .newline = none) :
    Shifts f g (Expression.relocate f) (chain operator? operand) (chain operator? operand) := by
  refine .bind same fun first => .bind (.repeatedly (link_shifts same none)) fun links => ?_
  rw [chainOf_relocate]
  exact .pure _ (chainOf first links)

theorem expressionOver_shifts :
    Shifts f g (Expression.relocate f) (expressionOver operand) (expressionOver operand) :=
  chain_shifts (chain_shifts (chain_shifts same rfl) rfl) rfl

end

section

variable {inner : Parser Expression} (within : Shifts f g (Expression.relocate f) inner inner)

include within

theorem named_shifts : Shifts f g (Expression.relocate f) (named inner) (named inner) := by
  have stored : Shifts f g (Expression.relocate f) (do return .key (← key))
      (do return .key (← key)) := .bind key_shifts fun k => .pure _ (Expression.key k)
  apply Shifts.peekSecond
  rintro (_ | ⟨token, pos⟩)
  · exact stored
  · cases token
    case symbol s =>
      cases s
      case openParen =>
        exact .bind (call_shifts within) fun c => .pure _ (Expression.call c.1 c.2.1 c.2.2)
      all_goals exact stored
    all_goals exact stored

theorem primary_shifts : Shifts f g (Expression.relocate f) (primary inner) (primary inner) := by
  have constant (c : Constant) : Shifts f g (Expression.relocate f)
      (do advance; return .constant c) (do advance; return .constant c) :=
    .bind .advance fun _ => .pure _ (Expression.constant c)
  apply Shifts.peek
  rintro (_ | ⟨token, pos⟩)
  · exact .fault _ _
  · cases token
    case name n => exact named_shifts within
    case symbol s =>
      cases s
      case openParen =>
        refine .bind .advance fun _ => .bind within fun e => .bind (expect_shifts _) fun _ => ?_
        exact .pure _ (Expression.parenthesized e)
      all_goals exact .fault _ _
    case keyword k =>
      cases k
      case true => exact constant (.bool true)
      case false => exact constant (.bool false)
      all_goals exact .fault _ _
    case string s => exact constant (.string s)
    case integer n => exact constant (.integer n)
    case real x => exact constant (.real x)
    case newline => exact .fault _ _

theorem unaryOver_shifts {operand : Parser Expression}
    (same : Shifts f g (Expression.relocate f) operand operand) :
    Shifts f g (Expression.relocate f) (unaryOver operand inner) (unaryOver operand inner) := by
  apply Shifts.peek
  rintro (_ | ⟨token, pos⟩)
  · exact primary_shifts within
  · cases token
    case symbol s =>
      cases s
      case bang =>
        exact .bind .advance fun _ => .bind same fun e => .pure _ (Expression.not pos e)
      case minus =>
        exact .bind .advance fun _ => .bind same fun e => .pure _ (Expression.negate pos e)
      all_goals exact primary_shifts within
    all_goals exact primary_shifts within

end

theorem unary_shifts : ∀ levels, Shifts f g (Expression.relocate f) (unary levels) (unary levels)
  | 0 => unaryOver_shifts (.fault _ _) (.fault _ _)
  | levels + 1 =>
    unaryOver_shifts (expressionOver_shifts (unary_shifts levels)) (unary_shifts levels)

theorem expression_shifts (levels : Nat) :
    Shifts f g (Expression.relocate f) (expression levels) (expression levels) :=
  expressionOver_shifts (unary_shifts levels)

theorem callStatement_shifts : ∀ levels,
    Shifts f g (fun c => (f c.1, c.2.1, Expression.relocateAll f c.2.2)) (callStatement levels)
      (callStatement levels)
  | 0 => call_shifts (.fault _ _)
  | levels + 1 => call_shifts (expression_shifts levels)

/-! ## Statements -/

section

variable {statement : Parser Statement}
  (same : Shifts f g (Statement.shift f g) statement statement)
  (lines : ∀ pos, (f pos).line = pos.line) (pos : Position)

include same lines

theorem block_shifts (c : Construct) (closers : List Keyword) :
    Shifts f g (Program.shift f g) (block statement c pos closers)
      (block statement c (f pos) closers) := by
  have further : Shifts f g (Option.map (Statement.shift f g))
      (do return some (← statement)) (do return some (← statement)) :=
    .bind same fun s => .pure _ (some s)
  rw [funext (Program.shift_eq_map f g)]
  refine .repeatedly (.peek ?_)
  rintro (_ | ⟨token, place⟩)
  · show Shifts f g _ _ (throw (.unterminated c (f pos).line closers))
    rw [lines]
    exact .fault _ _
  · cases token
    case keyword k =>
      show Shifts f g _ (if k ∈ closers then _ else _) (if k ∈ closers then _ else _)
      split
      · exact .pure _ none
      · exact further
    all_goals exact further

theorem elseBranch_shifts :
    Shifts f g (Program.shiftElse f g) (elseBranch statement pos)
      (elseBranch statement (f pos)) := by
  refine .announced (.bind lineEnd_shifts fun _ => ?_) (.pure _ none)
  exact .bind (block_shifts same lines pos _ _) fun b => .pure _ (some b)

theorem construct_shifts {expression : Parser Expression}
    (condition : Shifts f g (Expression.relocate f) expression expression) (c : Construct) :
    Shifts f g (Statement.shift f g) (construct expression statement pos c)
      (construct expression statement (f pos) c) := by
  cases c with
  | «if» =>
    refine .bind (expect_shifts _) fun _ => .bind condition fun e => ?_
    refine .bind newlines_shifts fun _ => .bind (expect_shifts _) fun _ => ?_
    refine .bind lineEnd_shifts fun _ => .bind (block_shifts same lines pos _ _) fun first => ?_
    refine .bind (elseBranch_shifts same lines pos) fun second => ?_
    refine .bind (expect_shifts _) fun _ => .bind lineEnd_shifts fun _ => ?_
    exact .pure _ (Statement.ifElse pos e first second)
  | «while» =>
    refine .bind (expect_shifts _) fun _ => .bind condition fun e => ?_
    refine .bind (expect_shifts _) fun _ => .bind lineEnd_shifts fun _ => ?_
    refine .bind (block_shifts same lines pos _ _) fun body => .bind (expect_shifts _) fun _ => ?_
    exact .bind lineEnd_shifts fun _ => .pure _ (Statement.while pos e body)
  | «repeat» =>
    refine .bind (expect_shifts _) fun _ => .bind lineEnd_shifts fun _ => ?_
    refine .bind (block_shifts same lines pos _ _) fun body => .bind (expect_shifts _) fun _ => ?_
    refine .bind condition fun e => .bind lineEnd_shifts fun _ => ?_
    exact .pure _ (Statement.repeat pos body e)

end

theorem line_shifts {p q : Parser Statement} (same : Shifts f g (Statement.shift f g) p q) :
    Shifts f g (Statement.shift f g) (line p) (line q) :=
  .bind same fun s => .bind lineEnd_shifts fun _ => .pure _ s

section

variable {expression : Parser Expression} {call : Parser (Position × String × List Expression)}
  (same : Shifts f g (Expression.relocate f) expression expression)
  (called : Shifts f g (fun c => (f c.1, c.2.1, Expression.relocateAll f c.2.2)) call call)

include same

theorem assignment_shifts (pos : Position) :
    Shifts f g (Statement.shift f g) (assignment expression pos)
      (assignment expression (f pos)) := by
  refine .bind key_shifts fun k => .bind (expect_shifts _) fun _ => ?_
  exact .bind same fun e => .pure _ (Statement.assign pos k e)

include called

theorem simple_shifts (pos : Position) (k : Keyword) :
    Shifts f g (Statement.shift f g) (simple expression call pos k)
      (simple expression call (f pos) k) := by
  cases k
  case output =>
    exact .bind .advance fun _ => .bind same fun e => .pure _ (Statement.output pos e)
  case input =>
    exact .bind .advance fun _ => .bind key_shifts fun k => .pure _ (Statement.input pos k)
  case call =>
    exact .bind .advance fun _ => .bind called fun c => .pure _ (Statement.call pos c.1 c.2.1 c.2.2)
  case printInt =>
    exact .bind .advance fun _ => .bind same fun e => .pure _ (Statement.printInt pos e)
  case printReal =>
    exact .bind .advance fun _ => .bind same fun e => .pure _ (Statement.printReal pos e)
  case declare =>
    refine .bind .advance fun _ => .bind name_shifts fun x => .bind (expect_shifts _) fun _ => ?_
    exact .bind type_shifts fun t => .pure _ (Statement.declare pos x.1 t)
  all_goals exact .fault _ _

theorem statementOver_shifts {constructs : Position → Construct → Parser Statement}
    (nested : ∀ pos c, Shifts f g (Statement.shift f g) (constructs pos c) (constructs (f pos) c)) :
    Shifts f g (Statement.shift f g) (statementOver expression call constructs)
      (statementOver expression call constructs) := by
  apply Shifts.peek
  rintro (_ | ⟨token, pos⟩)
  · exact .fault _ _
  · cases token
    case newline => exact .bind .advance fun _ => .pure _ (Statement.empty pos)
    case name n => exact line_shifts (assignment_shifts same pos)
    case keyword k =>
      dsimp only [Option.map_some, Located.shift]
      cases construct? k with
      | some c => exact nested pos c
      | none => exact line_shifts (simple_shifts same called pos k)
    all_goals exact .fault _ _

end

theorem statement_shifts (lines : ∀ pos, (f pos).line = pos.line) : ∀ levels,
    Shifts f g (Statement.shift f g) (statement levels) (statement levels)
  | 0 => statementOver_shifts (expression_shifts 0) (callStatement_shifts 0) fun _ _ => .fault _ _
  | levels + 1 =>
    statementOver_shifts (expression_shifts (levels + 1)) (callStatement_shifts (levels + 1))
      fun pos =>
        construct_shifts (statement_shifts lines levels) lines pos (expression_shifts levels)

theorem program_shifts (lines : ∀ pos, (f pos).line = pos.line) :
    Shifts f g (Program.shift f g) program program := by
  rw [funext (Program.shift_eq_map f g)]
  refine .repeatedly (.peek ?_)
  rintro (_ | next)
  · exact .pure _ none
  · exact .bind (statement_shifts lines _) fun s => .pure _ (some s)

end Parser

end Pseudocode
