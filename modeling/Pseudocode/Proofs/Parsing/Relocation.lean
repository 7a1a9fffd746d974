import Pseudocode.Proofs.Parsing.Grammar

/-! # The grammar does not look at places

* `Located.relocate`, `Program.relocate`: tokens and a program, each thing at another place.
* `Derives.relocate`: relocated tokens are the relocated program.
* `exists_relocate`: tokens at different places can be relocated to any list of the same tokens.
-/

namespace Pseudocode

/-! ## Relocated trees -/

section

variable (f : Position → Position)

def Located.relocate (t : Located) : Located := ⟨t.token, f t.pos⟩

def Key.relocate (k : Key) : Key := ⟨f k.pos, k.path⟩

mutual

def Expression.relocate : Expression → Expression
  | .constant c => .constant c
  | .key k => .key (k.relocate f)
  | .call pos name args => .call (f pos) name (Expression.relocateAll args)
  | .parenthesized e => .parenthesized e.relocate
  | .not pos e => .not (f pos) e.relocate
  | .negate pos e => .negate (f pos) e.relocate
  | .binary op pos lhs rhs => .binary op (f pos) lhs.relocate rhs.relocate

def Expression.relocateAll : List Expression → List Expression
  | [] => []
  | e :: es => e.relocate :: Expression.relocateAll es

end

mutual

def Statement.relocate : Statement → Statement
  | .output pos e => .output (f pos) (e.relocate f)
  | .input pos k => .input (f pos) (k.relocate f)
  | .declare pos name type => .declare (f pos) name type
  | .assign pos k e => .assign (f pos) (k.relocate f) (e.relocate f)
  | .printInt pos e => .printInt (f pos) (e.relocate f)
  | .printReal pos e => .printReal (f pos) (e.relocate f)
  | .ifElse pos e thenBranch elseBranch =>
    .ifElse (f pos) (e.relocate f) (Program.relocate thenBranch) (Program.relocateElse elseBranch)
  | .while pos e body => .while (f pos) (e.relocate f) (Program.relocate body)
  | .repeat pos body e => .repeat (f pos) (Program.relocate body) (e.relocate f)
  | .call pos callPos name args =>
    .call (f pos) (f callPos) name (Expression.relocateAll f args)
  | .empty pos => .empty (f pos)

def Program.relocateElse : Option (List Statement) → Option (List Statement)
  | none => none
  | some b => some (Program.relocate b)

def Program.relocate : List Statement → List Statement
  | [] => []
  | s :: rest => s.relocate :: Program.relocate rest

end

end

namespace Grammar

variable {f : Position → Position} {ts rest : List Located}

/-! ## Relocated derivations -/

theorem IndexAt.relocate {i : Option Int32} (h : IndexAt ts i rest) :
    IndexAt (ts.map (Located.relocate f)) i (rest.map (Located.relocate f)) := by
  cases h with
  | none => exact .none
  | some => exact .some

theorem PartAt.relocate {part : KeyPart} {pos : Position} (h : PartAt ts (part, pos) rest) :
    PartAt (ts.map (Located.relocate f)) (part, f pos) (rest.map (Located.relocate f)) := by
  cases h with
  | part index => exact .part index.relocate

theorem PartsAt.relocate {parts : List KeyPart} (h : PartsAt ts parts rest) :
    PartsAt (ts.map (Located.relocate f)) parts (rest.map (Located.relocate f)) := by
  induction h with
  | nil => exact .nil
  | cons head _ ih => exact .cons head.relocate ih

theorem KeyAt.relocate {k : Key} (h : KeyAt ts k rest) :
    KeyAt (ts.map (Located.relocate f)) (k.relocate f) (rest.map (Located.relocate f)) := by
  cases h with
  | key first more => exact .key first.relocate more.relocate

mutual

theorem ExpressionAt.relocate {level : Option Rank} {e : Expression} {ts rest : List Located} :
    ExpressionAt level ts e rest →
    ExpressionAt level (ts.map (Located.relocate f)) (e.relocate f) (rest.map (Located.relocate f))
  | .constant => .constant
  | .key path => .key path.relocate
  | .call called => .call called.relocate
  | .parenthesized inner => .parenthesized inner.relocate
  | .not operand => .not operand.relocate
  | .negate operand => .negate operand.relocate
  | .single operand => .single operand.relocate
  | .binary rank left right => .binary rank left.relocate right.relocate

theorem CallAt.relocate {c : Position × String × List Expression} {ts rest : List Located} :
    CallAt ts c rest →
    CallAt (ts.map (Located.relocate f)) (f c.1, c.2.1, Expression.relocateAll f c.2.2)
      (rest.map (Located.relocate f))
  | .call arguments => .call arguments.relocate

theorem ArgumentsAt.relocate {es : List Expression} {ts rest : List Located} :
    ArgumentsAt ts es rest →
    ArgumentsAt (ts.map (Located.relocate f)) (Expression.relocateAll f es)
      (rest.map (Located.relocate f))
  | .none => .none
  | .some first more => .some first.relocate more.relocate

theorem FurtherAt.relocate {es : List Expression} {ts rest : List Located} :
    FurtherAt ts es rest →
    FurtherAt (ts.map (Located.relocate f)) (Expression.relocateAll f es)
      (rest.map (Located.relocate f))
  | .nil => .nil
  | .cons head tail => .cons head.relocate tail.relocate

end

theorem LineEndAt.relocate (h : LineEndAt ts rest) :
    LineEndAt (ts.map (Located.relocate f)) (rest.map (Located.relocate f)) := by
  cases h with
  | newline => exact .newline
  | finish => exact .finish

theorem NewlinesAt.relocate (h : NewlinesAt ts rest) :
    NewlinesAt (ts.map (Located.relocate f)) (rest.map (Located.relocate f)) := by
  induction h with
  | nil => exact .nil
  | cons _ ih => exact .cons ih

theorem SimpleAt.relocate {s : Statement} (h : SimpleAt ts s rest) :
    SimpleAt (ts.map (Located.relocate f)) (s.relocate f) (rest.map (Located.relocate f)) := by
  cases h with
  | output value => exact .output value.relocate
  | input target => exact .input target.relocate
  | declare => exact .declare
  | call called => exact .call called.relocate
  | printInt value => exact .printInt value.relocate
  | printReal value => exact .printReal value.relocate
  | assign target value => exact .assign target.relocate value.relocate

mutual

theorem StatementAt.relocate {s : Statement} {ts rest : List Located} :
    StatementAt ts s rest →
    StatementAt (ts.map (Located.relocate f)) (s.relocate f) (rest.map (Located.relocate f))
  | .empty => .empty
  | .line simple lineEnd => .line simple.relocate lineEnd.relocate
  | .ifElse condition newlines thenEnd first second lineEnd =>
    .ifElse condition.relocate newlines.relocate thenEnd.relocate first.relocate second.relocate
      lineEnd.relocate
  | .while condition doEnd block lineEnd =>
    .while condition.relocate doEnd.relocate block.relocate lineEnd.relocate
  | .repeat repeatEnd block condition lineEnd =>
    .repeat repeatEnd.relocate block.relocate condition.relocate lineEnd.relocate

theorem ElseAt.relocate {b : Option (List Statement)} {ts rest : List Located} :
    ElseAt ts b rest →
    ElseAt (ts.map (Located.relocate f)) (Program.relocateElse f b) (rest.map (Located.relocate f))
  | .none => .none
  | .some elseEnd block => .some elseEnd.relocate block.relocate

theorem BlockAt.relocate {b : List Statement} {ts rest : List Located} :
    BlockAt ts b rest →
    BlockAt (ts.map (Located.relocate f)) (Program.relocate f b) (rest.map (Located.relocate f))
  | .nil => .nil
  | .cons head tail => .cons head.relocate tail.relocate

end

theorem Derives.relocate {p : Program} (h : Derives ts p) :
    Derives (ts.map (Located.relocate f)) (Program.relocate f p) :=
  BlockAt.relocate h

/-- Tokens at different places can be relocated to any list of the same tokens. The first place
    is mapped apart, which changes nothing for the others since they are different. -/
theorem exists_relocate {ts us : List Located} (apart : (ts.map (·.pos)).Nodup)
    (same : ts.map (·.token) = us.map (·.token)) : ∃ f, ts.map (Located.relocate f) = us := by
  induction ts generalizing us with
  | nil => exact ⟨id, (List.map_eq_nil_iff.mp same.symm).symm⟩
  | cons t ts ih =>
    obtain ⟨u, us, rfl⟩ : ∃ u us', us = u :: us' := by
      cases us with
      | nil => cases same
      | cons u us => exact ⟨u, us, rfl⟩
    obtain ⟨token, rest⟩ := List.cons.inj same
    obtain ⟨fresh, apart⟩ := List.nodup_cons.mp apart
    obtain ⟨f, rfl⟩ := ih apart rest
    refine ⟨fun pos => if pos = t.pos then u.pos else f pos, ?_⟩
    rw [List.map_cons]
    congr 1
    · simp [Located.relocate, token]
    · refine List.map_congr_left fun v member => ?_
      have other : v.pos ≠ t.pos := fun h => fresh (List.mem_map.mpr ⟨v, member, h⟩)
      simp [Located.relocate, other]

end Grammar

end Pseudocode
