import Pseudocode.Proofs.Parsing.Grammar

/-! # What remains is an end of the tokens

A construct leaves an end of the list that it starts in, with one lemma for each relation of the
grammar (`ExpressionAt.suffix`, `StatementAt.suffix`, ...).
-/

namespace Pseudocode.Grammar

open List (suffix_cons suffix_rfl)

variable {ts rest : List Located}

theorem IndexAt.suffix {i : Option Int32} (h : IndexAt ts i rest) : rest <:+ ts := by
  cases h with
  | none => exact suffix_rfl
  | some => exact ⟨[_, _, _], rfl⟩

theorem PartAt.suffix {part : KeyPart × Position} (h : PartAt ts part rest) : rest <:+ ts := by
  cases h with
  | part index => exact index.suffix.trans (suffix_cons _ _)

theorem PartsAt.suffix {parts : List KeyPart} (h : PartsAt ts parts rest) : rest <:+ ts := by
  induction h with
  | nil => exact suffix_rfl
  | cons head _ ih => exact (ih.trans head.suffix).trans (suffix_cons _ _)

theorem KeyAt.suffix {k : Key} (h : KeyAt ts k rest) : rest <:+ ts := by
  cases h with
  | key first more => exact more.suffix.trans first.suffix

mutual

theorem ExpressionAt.suffix {level : Option Rank} {e : Expression} {ts rest : List Located} :
    ExpressionAt level ts e rest → rest <:+ ts
  | .constant => suffix_cons _ _
  | .key path => path.suffix
  | .call called => called.suffix
  | .parenthesized inner => (suffix_cons _ _).trans (inner.suffix.trans (suffix_cons _ _))
  | .not operand => operand.suffix.trans (suffix_cons _ _)
  | .negate operand => operand.suffix.trans (suffix_cons _ _)
  | .single operand => operand.suffix
  | .binary _ left right => right.suffix.trans ((suffix_cons _ _).trans left.suffix)

theorem CallAt.suffix {c : Position × String × List Expression} {ts rest : List Located} :
    CallAt ts c rest → rest <:+ ts
  | .call arguments =>
    (suffix_cons _ _).trans (arguments.suffix.trans ((suffix_cons _ _).trans (suffix_cons _ _)))

theorem ArgumentsAt.suffix {es : List Expression} {ts rest : List Located} :
    ArgumentsAt ts es rest → rest <:+ ts
  | .none => suffix_rfl
  | .some first more => more.suffix.trans first.suffix

theorem FurtherAt.suffix {es : List Expression} {ts rest : List Located} :
    FurtherAt ts es rest → rest <:+ ts
  | .nil => suffix_rfl
  | .cons head tail => tail.suffix.trans (head.suffix.trans (suffix_cons _ _))

end

theorem LineEndAt.suffix (h : LineEndAt ts rest) : rest <:+ ts := by
  cases h with
  | newline => exact suffix_cons _ _
  | finish => exact suffix_rfl

theorem NewlinesAt.suffix (h : NewlinesAt ts rest) : rest <:+ ts := by
  induction h with
  | nil => exact suffix_rfl
  | cons _ ih => exact ih.trans (suffix_cons _ _)

theorem SimpleAt.suffix {s : Statement} (h : SimpleAt ts s rest) : rest <:+ ts := by
  cases h with
  | output value => exact value.suffix.trans (suffix_cons _ _)
  | input target => exact target.suffix.trans (suffix_cons _ _)
  | declare => exact ⟨[_, _, _, _], rfl⟩
  | call called => exact called.suffix.trans (suffix_cons _ _)
  | printInt value => exact value.suffix.trans (suffix_cons _ _)
  | printReal value => exact value.suffix.trans (suffix_cons _ _)
  | assign target value => exact value.suffix.trans ((suffix_cons _ _).trans target.suffix)

mutual

theorem StatementAt.suffix {s : Statement} {ts rest : List Located} :
    StatementAt ts s rest → rest <:+ ts
  | .empty => suffix_cons _ _
  | .line simple lineEnd => lineEnd.suffix.trans simple.suffix
  | .ifElse condition newlines thenEnd first second lineEnd =>
    have upToThen := (suffix_cons _ _).trans (newlines.suffix.trans condition.suffix)
    have upToElse := first.suffix.trans (thenEnd.suffix.trans upToThen)
    have upToEnd := (suffix_cons _ _).trans (second.suffix.trans upToElse)
    (lineEnd.suffix.trans upToEnd).trans (suffix_cons _ _)
  | .while condition doEnd block lineEnd =>
    have upToDo := (suffix_cons _ _).trans condition.suffix
    have upToEnd := (suffix_cons _ _).trans (block.suffix.trans (doEnd.suffix.trans upToDo))
    (lineEnd.suffix.trans upToEnd).trans (suffix_cons _ _)
  | .repeat repeatEnd block condition lineEnd =>
    have upToUntil := (suffix_cons _ _).trans (block.suffix.trans repeatEnd.suffix)
    (lineEnd.suffix.trans (condition.suffix.trans upToUntil)).trans (suffix_cons _ _)

theorem ElseAt.suffix {b : Option (List Statement)} {ts rest : List Located} :
    ElseAt ts b rest → rest <:+ ts
  | .none => suffix_rfl
  | .some elseEnd block => (block.suffix.trans elseEnd.suffix).trans (suffix_cons _ _)

theorem BlockAt.suffix {b : List Statement} {ts rest : List Located} :
    BlockAt ts b rest → rest <:+ ts
  | .nil => suffix_rfl
  | .cons head tail => tail.suffix.trans head.suffix

end

end Pseudocode.Grammar
