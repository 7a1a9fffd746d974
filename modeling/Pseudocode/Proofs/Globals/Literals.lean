import Pseudocode.Proofs.Globals.Stock
import Pseudocode.Proofs.Parsing.Grammar

/-! # The literals of a text

Every text among the tokens of a program is a literal in it, in the same order, and gets a row in
the table of globals.

* `texts`: the texts among the tokens.
* `ExpressionAt.texts_eq`, `BlockAt.texts_eq`: the tokens of a construct have its literals in them.
* `exists_row`: the literals of a table are named by their numbers.
-/

namespace Pseudocode

namespace Globals

/-- The text that the token is. -/
def string? : Token → Option String
  | .string s => some s
  | _ => none

/-- The texts among the tokens, in order. -/
def texts (ts : List Located) : List String := ts.filterMap (string? ·.token)

theorem texts_string (s : String) (p : Position) (ts : List Located) :
    texts (⟨.string s, p⟩ :: ts) = s :: texts ts := rfl

theorem texts_append (ts more : List Located) : texts (ts ++ more) = texts ts ++ texts more :=
  List.filterMap_append

/-- The text of the item, if it is a literal. -/
def Item.literal? : Item → Option String
  | .declared _ _ => none
  | .literal text => some text

/-- The texts of the literals among the items. -/
def itemTexts (items : List Item) : List String := items.filterMap Item.literal?

@[simp] theorem itemTexts_append (items more : List Item) :
    itemTexts (items ++ more) = itemTexts items ++ itemTexts more :=
  List.filterMap_append

@[simp] theorem itemTexts_literals (texts : List String) :
    itemTexts (texts.map .literal) = texts := by
  rw [itemTexts, List.filterMap_map]
  exact List.filterMap_some

@[simp] theorem itemTexts_declared (name : String) (cells : List Cell) :
    itemTexts (cells.map (.declared name)) = [] := by
  rw [itemTexts, List.filterMap_map]
  exact List.filterMap_eq_nil_iff.mpr fun _ _ => rfl

end Globals

/-! ## Tokens -/

namespace Grammar

open Globals

variable {ts rest : List Located}

theorem IndexAt.texts_eq {i : Option Int32} (h : IndexAt ts i rest) : texts ts = texts rest := by
  cases h <;> rfl

theorem PartAt.texts_eq {part : KeyPart × Position} (h : PartAt ts part rest) :
    texts ts = texts rest := by
  cases h with
  | part index => exact index.texts_eq

theorem PartsAt.texts_eq {parts : List KeyPart} (h : PartsAt ts parts rest) :
    texts ts = texts rest := by
  induction h with
  | nil => rfl
  | cons head _ ih => exact head.texts_eq.trans ih

theorem KeyAt.texts_eq {k : Key} (h : KeyAt ts k rest) : texts ts = texts rest := by
  cases h with
  | key first more => exact first.texts_eq.trans more.texts_eq

theorem texts_constant (c : Constant) (p : Position) (ts : List Located) :
    texts (⟨c.token, p⟩ :: ts) = literals (.constant c) ++ texts ts := by
  rcases c with (_ | _) | _ | _ | _ <;> rfl

mutual

theorem ExpressionAt.texts_eq {level : Option Rank} {ts rest : List Located} {e : Expression} :
    ExpressionAt level ts e rest → texts ts = literals e ++ texts rest
  | .constant => texts_constant ..
  | .key path => path.texts_eq
  | .call called => called.texts_eq
  | .parenthesized inner => inner.texts_eq
  | .not operand => operand.texts_eq
  | .negate operand => operand.texts_eq
  | .single operand => operand.texts_eq
  | .binary _ left right => by
    rw [literals, List.append_assoc, ← right.texts_eq]
    exact left.texts_eq

theorem CallAt.texts_eq {ts rest : List Located} {c : Position × String × List Expression} :
    CallAt ts c rest → texts ts = literalsAll c.2.2 ++ texts rest
  | .call arguments => arguments.texts_eq

theorem ArgumentsAt.texts_eq {ts rest : List Located} {es : List Expression} :
    ArgumentsAt ts es rest → texts ts = literalsAll es ++ texts rest
  | .none => rfl
  | .some first more => by
    rw [literalsAll, List.append_assoc, ← more.texts_eq]
    exact first.texts_eq

theorem FurtherAt.texts_eq {ts rest : List Located} {es : List Expression} :
    FurtherAt ts es rest → texts ts = literalsAll es ++ texts rest
  | .nil => rfl
  | .cons head tail => by
    rw [literalsAll, List.append_assoc, ← tail.texts_eq]
    exact head.texts_eq

end

theorem LineEndAt.texts_eq (h : LineEndAt ts rest) : texts ts = texts rest := by
  cases h <;> rfl

theorem NewlinesAt.texts_eq (h : NewlinesAt ts rest) : texts ts = texts rest := by
  induction h with
  | nil => rfl
  | cons _ ih => exact ih

theorem SimpleAt.texts_eq {s : Statement} (h : SimpleAt ts s rest) :
    texts ts = itemTexts (items s) ++ texts rest := by
  cases h with
  | input target => exact target.texts_eq
  | @declare _ _ _ _ n t _ =>
    rw [items, itemTexts_declared]
    cases t <;> rfl
  | call called =>
    rw [items, itemTexts_literals]
    exact called.texts_eq
  | assign target value =>
    rw [items, itemTexts_literals]
    exact target.texts_eq.trans value.texts_eq
  | output value | printInt value | printReal value =>
    rw [items, itemTexts_literals]
    exact value.texts_eq

mutual

theorem StatementAt.texts_eq {ts rest : List Located} {s : Statement} :
    StatementAt ts s rest → texts ts = itemTexts (items s) ++ texts rest
  | .empty => rfl
  | .line simple lineEnd => lineEnd.texts_eq ▸ simple.texts_eq
  | .ifElse condition newlines thenEnd first second lineEnd => by
    rw [items, itemTexts_append, itemTexts_append, itemTexts_literals, List.append_assoc,
      List.append_assoc, ← lineEnd.texts_eq]
    have upToElse := thenEnd.texts_eq.trans first.texts_eq
    rw [second.texts_eq] at upToElse
    exact condition.texts_eq.trans (congrArg _ (newlines.texts_eq.trans upToElse))
  | .while condition doEnd block lineEnd => by
    rw [items, itemTexts_append, itemTexts_literals, List.append_assoc, ← lineEnd.texts_eq]
    exact condition.texts_eq.trans (congrArg _ (doEnd.texts_eq.trans block.texts_eq))
  | .repeat repeatEnd block condition lineEnd => by
    rw [items, itemTexts_append, itemTexts_literals, List.append_assoc, ← lineEnd.texts_eq,
      ← condition.texts_eq]
    exact repeatEnd.texts_eq.trans block.texts_eq

theorem ElseAt.texts_eq {ts rest : List Located} {b : Option (List Statement)} :
    ElseAt ts b rest → texts ts = itemTexts (itemsElse b) ++ texts rest
  | .none => rfl
  | .some elseEnd block => elseEnd.texts_eq.trans block.texts_eq

/-- The texts among the tokens of a program are its literals. -/
theorem BlockAt.texts_eq {ts rest : List Located} {b : List Statement} :
    BlockAt ts b rest → texts ts = itemTexts (itemsAll b) ++ texts rest
  | .nil => rfl
  | .cons head tail => by
    rw [itemsAll, itemTexts_append, List.append_assoc, ← tail.texts_eq]
    exact head.texts_eq

end

end Grammar

/-! ## Rows -/

namespace Globals

/-- If names are told in advance, a literal that so many others come in front of has its number
    in its name. -/
theorem exists_row {T : Table} {before k : Nat} {text : String}
    (names : T.map (·.2.name) = itemSymbols before (T.map Prod.fst))
    (found : (itemTexts (T.map Prod.fst))[k]? = some text) :
    ∃ g, (.literal text, g) ∈ T ∧ g.name = literalSymbol (before + k) := by
  induction T generalizing before k with
  | nil => cases found
  | cons row T ih =>
    obtain ⟨item, g⟩ := row
    cases item with
    | declared name cell =>
      obtain ⟨own, member, named⟩ := ih (List.cons.inj names).2 found
      exact ⟨own, List.mem_cons_of_mem _ member, named⟩
    | literal first =>
      obtain ⟨name, others⟩ := List.cons.inj names
      cases k with
      | zero =>
        obtain rfl : first = text := Option.some.inj found
        exact ⟨g, List.mem_cons_self, name⟩
      | succ k =>
        obtain ⟨own, member, named⟩ := ih others found
        refine ⟨own, List.mem_cons_of_mem _ member, ?_⟩
        rw [named, Nat.add_right_comm, Nat.add_assoc]

end Globals

end Pseudocode
