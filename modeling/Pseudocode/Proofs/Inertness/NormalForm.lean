import Pseudocode.Lowering.Statement

/-! # What matters of a program

Much of what a program is written with has no effect. What remains is its normal form.

* `Program.normalize`: the program without places, empty lines, declarations of custom types,
  parentheses and the tails of paths, and with an alternative for every IF.
* `Diagnostic.unplaced`: an error without its places.
* `DifferInPlaces`: the texts are the same but for the places that they quote. So are the
  messages of errors that are the same without places (`Diagnostic.message_differ`).
-/

namespace Pseudocode

/-! ## Normal forms -/

/-- The first name of the path, without an index. -/
def Key.normalize (k : Key) : Key :=
  ⟨.nowhere, (k.path.take 1).map fun part => ⟨part.name, none⟩⟩

theorem Key.root_normalize (k : Key) : k.normalize.root = k.root := by
  obtain ⟨pos, path⟩ := k
  cases path <;> rfl

mutual

/-- The tree of operators that the expression denotes. -/
def Expression.normalize : Expression → Expression
  | .constant c => .constant c
  | .key k => .key k.normalize
  | .call _ name args => .call .nowhere name (Expression.normalizeAll args)
  | .parenthesized e => e.normalize
  | .not _ e => .not .nowhere e.normalize
  | .negate _ e => .negate .nowhere e.normalize
  | .binary op _ lhs rhs => .binary op .nowhere lhs.normalize rhs.normalize

def Expression.normalizeAll : List Expression → List Expression
  | [] => []
  | e :: es => e.normalize :: Expression.normalizeAll es

end

mutual

/-- The statement, or nothing if it has no effect. -/
def Statement.normalize : Statement → List Statement
  | .output _ e => [.output .nowhere e.normalize]
  | .input _ k => [.input .nowhere k.normalize]
  | .declare _ _ (.custom _) => []
  | .declare _ name type => [.declare .nowhere name type]
  | .assign _ k e => [.assign .nowhere k.normalize e.normalize]
  | .printInt _ e => [.printInt .nowhere e.normalize]
  | .printReal _ e => [.printReal .nowhere e.normalize]
  | .ifElse _ e thenBranch none =>
    [.ifElse .nowhere e.normalize (Program.normalize thenBranch) (some [])]
  | .ifElse _ e thenBranch (some elseBranch) =>
    [.ifElse .nowhere e.normalize (Program.normalize thenBranch)
      (some (Program.normalize elseBranch))]
  | .while _ e body => [.while .nowhere e.normalize (Program.normalize body)]
  | .repeat _ body e => [.repeat .nowhere (Program.normalize body) e.normalize]
  | .call _ _ name args => [.call .nowhere .nowhere name (Expression.normalizeAll args)]
  | .empty _ => []

def Program.normalize : List Statement → List Statement
  | [] => []
  | s :: rest => s.normalize ++ Program.normalize rest

end

/-! ## Errors without places -/

/-- The texts are the same but for the places that are quoted in them. -/
inductive DifferInPlaces : String → String → Prop where
  | same (s : String) : DifferInPlaces s s
  | place (p q : Position) : DifferInPlaces p.text q.text
  | append {s s' t t' : String} (front : DifferInPlaces s s') (back : DifferInPlaces t t') :
      DifferInPlaces (s ++ t) (s' ++ t')

/-- What an error is about, as far as the compiler tells it by the type of the error. -/
inductive Variant where
  | lexical | parse | resolution | type | consistency
deriving DecidableEq

namespace Diagnostic

def variant : Diagnostic → Variant
  | .lexical _ => .lexical
  | .parse _ => .parse
  | .resolution _ _ => .resolution
  | .type _ _ => .type
  | .consistency _ => .consistency

def kind? : Diagnostic → Option ResolutionKind
  | .resolution _ fault => some fault.kind
  | _ => none

end Diagnostic

def ResolutionFault.unplaced : ResolutionFault → ResolutionFault
  | .redefined what name previous => .redefined what name (previous.map fun _ => .nowhere)
  | fault => fault

/-- An error that the lowering can come to, without the places in it. -/
def Diagnostic.unplaced : Diagnostic → Diagnostic
  | .resolution _ fault => .resolution .nowhere fault.unplaced
  | .type _ fault => .type .nowhere fault
  | x => x

theorem ResolutionFault.kind_unplaced (fault : ResolutionFault) : fault.unplaced.kind = fault.kind := by
  cases fault with
  | redefined what name previous => cases what <;> rfl
  | _ => rfl

/-- Faults that are the same without places are the same, or both tell of an earlier declaration. -/
theorem ResolutionFault.of_unplaced_eq {fault fault' : ResolutionFault}
    (same : fault.unplaced = fault'.unplaced) : fault = fault' ∨ ∃ what name p q,
      fault = .redefined what name (some p) ∧ fault' = .redefined what name (some q) := by
  cases fault with
  | redefined what name previous =>
    cases fault' with
    | redefined what' name' previous' =>
      simp only [unplaced, redefined.injEq] at same
      obtain ⟨rfl, rfl, known⟩ := same
      cases previous with
      | none => exact .inl (by rw [Option.map_eq_none_iff.mp known.symm])
      | some p =>
        obtain ⟨q, rfl, _⟩ := Option.map_eq_some_iff.mp known.symm
        exact .inr ⟨what, name, p, q, rfl, rfl⟩
    | _ => cases same
  | _ =>
    cases fault' <;> cases same
    exact .inl rfl

theorem ResolutionFault.message_differ {fault fault' : ResolutionFault}
    (same : fault.unplaced = fault'.unplaced) : DifferInPlaces fault.message fault'.message := by
  rcases of_unplaced_eq same with rfl | ⟨what, name, p, q, rfl, rfl⟩
  · exact .same _
  · unfold message
    exact .append (.append (.same _) (.append (.same _) (.place p q))) (.same _)

namespace Diagnostic

variable {x y : Diagnostic}

theorem variant_unplaced (x : Diagnostic) : x.unplaced.variant = x.variant := by
  cases x <;> rfl

theorem kind?_unplaced (x : Diagnostic) : x.unplaced.kind? = x.kind? := by
  cases x with
  | resolution pos fault => exact congrArg some fault.kind_unplaced
  | _ => rfl

/-- Errors that are the same without places have messages that differ in places only. -/
theorem message_differ (same : x.unplaced = y.unplaced) : DifferInPlaces x.message y.message := by
  cases x with
  | resolution pos fault =>
    cases y with
    | resolution pos' fault' =>
      injection same with _ same
      have kinds : fault.kind = fault'.kind := by
        rw [← fault.kind_unplaced, same, fault'.kind_unplaced]
      unfold message
      dsimp only
      rw [kinds]
      exact .append (.append (.append (.same _) (.place pos pos')) (.same _))
        (ResolutionFault.message_differ same)
    | _ => cases same
  | type pos fault =>
    cases y with
    | type pos' fault' =>
      injection same with _ same
      subst same
      unfold message
      exact .append (.append (.append (.same _) (.place pos pos')) (.same _)) (.same _)
    | _ => cases same
  | _ =>
    cases y <;> cases same
    exact .same _

end Diagnostic

end Pseudocode
