import Pseudocode.Proofs.Inertness.Lowering
import Pseudocode.Proofs.Lowering.Discipline
import Pseudocode.Proofs.Parsing.Relocation
import Pseudocode.Proofs.Parsing.Texts
import Pseudocode.Proofs.Scanning.Tokens

/-! # What is between the tokens has no effect

* `parseTokens_same`: the same tokens at other places are a program with the same normal form, or
  no program either.
* `inert_syntax_has_no_effect`: neither what a normal form leaves out nor the places of tokens
  change what a program or a text becomes.
-/

namespace Pseudocode

open Assembly Grammar Lowering Typing

/-! ## Relocated programs -/

section

variable (f : Position → Position)

theorem Key.normalize_relocate (k : Key) : (k.relocate f).normalize = k.normalize := rfl

mutual

theorem Expression.normalize_relocate : (e : Expression) → (e.relocate f).normalize = e.normalize
  | .constant _ => rfl
  | .key _ => rfl
  | .call _ name args =>
    congrArg (Expression.call .nowhere name) (Expression.normalizeAll_relocateAll args)
  | .parenthesized e => e.normalize_relocate
  | .not _ e => congrArg (Expression.not .nowhere) e.normalize_relocate
  | .negate _ e => congrArg (Expression.negate .nowhere) e.normalize_relocate
  | .binary op _ lhs rhs =>
    congrArg₂ (Expression.binary op .nowhere) lhs.normalize_relocate rhs.normalize_relocate

theorem Expression.normalizeAll_relocateAll : (es : List Expression) →
    Expression.normalizeAll (Expression.relocateAll f es) = Expression.normalizeAll es
  | [] => rfl
  | e :: es => congrArg₂ List.cons e.normalize_relocate (Expression.normalizeAll_relocateAll es)

theorem Expression.nesting_relocate : (e : Expression) → (e.relocate f).nesting = e.nesting
  | .constant _ => rfl
  | .key _ => rfl
  | .call _ _ args => argumentNesting_relocateAll args
  | .parenthesized e => congrArg (· + 1) e.nesting_relocate
  | .not _ e => congrArg (· + 1) e.nesting_relocate
  | .negate _ e => congrArg (· + 1) e.nesting_relocate
  | .binary _ _ lhs rhs => congrArg₂ max lhs.nesting_relocate rhs.nesting_relocate

theorem argumentNesting_relocateAll : (es : List Expression) →
    argumentNesting (Expression.relocateAll f es) = argumentNesting es
  | [] => rfl
  | e :: es =>
    congrArg₂ (fun m n => max (m + 1) n) e.nesting_relocate (argumentNesting_relocateAll es)

end

mutual

theorem Statement.normalize_relocate : (s : Statement) → (s.relocate f).normalize = s.normalize
  | .output _ e => by simp [Statement.relocate, Statement.normalize, e.normalize_relocate f]
  | .input _ _ => rfl
  | .declare _ _ type => by cases type <;> rfl
  | .assign _ k e => by
    simp [Statement.relocate, Statement.normalize, e.normalize_relocate f, k.normalize_relocate f]
  | .printInt _ e => by simp [Statement.relocate, Statement.normalize, e.normalize_relocate f]
  | .printReal _ e => by simp [Statement.relocate, Statement.normalize, e.normalize_relocate f]
  | .ifElse _ e thenBranch none => by
    simp [Statement.relocate, Program.relocateElse, Statement.normalize, e.normalize_relocate f,
      Program.normalize_relocate thenBranch]
  | .ifElse _ e thenBranch (some elseBranch) => by
    simp [Statement.relocate, Program.relocateElse, Statement.normalize, e.normalize_relocate f,
      Program.normalize_relocate thenBranch, Program.normalize_relocate elseBranch]
  | .while _ e body => by
    simp [Statement.relocate, Statement.normalize, e.normalize_relocate f,
      Program.normalize_relocate body]
  | .repeat _ body e => by
    simp [Statement.relocate, Statement.normalize, e.normalize_relocate f,
      Program.normalize_relocate body]
  | .call _ _ name args => by
    simp [Statement.relocate, Statement.normalize, Expression.normalizeAll_relocateAll f args]
  | .empty _ => rfl

theorem Program.normalize_relocate : (p : List Statement) →
    Program.normalize (Program.relocate f p) = Program.normalize p
  | [] => rfl
  | s :: rest => congrArg₂ (· ++ ·) s.normalize_relocate (Program.normalize_relocate rest)

end

mutual

theorem Statement.nesting_relocate : (s : Statement) → (s.relocate f).nesting = s.nesting
  | .output _ e => e.nesting_relocate f
  | .input _ _ => rfl
  | .declare _ _ _ => rfl
  | .assign _ _ e => e.nesting_relocate f
  | .printInt _ e => e.nesting_relocate f
  | .printReal _ e => e.nesting_relocate f
  | .ifElse _ e thenBranch elseBranch => by
    simp only [Statement.relocate, Statement.nesting, e.nesting_relocate f,
      Program.nesting_relocate thenBranch, elseNesting_relocateElse elseBranch]
  | .while _ e body => by
    simp only [Statement.relocate, Statement.nesting, e.nesting_relocate f,
      Program.nesting_relocate body]
  | .repeat _ body e => by
    simp only [Statement.relocate, Statement.nesting, e.nesting_relocate f,
      Program.nesting_relocate body]
  | .call _ _ _ args => argumentNesting_relocateAll f args
  | .empty _ => rfl

theorem elseNesting_relocateElse : (b : Option (List Statement)) →
    elseNesting (Program.relocateElse f b) = elseNesting b
  | none => rfl
  | some b => Program.nesting_relocate b

theorem Program.nesting_relocate : (p : List Statement) →
    Program.nesting (Program.relocate f p) = Program.nesting p
  | [] => rfl
  | s :: rest => congrArg₂ max s.nesting_relocate (Program.nesting_relocate rest)

end

end

/-! ## Texts -/

variable {a b : String} {ts us : List Located}

/-- The places in the second list are a function of those in the first one, as no two tokens of a
    text have one place. Nesting is bounded, so the relocated program is read only because it is
    nested as deep. -/
theorem parseTokens_same_ok (apart : (ts.map (·.pos)).Nodup)
    (same : ts.map (·.token) = us.map (·.token)) {p : Program} (read : parseTokens a ts = .ok p) :
    ∃ q, parseTokens b us = .ok q ∧ Program.normalize p = Program.normalize q := by
  obtain ⟨derived, shallow⟩ := parseTokens_eq_ok.mp read
  obtain ⟨f, rfl⟩ := exists_relocate apart same
  refine ⟨Program.relocate f p, parseTokens_eq_ok.mpr ⟨derived.relocate, ?_⟩, ?_⟩
  · rwa [Program.nesting_relocate]
  · rw [Program.normalize_relocate]

theorem tokenize_apart (tokenized : tokenize a = .ok ts) : (ts.map (·.pos)).Nodup := by
  obtain ⟨pieces, _, yields⟩ := (Scanning.tokenize_accepts a ts).mp tokenized
  refine (List.pairwise_map.mpr (yields.sorted.imp fun {t u} before same => ?_))
  rw [same] at before
  exact Nat.lt_irrefl _ before

theorem parseTokens_same (first : tokenize a = .ok ts) (second : tokenize b = .ok us)
    (same : ts.map (·.token) = us.map (·.token)) :
    (∃ p q, parseTokens a ts = .ok p ∧ parseTokens b us = .ok q ∧
      Program.normalize p = Program.normalize q) ∨
    ∃ e e', parseTokens a ts = .error (.parse e) ∧ parseTokens b us = .error (.parse e') := by
  cases read : parseTokens a ts with
  | ok p =>
    obtain ⟨q, read', alike⟩ := parseTokens_same_ok (b := b) (tokenize_apart first) same read
    exact .inl ⟨p, q, rfl, read', alike⟩
  | error x =>
    obtain ⟨e, _, rfl⟩ := parseTokens_eq_error read
    cases read' : parseTokens b us with
    | ok q =>
      obtain ⟨p, accepted, _⟩ := parseTokens_same_ok (b := a) (tokenize_apart second) same.symm read'
      rw [read] at accepted
      cases accepted
    | error y =>
      obtain ⟨e', _, rfl⟩ := parseTokens_eq_error read'
      exact .inr ⟨e, e', rfl, rfl⟩

theorem compileToText_of_parseTokens {p : Program} (tokenized : tokenize a = .ok ts)
    (read : parseTokens a ts = .ok p) :
    compileToText a = (lower p).result.map Module.text := by
  simp only [compileToText, compile, tokenized, read]

theorem compileToText_of_parse_error {x : Diagnostic} (tokenized : tokenize a = .ok ts)
    (read : parseTokens a ts = .error x) : compileToText a = .error x := by
  simp only [compileToText, compile, tokenized, read, Except.map]

/-- Programs with one normal form become modules with the same globals and functions, or are
    refused with errors of one variant and one sort, the messages of which differ in places only.
    So it does not matter for the text of a module what stands between the tokens of a program,
    nor for the variant of the error if there is one. -/
theorem inert_syntax_has_no_effect :
    (∀ p q : Program, Program.normalize p = Program.normalize q →
      (∃ m n, (lower p).result = .ok m ∧ (lower q).result = .ok n ∧
        m.globals = n.globals ∧ m.functions = n.functions) ∨
      ∃ e e', (lower p).result = .error e ∧ (lower q).result = .error e' ∧
        e.variant = e'.variant ∧ e.kind? = e'.kind? ∧ DifferInPlaces e.message e'.message) ∧
    ∀ a b ts us, tokenize a = .ok ts → tokenize b = .ok us →
      ts.map (·.token) = us.map (·.token) →
      (∃ text, compileToText a = .ok text ∧ compileToText b = .ok text) ∨
      ∃ e e', compileToText a = .error e ∧ compileToText b = .error e' ∧
        e.variant = e'.variant := by
  constructor
  · intro p q same
    obtain ⟨m, first, second⟩ | ⟨e, e', first, second, alike⟩ := lower_same same
    · exact .inl ⟨m, m, first, second, rfl, rfl⟩
    · refine .inr ⟨e, e', first, second, ?_, ?_, e.message_differ alike⟩
      · rw [← e.variant_unplaced, alike, e'.variant_unplaced]
      · rw [← e.kind?_unplaced, alike, e'.kind?_unplaced]
  · intro a b ts us first second same
    obtain ⟨p, q, read, read', alike⟩ | ⟨e, e', read, read'⟩ := parseTokens_same first second same
    · rw [compileToText_of_parseTokens first read, compileToText_of_parseTokens second read']
      obtain ⟨m, lowered, lowered'⟩ | ⟨e, e', lowered, lowered', alike⟩ := lower_same alike
      · exact .inl ⟨m.text, by rw [lowered]; rfl, by rw [lowered']; rfl⟩
      · refine .inr ⟨e, e', by rw [lowered]; rfl, by rw [lowered']; rfl, ?_⟩
        rw [← e.variant_unplaced, alike, e'.variant_unplaced]
    · exact .inr ⟨.parse e, .parse e', compileToText_of_parse_error first read,
        compileToText_of_parse_error second read', rfl⟩

/-- A program with an empty line, a custom type, a path, parentheses and no alternative. -/
def verbose : Program :=
  [.empty ⟨0, 1, 1⟩, .declare ⟨1, 2, 1⟩ "n" .int, .declare ⟨15, 3, 1⟩ "r" (.custom "Record"),
    .ifElse ⟨34, 4, 1⟩
      (.parenthesized (.binary (.compare .eq) ⟨53, 4, 20⟩
        (.key ⟨⟨38, 4, 5⟩, [⟨"n", some 3⟩, ⟨"field", none⟩]⟩) (.constant (.integer 1))))
      [.empty ⟨60, 5, 1⟩, .printInt ⟨61, 6, 1⟩ (valueOf "n")] none]

/-- What has an effect in it. -/
def terse : Program :=
  [.declare .nowhere "n" .int,
    .ifElse .nowhere (.binary (.compare .eq) .nowhere (valueOf "n") (.constant (.integer 1)))
      [.printInt .nowhere (valueOf "n")] (some [])]

/-- Both programs are lowered. Repeated, they declare a variable twice, and the errors tell of the
    first declaration at different places. -/
theorem verbose_and_terse :
    (∃ m n, (lower verbose).result = .ok m ∧ (lower terse).result = .ok n ∧
      m.globals = n.globals ∧ m.functions = n.functions) ∧
    (∃ e e', (lower (verbose ++ verbose)).result = .error e ∧
      (lower (terse ++ terse)).result = .error e' ∧ e ≠ e' ∧
      e.kind? = some .variableRedefinition ∧ e'.kind? = some .variableRedefinition ∧
      DifferInPlaces e.message e'.message) ∧
    ((∃ text, compileToText "OUTPUT \"a\"" = .ok text ∧
        compileToText "OUTPUT\t\"a\" // a" = .ok text) ∨
      ∃ e e', compileToText "OUTPUT \"a\"" = .error e ∧
        compileToText "OUTPUT\t\"a\" // a" = .error e' ∧ e.variant = e'.variant) := by
  obtain ⟨programs, texts⟩ := inert_syntax_has_no_effect
  refine ⟨?_, ?_, ?_⟩
  · obtain ⟨m, lowered⟩ := exists_module (p := verbose) ⟨_, rfl⟩
    obtain same | ⟨e, e', refused, _⟩ := programs verbose terse rfl
    · exact same
    · rw [lowered] at refused
      cases refused
  · have refused : (lower (verbose ++ verbose)).result = .error _ := lower_eq_error.mpr rfl
    have refused' : (lower (terse ++ terse)).result = .error _ := lower_eq_error.mpr rfl
    obtain ⟨m, n, accepted, _⟩ | ⟨e, e', first, second, _, _, messages⟩ :=
      programs (verbose ++ verbose) (terse ++ terse) rfl
    · rw [refused] at accepted
      cases accepted
    · cases refused.symm.trans first
      cases refused'.symm.trans second
      exact ⟨_, _, refused, refused', by decide, rfl, rfl, messages⟩
  · exact texts "OUTPUT \"a\"" "OUTPUT\t\"a\" // a" _ _
      (Scanning.tokenize_eq_ok.mpr ⟨rfl, by decide +kernel⟩)
      (Scanning.tokenize_eq_ok.mpr ⟨rfl, by decide +kernel⟩) (by decide +kernel)

end Pseudocode
