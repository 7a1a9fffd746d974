import Pseudocode.Compile
import Pseudocode.Proofs.Parsing.Programs

/-! # Compiling texts

* `parse_eq_ok`: the programs that texts are read as.
* `compile_eq_ok`, `compile_eq_error`: a text becomes a module, or there is an error in its
  characters, in its tokens or in its program.
* `compileToText_eq_ok`: the assembly text is that of the module.
-/

namespace Pseudocode

open Grammar

variable {text : String} {ts : List Located} {p : Program}

theorem parseTokens_eq_ok :
    parseTokens text ts = .ok p ↔ Derives ts p ∧ Program.nesting p ≤ nestingLimit := by
  have read : Program.ofTokens (.ofText text) ts = .ok p ↔ _ :=
    Parser.ofTokens_eq_ok.trans (Parser.statements_eq_ok (Parser.statement_reads nestingLimit))
  rw [← read, parseTokens]
  cases Program.ofTokens (.ofText text) ts with
  | ok q =>
    show (Except.ok q : Except Diagnostic Program) = .ok p ↔ _
    rw [Except.ok.injEq, Except.ok.injEq]
  | error e => exact ⟨nofun, nofun⟩

theorem parseTokens_eq_error {x : Diagnostic} (h : parseTokens text ts = .error x) :
    ∃ e, Program.ofTokens (.ofText text) ts = .error e ∧ x = .parse e := by
  rw [parseTokens] at h
  cases read : Program.ofTokens (.ofText text) ts with
  | ok p => rw [read] at h; cases h
  | error e => rw [read] at h; cases h; exact ⟨e, rfl, rfl⟩

theorem parse_eq_ok : parse text = .ok p ↔
    ∃ ts, tokenize text = .ok ts ∧ Derives ts p ∧ Program.nesting p ≤ nestingLimit := by
  unfold parse
  cases h : tokenize text with
  | ok ts => simp [parseTokens_eq_ok]
  | error e => simp

theorem compile_eq_ok {m : Assembly.Module} :
    (compile text).result = .ok m ↔ ∃ p, parse text = .ok p ∧ (lower p).result = .ok m := by
  unfold compile parse
  cases tokenize text with
  | error e => simp
  | ok ts =>
    dsimp only
    cases parseTokens text ts <;> simp

theorem compile_eq_error {x : Diagnostic} :
    (compile text).result = .error x ↔ (∃ e, tokenize text = .error e ∧ x = .lexical e) ∨
      (∃ ts, tokenize text = .ok ts ∧ parseTokens text ts = .error x) ∨
      ∃ p, parse text = .ok p ∧ (lower p).result = .error x := by
  unfold compile parse
  cases tokenize text with
  | error e => simp [eq_comm]
  | ok ts =>
    dsimp only
    cases h : parseTokens text ts <;> simp [h]

theorem compileToText_eq_ok {ir : String} :
    compileToText text = .ok ir ↔ ∃ m, (compile text).result = .ok m ∧ m.text = ir := by
  unfold compileToText
  cases (compile text).result <;> simp [Except.map]

end Pseudocode
