import Pseudocode.Proofs.Inertness.Reading
import Pseudocode.Proofs.LineEndings.Scanning

/-! # What line endings change

A text and the same text with carriage returns become the same module, or are refused for the same
reason on the same line. The column is the same as well, unless an error of the parser is told of
the end of a line behind a comment. There it is one more, since the comment takes the carriage
return.

* `context_placed`: the line around a place is the same.
* `ofFault_crlf`: an error of the parser is the same, but for its place.
* `checkAll_shift`: the places of empty statements do not matter for the rules.
* `compileToText_crlf`: what a text with carriage returns becomes.
* `column_behind_comment`: the column is not always the same.
-/

namespace Pseudocode

open Grammar Lowering Scanning Text Typing

variable {text : String}

/-! ## Places -/

/-- Of two fronts of a text that have as many bytes, none is longer. -/
theorem append_inj_of_byteCount {s s' t t' : List Char} (whole : s ++ t = s' ++ t')
    (same : byteCount s = byteCount s') : s = s' ∧ t = t' := by
  have length : s.length = s'.length := by
    have counted := charCount?_append s t
    rw [whole, same, charCount?_append] at counted
    exact (Option.some.inj counted).symm
  exact List.append_inj whole length

theorem BehindComment.head?_eq {before after : List Char} (split : text.toList = before ++ after)
    (behind : BehindComment text (Position.start.after before)) : after.head? = some '\n' := by
  obtain ⟨pieces, rest, cuts, _, same⟩ := behind
  have bytes := congrArg Position.offset same
  rw [Position.offset_after, Position.offset_after] at bytes
  obtain ⟨-, rfl⟩ := append_inj_of_byteCount (split.symm.trans cuts.flatten_append.symm)
    (Nat.add_left_cancel bytes)
  rfl

theorem context_placed {before after : List Char} (split : text.toList = before ++ after) :
    (Lines.ofText (crlf text)).context (placed text (Position.start.after before)).offset =
      (Lines.ofText text).context (Position.start.after before).offset := by
  rw [(standsAt_after split).context_eq]
  by_cases behind : BehindComment text (Position.start.after before)
  · obtain ⟨after, rfl⟩ := List.head?_eq_some_iff.mp (behind.head?_eq split)
    have there : (crlf text).toList =
        (withReturns before ++ ['\r']) ++ '\n' :: withReturns after := by
      rw [toList_crlf, split, withReturns_append, withReturns_feed, List.append_assoc]
      rfl
    have place : placed text (Position.start.after before) =
        Position.start.after (withReturns before ++ ['\r']) := by
      rw [placed_behind behind, Position.after_append, Position.start_after_withReturns]
      rfl
    rw [place, (standsAt_after there).context_eq, lineText_feed]
  · have there : (crlf text).toList = withReturns before ++ withReturns after := by
      rw [toList_crlf, split, withReturns_append]
    rw [placed_elsewhere behind, ← Position.start_after_withReturns,
      (standsAt_after there).context_eq, lineText_withReturns]

section

variable {ts : List Located}

/-- Only the end of a line can stand right behind a comment. -/
theorem not_behindComment {t : Located} (tokenized : tokenize text = .ok ts) (member : t ∈ ts)
    (other : t.token ≠ .newline) : ¬ BehindComment text t.pos := by
  intro behind
  obtain ⟨pieces, cuts, yields⟩ := (tokenize_accepts text ts).mp tokenized
  obtain ⟨front, piece, back, rfl, read, place⟩ := yields.exists_piece t member
  have split := cuts.flatten_append.symm
  rw [List.append_nil, List.flatten_append, List.flatten_cons] at split
  have head := BehindComment.head?_eq split (place ▸ behind)
  obtain ⟨r, admitted⟩ := read.exists_matches
  obtain ⟨c, s, rfl⟩ := List.exists_cons_of_ne_nil admitted.ne_nil
  obtain rfl : c = '\n' := Option.some.inj head
  exact read.noFeed (fun same => other (Option.some.inj same)) List.mem_cons_self

theorem pos_shift {t : Located} (tokenized : tokenize text = .ok ts) (member : t ∈ ts) :
    (t.shift Position.returned (placed text)).pos = placed text t.pos := by
  obtain ⟨token, pos⟩ := t
  by_cases newline : token = .newline
  · subst newline
    rfl
  · rw [Located.shift_of_ne _ _ newline,
      placed_elsewhere (not_behindComment tokenized member newline)]

theorem tokenize_crlf (noReturn : '\r' ∉ text.toList) (tokenized : tokenize text = .ok ts) :
    tokenize (crlf text) = .ok (ts.map (Located.shift Position.returned (placed text))) := by
  obtain ⟨rfl, finished⟩ := tokenize_eq_ok.mp tokenized
  obtain ⟨tokens, rejected⟩ := scan_crlf noReturn
  rw [finished] at rejected
  exact tokenize_eq_ok.mpr ⟨tokens, Option.map_eq_none_iff.mp rejected⟩

/-! ## Parse errors -/

/-- A fault is told of the same line in the same words, but of the place that `placed` tells. -/
theorem ofFault_crlf (tokenized : tokenize text = .ok ts) (fault : ParseFault)
    {taken rest : List Located} (split : ts = taken ++ rest) :
    ParseError.ofFault (.ofText (crlf text)) fault
        (rest.map (Located.shift Position.returned (placed text))) =
      let e := ParseError.ofFault (.ofText text) fault rest
      { e with pos := placed text e.pos } := by
  cases rest with
  | nil =>
    have finish : ¬ BehindComment text (Position.start.after text.toList) := fun behind =>
      nomatch behind.head?_eq (List.append_nil _).symm
    have context := context_placed (List.append_nil text.toList).symm
    simp only [ParseError.ofFault, List.map_nil, Lines.endPosition_ofText]
    rw [toList_crlf, Position.start_after_withReturns, ← placed_elsewhere finish, context]
  | cons t rest =>
    have member : t ∈ ts := split ▸ List.mem_append_right _ List.mem_cons_self
    obtain ⟨before, after, stands⟩ :=
      stands_of_mem_scan ((scan_of_tokenize tokenized).symm ▸ member)
    have context := context_placed stands.split
    rw [← stands.eq_after] at context
    simp only [ParseError.ofFault, List.map_cons, List.head?_cons, Option.map_some,
      Located.token_shift, pos_shift tokenized member, context]

theorem parseTokens_crlf_ok {p : Program} (read : parseTokens text ts = .ok p) :
    parseTokens (crlf text) (ts.map (Located.shift Position.returned (placed text))) =
      .ok (Program.shift Position.returned (placed text) p) := by
  have accepted : Program.ofTokens (.ofText text) ts = .ok p := by
    rw [parseTokens] at read
    cases outcome : Program.ofTokens (.ofText text) ts with
    | ok q => rw [outcome] at read; exact congrArg _ (Except.ok.inj read)
    | error e => rw [outcome] at read; cases read
  obtain ⟨rest, done⟩ := Parser.ofTokens_eq_ok.mp accepted
  have shifted := Parser.program_shifts (f := Position.returned) (g := placed text)
    (fun _ => rfl) ts
  rw [done] at shifted
  rw [parseTokens, Parser.ofTokens_eq_ok.mpr ⟨_, shifted⟩]
  rfl

theorem parseTokens_crlf_error {e : ParseError} (tokenized : tokenize text = .ok ts)
    (failed : parseTokens text ts = .error (.parse e)) :
    parseTokens (crlf text) (ts.map (Located.shift Position.returned (placed text))) =
      .error (.parse { e with pos := placed text e.pos }) := by
  obtain ⟨e, stopped, same⟩ := parseTokens_eq_error failed
  obtain rfl := Diagnostic.parse.inj same
  obtain ⟨fault, rest, found, rfl⟩ := Parser.ofTokens_eq_error.mp stopped
  obtain ⟨taken, split, _⟩ := Parser.program_foresight.error found
  have shifted := Parser.program_shifts (f := Position.returned) (g := placed text)
    (fun _ => rfl) ts
  rw [found] at shifted
  rw [parseTokens, Parser.ofTokens_eq_error.mpr ⟨_, _, shifted, rfl⟩,
    ofFault_crlf tokenized fault split]
  rfl

end

/-! ## Shifted programs -/

section

variable {f g : Position → Position}

mutual

/-- The places of empty statements do not matter. -/
theorem check_shift (Γ : Env) : (s : Statement) →
    check Γ (s.shift f g) = check Γ (s.relocate f)
  | .ifElse _ _ thenBranch none => by
    simp only [Statement.shift, Statement.relocate, Program.shiftElse, Program.relocateElse, check,
      checkAll_shift _ thenBranch]
  | .ifElse _ _ thenBranch (some elseBranch) => by
    simp only [Statement.shift, Statement.relocate, Program.shiftElse, Program.relocateElse, check,
      checkAll_shift _ thenBranch, checkAll_shift _ elseBranch]
  | .while _ _ body => by
    simp only [Statement.shift, Statement.relocate, check, checkAll_shift _ body]
  | .repeat _ body _ => by
    simp only [Statement.shift, Statement.relocate, check, checkAll_shift _ body]
  | .output _ _ | .input _ _ | .declare _ _ _ | .assign _ _ _ | .printInt _ _ | .printReal _ _
  | .call _ _ _ _ | .empty _ => rfl

theorem checkAll_shift (Γ : Env) : (ss : List Statement) →
    checkAll Γ (Program.shift f g ss) = checkAll Γ (Program.relocate f ss)
  | [] => rfl
  | s :: rest => by
    simp only [Program.shift, Program.relocate, checkAll, check_shift _ s, checkAll_shift _ rest]

end

/-- A shifted program breaks the same rule. -/
theorem lower_shift {p : Program} {x : Diagnostic} (refused : (lower p).result = .error x) :
    (lower (Program.shift f g p)).result = .error (x.relocate f) := by
  have checked := checkAll_relocate (f := f) Env.initial p
  rw [lower_eq_error.mp refused, show Env.initial.relocate f = Env.initial from rfl] at checked
  exact lower_eq_error.mpr ((checkAll_shift _ p).trans checked)

end

/-! ## Errors -/

namespace Diagnostic

/-- The line of the text that is shown with the error. -/
def context? : Diagnostic → Option String
  | .lexical e => some e.context
  | .parse e => some e.context
  | _ => none

/-- The same is told of both texts. If a piece of them is no token, its text need not be the same,
    but its place is. -/
structure ToldTheSame (e e' : Diagnostic) : Prop where
  variant : e'.variant = e.variant
  kind : e'.kind? = e.kind?
  place : ∃ p p', e.pos? = some p ∧ e'.pos? = some p' ∧ p'.line = p.line ∧ p'.column = p.column
  message : e.variant ≠ .lexical → e'.message = e.message
  context : e.variant ≠ .lexical → e'.context? = e.context?

theorem kind_relocate (fault : ResolutionFault) (f : Position → Position) :
    (fault.relocate f).kind = fault.kind := by
  cases fault with
  | redefined what name previous => cases what <;> rfl
  | _ => rfl

/-- A place is quoted by its line and its column. -/
theorem message_relocate {x : Diagnostic} (breach : Breach x) :
    (x.relocate Position.returned).message = x.message := by
  obtain ⟨pos, fault, rfl⟩ | ⟨pos, fault, rfl⟩ := breach
  · cases fault with
    | redefined what name previous => cases what <;> cases previous <;> rfl
    | _ => rfl
  · rfl

theorem toldTheSame_relocate {x : Diagnostic} (breach : Breach x) :
    x.ToldTheSame (x.relocate Position.returned) := by
  have message := message_relocate breach
  obtain ⟨pos, fault, rfl⟩ | ⟨pos, fault, rfl⟩ := breach
  · exact ⟨rfl, congrArg some (kind_relocate fault _), ⟨pos, pos.returned, rfl, rfl, rfl, rfl⟩,
      fun _ => message, fun _ => rfl⟩
  · exact ⟨rfl, rfl, ⟨pos, pos.returned, rfl, rfl, rfl, rfl⟩, fun _ => message, fun _ => rfl⟩

theorem toldTheSame_lexical {e e' : LexicalError} (place : e'.pos = e.pos.returned) :
    (Diagnostic.lexical e).ToldTheSame (.lexical e') :=
  ⟨rfl, rfl, ⟨e.pos, e'.pos, rfl, rfl, by rw [place]; rfl, by rw [place]; rfl⟩,
    fun other => absurd rfl other, fun other => absurd rfl other⟩

theorem toldTheSame_parse (e : ParseError) :
    (Diagnostic.parse e).ToldTheSame (.parse { e with pos := e.pos.returned }) :=
  ⟨rfl, rfl, ⟨e.pos, e.pos.returned, rfl, rfl, rfl, rfl⟩, fun _ => rfl, fun _ => rfl⟩

end Diagnostic

/-! ## Texts -/

theorem tokenize_crlf_error {e : LexicalError} (noReturn : '\r' ∉ text.toList)
    (rejected : tokenize text = .error e) :
    ∃ e', tokenize (crlf text) = .error e' ∧ e'.pos = e.pos.returned := by
  obtain ⟨pos, lexeme, stopped, rfl⟩ := tokenize_eq_error.mp rejected
  have same := (scan_crlf noReturn).rejected
  rw [stopped] at same
  obtain ⟨⟨pos', lexeme'⟩, stopped', place⟩ := Option.map_eq_some_iff.mp same
  exact ⟨_, tokenize_eq_error.mpr ⟨pos', lexeme', stopped', rfl⟩, place⟩

theorem compileToText_of_lexical_error {e : LexicalError} (rejected : tokenize text = .error e) :
    compileToText text = .error (.lexical e) := by
  simp only [compileToText, compile, rejected, Except.map]

/-- The modules have the same text, or the programs break the same rule. Empty lines have no
    effect, and neither have places. -/
theorem compileToText_crlf_of_parse {ts : List Located} {p : Program}
    (noReturn : '\r' ∉ text.toList) (tokenized : tokenize text = .ok ts)
    (read : parseTokens text ts = .ok p) :
    (∃ ir, compileToText text = .ok ir ∧ compileToText (crlf text) = .ok ir) ∨
      ∃ x, Breach x ∧ compileToText text = .error x ∧
        compileToText (crlf text) = .error (x.relocate Position.returned) := by
  have tokenized' := tokenize_crlf noReturn tokenized
  have read' := parseTokens_crlf_ok read
  rw [compileToText_of_parseTokens tokenized read, compileToText_of_parseTokens tokenized' read']
  cases lowered : (lower p).result with
  | error x =>
    refine .inr ⟨x, Breaches.checkAll Env.initial p x (lower_eq_error.mp lowered), rfl, ?_⟩
    rw [lower_shift lowered]
    rfl
  | ok m =>
    left
    have tokens : ts.map (·.token) =
        (ts.map (Located.shift Position.returned (placed text))).map (·.token) := by
      rw [List.map_map]
      exact List.map_congr_left fun t _ => (t.token_shift _ _).symm
    obtain ⟨q, accepted, alike⟩ :=
      parseTokens_same_ok (b := crlf text) (tokenize_apart tokenized) tokens read
    obtain rfl := Except.ok.inj (read'.symm.trans accepted)
    obtain ⟨n, first, second⟩ | ⟨e, _, refused, _⟩ := lower_same alike
    · rw [lowered] at first
      obtain rfl := Except.ok.inj first
      exact ⟨m.text, rfl, by rw [second]; rfl⟩
    · rw [lowered] at refused
      cases refused

/-- A text without carriage returns and the same text with one in front of each line feed become
    the same module, or for both the same error is told. Only an error of the parser at the end of a
    line behind a comment is told one column further, and that is all that differs. -/
theorem compileToText_crlf (text : String) (noReturn : '\r' ∉ text.toList) :
    (∃ ir, compileToText text = .ok ir ∧ compileToText (crlf text) = .ok ir) ∨
      ∃ x x', compileToText text = .error x ∧ compileToText (crlf text) = .error x' ∧
        (∀ e, x = .parse e → BehindComment text e.pos →
          x' = .parse { e with pos := e.pos.returned.advance '\r' }) ∧
        ((∀ e, x = .parse e → ¬ BehindComment text e.pos) → x.ToldTheSame x') := by
  cases tokenized : tokenize text with
  | error e =>
    obtain ⟨e', rejected, place⟩ := tokenize_crlf_error noReturn tokenized
    exact .inr ⟨_, _, compileToText_of_lexical_error tokenized,
      compileToText_of_lexical_error rejected, nofun, fun _ => Diagnostic.toldTheSame_lexical place⟩
  | ok ts =>
    cases read : parseTokens text ts with
    | error x =>
      obtain ⟨e, _, rfl⟩ := parseTokens_eq_error read
      refine .inr ⟨_, _, compileToText_of_parse_error tokenized read, compileToText_of_parse_error
        (tokenize_crlf noReturn tokenized) (parseTokens_crlf_error tokenized read), ?_, ?_⟩
      · rintro _ ⟨⟩ behind
        rw [placed_behind behind]
      · intro elsewhere
        rw [placed_elsewhere (elsewhere e rfl)]
        exact Diagnostic.toldTheSame_parse e
    | ok p =>
      obtain same | ⟨x, breach, refused, refused'⟩ :=
        compileToText_crlf_of_parse noReturn tokenized read
      · exact .inl same
      · refine .inr ⟨x, _, refused, refused', ?_, fun _ => Diagnostic.toldTheSame_relocate breach⟩
        rintro e rfl
        obtain ⟨_, _, same⟩ | ⟨_, _, same⟩ := breach <;> cases same

/-- The operand is missing at the end of the line, behind a comment. -/
theorem missing_operand : compileToText "OUTPUT // c\n" = .error (.parse ⟨⟨11, 1, 12⟩,
    "OUTPUT // c", .expected .expression, some .newline⟩) := by decide +kernel

theorem behindComment_operand : BehindComment "OUTPUT // c\n" ⟨11, 1, 12⟩ := by
  have output : Matches .keyword (Piece.first 'O' "UTPUT // c\n".toList).chars := .keyword .output
  have blank : Matches .blanks (Piece.first ' ' "// c\n".toList).chars :=
    .blanks nofun fun c member => .inl (List.mem_singleton.mp member)
  have noFeed : '\n' ∉ [' ', 'c'] := by decide
  refine ⟨["OUTPUT".toList, [' '], "// c".toList], [], ?_, ?_, rfl⟩
  · exact .cons (longest_first output) (.cons (longest_first blank)
      (.cons (longest_comment noFeed rfl) .nil))
  · exact ⟨["OUTPUT".toList, [' ']], "// c".toList, rfl,
      .comment fun c member same => noFeed (same ▸ member)⟩

/-- A declaration becomes the same module. An operand is missing behind a comment and the end of a
    line, and the place is the same. It is missing at the end of a line behind a comment, and the
    place is another one. -/
theorem declaration_and_missing_operands :
    (∃ ir, compileToText "DECLARE x : INT\nx <- 2\n" = .ok ir ∧
      compileToText "DECLARE x : INT\r\nx <- 2\r\n" = .ok ir) ∧
    (∃ x x', compileToText "// c\nOUTPUT ]" = .error x ∧
      compileToText "// c\r\nOUTPUT ]" = .error x' ∧ x.pos? = some ⟨12, 2, 8⟩ ∧ x.ToldTheSame x') ∧
    ∃ e, compileToText "OUTPUT // c\n" = .error (.parse e) ∧ e.pos = ⟨11, 1, 12⟩ ∧
      compileToText "OUTPUT // c\r\n" = .error (.parse { e with pos := ⟨12, 1, 13⟩ }) := by
  refine ⟨?_, ?_, ?_⟩
  · have accepted : (compileToText "DECLARE x : INT\nx <- 2\n").isOk = true := by decide +kernel
    obtain same | ⟨x, _, refused, _⟩ :=
      compileToText_crlf "DECLARE x : INT\nx <- 2\n" (by decide +kernel)
    · exact same
    · rw [refused] at accepted
      cases accepted
  · have refused : compileToText "// c\nOUTPUT ]" = .error (.parse ⟨⟨12, 2, 8⟩, "OUTPUT ]",
        .expected .expression, some (.symbol .closeBracket)⟩) := by decide +kernel
    obtain ⟨_, accepted, _⟩ | ⟨x, x', first, second, _, same⟩ :=
      compileToText_crlf "// c\nOUTPUT ]" (by decide +kernel)
    · cases refused.symm.trans accepted
    · obtain rfl := Except.error.inj (refused.symm.trans first)
      refine ⟨_, x', refused, second, rfl, same ?_⟩
      rintro _ ⟨⟩ behind
      have split : "// c\nOUTPUT ]".toList = "// c\nOUTPUT ".toList ++ [']'] := rfl
      exact nomatch behind.head?_eq split
  · obtain ⟨_, accepted, _⟩ | ⟨x, x', first, second, other, _⟩ :=
      compileToText_crlf "OUTPUT // c\n" (by decide +kernel)
    · cases missing_operand.symm.trans accepted
    · obtain rfl := Except.error.inj (missing_operand.symm.trans first)
      obtain rfl := other _ rfl behindComment_operand
      exact ⟨_, missing_operand, rfl, second⟩

/-- Behind a comment the end of the line is one column further, if there is a carriage return. -/
theorem column_behind_comment :
    ¬ ∀ text : String, '\r' ∉ text.toList → ∀ x x', compileToText text = .error x →
      compileToText (crlf text) = .error x' →
      ∃ p p', x.pos? = some p ∧ x'.pos? = some p' ∧ p'.line = p.line ∧ p'.column = p.column := by
  intro same
  have refused : compileToText (crlf "OUTPUT // c\n") = .error (.parse ⟨⟨12, 1, 13⟩,
      "OUTPUT // c", .expected .expression, some .newline⟩) := by decide +kernel
  obtain ⟨_, _, first, second, _, column⟩ := same _ (by decide +kernel) _ _ missing_operand refused
  cases first
  cases second
  cases column

end Pseudocode
