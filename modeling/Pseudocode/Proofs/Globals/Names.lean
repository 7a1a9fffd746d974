import Pseudocode.Proofs.Globals.Visits
import Pseudocode.Proofs.Lowering.Discipline
import Pseudocode.Proofs.Parsing.Suffixes
import Pseudocode.Proofs.Parsing.Texts
import Pseudocode.Proofs.Scanning.Tokens

/-! # The globals of a lowered program

* `chars_of_parse`, `plain_of_parse`: variables of a program that is read from a text are named by
  words, in which there is no dot.
* `lower_globals`: the globals of a module are the formats, the variables and the literals, in
  order, and the main function gets at each of them where the program does.
-/

namespace Pseudocode.Globals

open Assembly Lowering Typing Grammar

/-! ## Names in texts -/

theorem declared_notMem_literals {x : String} {cell : Cell} {texts : List String} :
    .declared x cell ∉ texts.map Item.literal := by
  simp

variable {x : String} {cell : Cell}

theorem mem_tokens_of_simple {ts rest : List Located} {s : Statement} (h : SimpleAt ts s rest)
    (member : .declared x cell ∈ items s) : ∃ pos, ⟨.name x, pos⟩ ∈ ts := by
  cases h with
  | @declare pos p q r name type rest =>
    obtain ⟨_, _, same⟩ := List.mem_map.mp member
    cases same
    exact ⟨p, by simp⟩
  | input target => cases member
  | _ => exact absurd member declared_notMem_literals

mutual

/-- The variables that are declared are named by tokens. No variable is declared in an
    expression, so only blocks are looked into. -/
theorem mem_tokens_of_statement {ts rest : List Located} {s : Statement} :
    StatementAt ts s rest → .declared x cell ∈ items s → ∃ pos, ⟨.name x, pos⟩ ∈ ts
  | .empty, member => nomatch member
  | .line simple _, member => mem_tokens_of_simple simple member
  | .ifElse condition newlines thenEnd first second _, member => by
    have upToThen := (List.suffix_cons _ _).trans (newlines.suffix.trans condition.suffix)
    have upToFirst := thenEnd.suffix.trans upToThen
    rcases List.mem_append.mp member with literal | member
    · exact absurd literal declared_notMem_literals
    rcases List.mem_append.mp member with inThen | inElse
    · obtain ⟨pos, among⟩ := mem_tokens_of_block first inThen
      exact ⟨pos, List.mem_cons_of_mem _ (upToFirst.subset among)⟩
    · obtain ⟨pos, among⟩ := mem_tokens_of_else second inElse
      exact ⟨pos, List.mem_cons_of_mem _ ((first.suffix.trans upToFirst).subset among)⟩
  | .while condition doEnd block _, member => by
    have upToBody := doEnd.suffix.trans ((List.suffix_cons _ _).trans condition.suffix)
    rcases List.mem_append.mp member with literal | inside
    · exact absurd literal declared_notMem_literals
    · obtain ⟨pos, among⟩ := mem_tokens_of_block block inside
      exact ⟨pos, List.mem_cons_of_mem _ (upToBody.subset among)⟩
  | .repeat repeatEnd block _ _, member => by
    rcases List.mem_append.mp member with inside | literal
    · obtain ⟨pos, among⟩ := mem_tokens_of_block block inside
      exact ⟨pos, List.mem_cons_of_mem _ (repeatEnd.suffix.subset among)⟩
    · exact absurd literal declared_notMem_literals

theorem mem_tokens_of_else {ts rest : List Located} {b : Option (List Statement)} :
    ElseAt ts b rest → .declared x cell ∈ itemsElse b → ∃ pos, ⟨.name x, pos⟩ ∈ ts
  | .none, member => nomatch member
  | .some elseEnd block, member => by
    obtain ⟨pos, among⟩ := mem_tokens_of_block block member
    exact ⟨pos, List.mem_cons_of_mem _ (elseEnd.suffix.subset among)⟩

theorem mem_tokens_of_block {ts rest : List Located} {b : List Statement} :
    BlockAt ts b rest → .declared x cell ∈ itemsAll b → ∃ pos, ⟨.name x, pos⟩ ∈ ts
  | .nil, member => nomatch member
  | .cons head tail, member => by
    rcases List.mem_append.mp member with inHead | inTail
    · exact mem_tokens_of_statement head inHead
    · obtain ⟨pos, among⟩ := mem_tokens_of_block tail inTail
      exact ⟨pos, head.suffix.subset among⟩

end

/-- A name is a word. -/
theorem chars_of_reads {s : List Char} {name : String}
    (read : Scanning.Reads s (some (.name name))) :
    ∀ c ∈ name.toList, c.isAlphanum = true ∨ c = '_' := by
  cases read with
  | name piece _ =>
    cases piece with
    | name start parts =>
      rw [String.toList_ofList]
      refine List.forall_mem_cons.mpr ⟨start.imp_left fun letter => ?_, parts⟩
      simp [Char.isAlphanum, letter]

theorem exists_reads_of_yields {pos : Position} {pieces : List (List Char)} {ts : List Located}
    (h : Scanning.Yields pos pieces ts) :
    ∀ name place, ⟨.name name, place⟩ ∈ ts → ∃ s, Scanning.Reads s (some (.name name)) := by
  induction h with
  | nil => nofun
  | skip _ _ ih => exact ih
  | token read _ ih =>
    rintro name place (_ | ⟨_, member⟩)
    · exact ⟨_, read⟩
    · exact ih name place member

/-- The variables of a program that is read from a text are named by words. -/
theorem chars_of_parse {text : String} {p : Program} (read : parse text = .ok p)
    (member : .declared x cell ∈ itemsAll p) : ∀ c ∈ x.toList, c.isAlphanum = true ∨ c = '_' := by
  obtain ⟨ts, tokenized, derived, _⟩ := parse_eq_ok.mp read
  obtain ⟨_, _, yields⟩ := (Scanning.tokenize_accepts text ts).mp tokenized
  obtain ⟨pos, among⟩ := mem_tokens_of_block derived member
  obtain ⟨_, word⟩ := exists_reads_of_yields yields x pos among
  exact chars_of_reads word

/-- The variables of a program that is read from a text have plain names. -/
theorem plain_of_parse {text : String} {p : Program} (read : parse text = .ok p) :
    ∀ x cell, .declared x cell ∈ itemsAll p → Plain x := by
  intro x cell member dot
  exact absurd (chars_of_parse read member '.' dot) (by decide)

/-! ## Ends of blocks -/

/-- No address decides where a block goes on, and none is returned. -/
theorem globalName?_of_terminator {d : Draft} (lawful : d.Lawful) {block : Block}
    (member : block ∈ d.blocks) {t : Terminator} (ended : t ∈ block.terminator) :
    ∀ v ∈ t.operands, globalName? v = none := by
  intro v operand
  obtain ⟨typed, usable⟩ := lawful.ends block member t ended
  cases v with
  | int | double | temp => rfl
  | global name type =>
    obtain ⟨g, _, address⟩ := usable _ operand
    obtain ⟨_, rfl⟩ := Value.global.inj address
    cases t with
    | br target => cases operand
    | condBr cond thenBlock elseBlock =>
      obtain rfl := List.mem_singleton.mp operand
      cases typed
    | ret value =>
      obtain rfl := List.mem_singleton.mp operand
      cases typed

/-! ## Modules -/

/-- The names of all globals and functions are different. The globals are the formats, and then
    in order one for each variable, which holds the zero of its type, and a constant for each
    literal, which holds its bytes and a zero byte. Block by block, the main function loads,
    stores and takes the addresses of exactly the globals that the accesses of the program are
    about: for a variable, which is declared once, that of its declaration. If the program is read
    from a text, literals are numbered from zero on, and a variable keeps its name unless it is
    that of a function. -/
theorem lower_globals (p : Program) (m : Assembly.Module) (h : (lower p).result = .ok m) :
    m.names.Nodup ∧
    ∃ T : Table, T.map Prod.fst = itemsAll p ∧ m.globals = formatGlobals ++ T.map Prod.snd ∧
      (∀ row ∈ T, row.1.Kept row.2) ∧
      (formats.map Prod.fst ++ (itemsAll p).filterMap Item.name?).Nodup ∧
      (∃ main, m.functionNamed? "main" = some main ∧
        (∀ i, List.Forall₂ (Gets T) (usesAt main.blocks i) (accessesAt i (visitsAll .start p))) ∧
        ∀ block ∈ main.blocks, ∀ t ∈ block.terminator, ∀ v ∈ t.operands, globalName? v = none) ∧
      ∀ text, parse text = .ok p →
        m.globals.map Global.name = formats.map Prod.fst ++ itemSymbols 0 (itemsAll p) := by
  obtain ⟨d, lowered, rfl⟩ := exists_draft h
  obtain ⟨T, step, _⟩ := LowersAll.step ready_initial.isOpen Stocked.initial lowered
  obtain ⟨_, rfl, new⟩ := step.table
  refine ⟨step.stocked.distinct, T, new, step.stocked.globals, step.stocked.kept, ?_, ?_, ?_⟩
  · have keys := step.stocked.keys
    rw [step.stocked.bound_keys] at keys
    rwa [← new, List.filterMap_map]
  · refine ⟨d.finished.main, rfl, fun i => ?_, fun block member t ended =>
      globalName?_of_terminator lowered.lawful_finished member ended⟩
    obtain ⟨us, same, gets⟩ := step.gains i
    rw [usesAt_initial, List.nil_append] at same
    rw [← same, ← usesAt_endAt d.blocks d.block.index (.ret (.i32 0))] at gets
    exact gets
  · intro text read
    have names := step.stocked.names (new ▸ plain_of_parse read)
    rw [new] at names
    show d.globals.map Global.name = _
    rw [step.stocked.globals, List.map_append, List.map_map, ← names]
    rfl

/-- A variable has the name of a function, and a text occurs twice. -/
def greetingText : String := "DECLARE puts:INT\nOUTPUT \"a\"\nINPUT puts\nOUTPUT \"a\""

/-- The program that it is. -/
def greeting : Program :=
  [.declare ⟨0, 1, 1⟩ "puts" .int, .output ⟨17, 2, 1⟩ (.constant (.string "a")),
    .input ⟨28, 3, 1⟩ ⟨⟨34, 3, 7⟩, [⟨"puts", none⟩]⟩,
    .output ⟨39, 4, 1⟩ (.constant (.string "a"))]

/-- The tokens of it. -/
def greetingTokens : List Located :=
  [⟨.keyword .declare, ⟨0, 1, 1⟩⟩, ⟨.name "puts", ⟨8, 1, 9⟩⟩, ⟨.symbol .colon, ⟨12, 1, 13⟩⟩,
    ⟨.keyword .int, ⟨13, 1, 14⟩⟩, ⟨.newline, ⟨16, 1, 17⟩⟩,
    ⟨.keyword .output, ⟨17, 2, 1⟩⟩, ⟨.string "a", ⟨24, 2, 8⟩⟩, ⟨.newline, ⟨27, 2, 11⟩⟩,
    ⟨.keyword .input, ⟨28, 3, 1⟩⟩, ⟨.name "puts", ⟨34, 3, 7⟩⟩, ⟨.newline, ⟨38, 3, 11⟩⟩,
    ⟨.keyword .output, ⟨39, 4, 1⟩⟩, ⟨.string "a", ⟨46, 4, 8⟩⟩]

theorem greeting_read : parse greetingText = .ok greeting := by
  refine parse_eq_ok.mpr ⟨greetingTokens, ?_, ?_, by decide⟩
  · exact Scanning.tokenize_eq_ok.mpr (by decide +kernel)
  · have declare : SimpleAt greetingTokens (.declare ⟨0, 1, 1⟩ "puts" .int)
        (greetingTokens.drop 4) := .declare (t := .int)
    have letter (pos : Position) (ts : List Located) :
        ExpressionAt (some .comparison) (⟨.string "a", pos⟩ :: ts) (.constant (.string "a")) ts :=
      .single (.single (.single (.constant (c := .string "a"))))
    exact .cons (.line declare .newline) (.cons (.line (.output (letter _ _)) .newline)
      (.cons (.line (.input (.key (.part .none) .nil)) .newline)
        (.cons (.line (.output (letter _ _)) .finish) .nil)))

theorem greeting_globals : ∃ m, (lower greeting).result = .ok m ∧ m.names.Nodup ∧
    m.globals.map Global.name =
      ["printfd_fmt", "printff_fmt", "puts.1", ".str.0", ".str.1"] ∧
    ∃ T : Table, T.map Prod.fst = [.declared "puts" .int, .literal "a", .literal "a"] ∧
      ∃ main, m.functionNamed? "main" = some main ∧ List.Forall₂ (Gets T) (usesAt main.blocks 0)
        [⟨.address, .literal 0⟩, ⟨.store, .declared "puts"⟩, ⟨.address, .literal 1⟩] := by
  obtain ⟨m, lowered⟩ := exists_module (p := greeting) ⟨_, rfl⟩
  obtain ⟨distinct, T, new, _, _, _, ⟨main, found, gets, _⟩, names⟩ :=
    lower_globals greeting m lowered
  exact ⟨m, lowered, distinct, (names greetingText greeting_read).trans (by decide), T, new,
    main, found, gets 0⟩

end Pseudocode.Globals
