import Pseudocode.Proofs.Globals.Names
import Pseudocode.Proofs.Lowering.ControlFlow
import Pseudocode.Proofs.Printing.Modules

/-! # The text of a compiled module

* `legible_of_compile`: in a module that a text is compiled to, every line tells what it is about.
* `compileToText_determines_module`: so the text of such a module tells the whole module.
-/

namespace Pseudocode.Printing

open Assembly Lowering Globals

/-! ## Names -/

theorem named_of_chars {name : String}
    (chars : ∀ c ∈ name.toList, c.isAlphanum = true ∨ c = '_') : Named name := by
  intro c member
  rcases chars c member with alphanum | rfl
  · exact isWordPart_of_alphanum alphanum
  · rfl

theorem named_tempName (i : Nat) : Named (tempName i) := by
  have chars : (tempName i).toList = 't' :: (toString i).toList := by simp [tempName, toString]
  rw [Named, chars]
  exact List.forall_mem_cons.mpr ⟨rfl, word_toString_nat i⟩

theorem named_variableSymbol {name : String} (named : Named name) :
    Named (variableSymbol name) := by
  unfold variableSymbol
  split
  · rw [Named, toList_numbered]
    exact named.append (List.forall_mem_cons.mpr ⟨rfl, word_toString_nat 1⟩)
  · exact named

theorem named_literalSymbol (n : Nat) : Named (literalSymbol n) := by
  rw [Named, toList_literalSymbol]
  exact Word.append (List.all_eq_true.mp rfl) (word_toString_nat n)

theorem named_format {name : String} (format : name ∈ formats.map Prod.fst) : Named name := by
  have all : ∀ name ∈ formats.map Prod.fst, name.toList.all isWordPart = true := by decide +kernel
  exact List.all_eq_true.mp (all name format)

/-! ## Globals -/

theorem writtenInit_item (item : Item) : WrittenInit item.init := by
  cases item with
  | declared name cell =>
    cases cell with
    | int => nofun
    | real => trivial
    | bool => exact fun _ => .inl rfl
  | literal text => trivial

/-- The globals of a draft have names that are words if its variables have. -/
theorem legible_of_stocked {d : Draft} {T : Table} (stocked : Stocked d T)
    (chars : ∀ x cell, .declared x cell ∈ T.map Prod.fst →
      ∀ c ∈ x.toList, c.isAlphanum = true ∨ c = '_') :
    ∀ g ∈ d.globals, LegibleGlobal g := by
  have names := stocked.names fun x cell member dot =>
    absurd (chars x cell member '.' dot) (by decide)
  rw [stocked.globals]
  refine List.forall_mem_append.mpr ⟨?_, ?_⟩
  · intro g member
    obtain ⟨format, among, rfl⟩ := List.mem_map.mp member
    exact ⟨named_format (List.mem_map_of_mem among), trivial⟩
  · intro g member
    obtain ⟨row, among, rfl⟩ := List.mem_map.mp member
    refine ⟨?_, (stocked.kept row among).init ▸ writtenInit_item row.1⟩
    have symbol : row.2.name ∈ itemSymbols 0 (T.map Prod.fst) :=
      names ▸ List.mem_map_of_mem (f := fun row : Item × Global => row.2.name) among
    rcases mem_itemSymbols symbol with ⟨x, cell, item, same⟩ | ⟨n, _, same⟩
    · exact same ▸ named_variableSymbol (named_of_chars (chars x cell item))
    · exact same ▸ named_literalSymbol n

/-! ## The main function -/

section Main

variable {d : Draft} (lawful : d.Lawful) (globals : ∀ g ∈ d.globals, LegibleGlobal g)

include lawful

theorem named_of_result {block : Block} (member : block ∈ d.blocks) {i : Instr}
    (among : i ∈ block.instrs) {name : String} {t : Ty} (result : i.result? = some (.temp name t)) :
    Named name := by
  have given : name ∈ resultNames d.blocks := by
    refine List.mem_flatMap.mpr ⟨block, member, List.mem_filterMap.mpr ⟨i, among, ?_⟩⟩
    rw [Instr.resultName?, result]
    rfl
  obtain ⟨number, _, rfl⟩ := lawful.numbered name given
  exact named_tempName number

include globals

theorem written_of_usable {block : Block} (member : block ∈ d.blocks) {code : List Instr}
    (part : code ⊆ block.instrs) {v : Value} (usable : Usable d.globals code v) : Written v := by
  cases v with
  | int bits n => exact usable
  | double x => trivial
  | global name t =>
    obtain ⟨g, exist, address⟩ := usable
    obtain ⟨rfl, _⟩ := Value.global.inj address
    exact (globals g exist).name
  | temp name t =>
    obtain ⟨i, among, result⟩ := usable
    exact named_of_result lawful member (part among) result

theorem legible_instr {block : Block} (member : block ∈ d.blocks) {i : Instr}
    (among : i ∈ block.instrs) : Legible i := by
  obtain ⟨before, after, whole⟩ := List.append_of_mem among
  have fits := lawful.code block member before i after whole
  have part : before ⊆ block.instrs := whole ▸ List.subset_append_left _ _
  refine ⟨fits.typed, fun v used => ?_, fun v given => ?_, fits.callee⟩
  · exact written_of_usable lawful globals member part (fits.operands v used)
  · obtain ⟨name, t, rfl⟩ := fits.result v given
    exact ⟨name, t, rfl, named_of_result lawful member among given⟩

end Main

/-- The main function of a program that is lowered, closed as the module has it. -/
theorem legibleMain_finished {d : Draft} {p : Program} (lowered : LowersAll .initial p d)
    (globals : ∀ g ∈ d.globals, LegibleGlobal g) : LegibleMain d.finished.main := by
  have lawful := lowered.lawful_finished
  have formed := wellFormed_of_region lowered.region_initial
  refine ⟨rfl, ?_, fun block member => ⟨?_, ?_⟩⟩
  · obtain ⟨exit, ⟨block, found, _⟩, _⟩ := formed.returns
    have some := List.ne_nil_of_mem (List.mem_of_getElem? found)
    simpa [Function.isDeclaration] using some
  · exact fun i among => legible_instr lawful globals member among
  · obtain ⟨t, ended⟩ := Option.isSome_iff_exists.mp (formed.ended block member)
    refine ⟨t, ended, fun v used => ?_, fun b next => ?_⟩
    · have usable := (lawful.ends block member t ended).2 v used
      exact written_of_usable lawful globals member (List.Subset.refl _) usable
    · obtain ⟨i, found⟩ := List.mem_iff_getElem?.mp member
      refine formed.exist ⟨i⟩ b ?_
      obtain ⟨instrs, _⟩ := block
      cases ended
      rw [Precedes, Function.successors, found]
      exact next

/-! ## Modules -/

/-- Every line of a module that a text is compiled to tells what it is about. -/
theorem legible_of_compile {text : String} {m : Assembly.Module}
    (compiled : (compile text).result = .ok m) : LegibleModule m := by
  obtain ⟨p, read, lowered⟩ := compile_eq_ok.mp compiled
  obtain ⟨d, lowers, rfl⟩ := exists_draft lowered
  obtain ⟨T, step, _⟩ := LowersAll.step ready_initial.isOpen Stocked.initial lowers
  obtain ⟨_, rfl, new⟩ := step.table
  have globals : ∀ g ∈ d.globals, LegibleGlobal g :=
    legible_of_stocked step.stocked fun x cell member => chars_of_parse read (new ▸ member)
  exact ⟨globals, ⟨d.finished.main, rfl, legibleMain_finished lowers globals⟩, rfl⟩

/-- The assembly text determines the module: two texts that are compiled to the same assembly text
    are compiled to the same module, with the same globals, the same functions, and the same blocks,
    instructions and ends of blocks in them. -/
theorem compileToText_determines_module (a b : String) (m n : Assembly.Module)
    (first : (compile a).result = .ok m) (second : (compile b).result = .ok n)
    (same : compileToText a = compileToText b) : m = n := by
  rw [compileToText, compileToText, first, second] at same
  exact module_eq_of_text (legible_of_compile first) (legible_of_compile second)
    (Except.ok.inj same)

/-- A loop that is left at once, and a sum behind it. -/
def loopText : String := "DECLARE b:BOOL\nREPEAT\nOUTPUT \"\\\"on\\\"\"\nUNTIL !b\nPrintfD(b+2)"

/-- The same with a comment, blanks, brackets and an empty line. -/
def remarkedLoopText : String :=
  "DECLARE b: BOOL // still false\nREPEAT\n\n  OUTPUT \"\\\"on\\\"\"\nUNTIL (!b)\nPrintfD(b + 2)\n"

theorem exists_ok_of_isSome {ε α : Type} {e : Except ε α} (some : e.toOption.isSome = true) :
    ∃ a, e = .ok a := by
  cases e with
  | error x => cases some
  | ok a => exact ⟨a, rfl⟩

theorem remarkedLoop_module : loopText ≠ remarkedLoopText ∧
    ∃ m n, (compile loopText).result = .ok m ∧ (compile remarkedLoopText).result = .ok n ∧
      compileToText loopText = compileToText remarkedLoopText ∧ m = n := by
  obtain ⟨m, first⟩ := exists_ok_of_isSome (e := (compile loopText).result) (by decide +kernel)
  obtain ⟨n, second⟩ :=
    exists_ok_of_isSome (e := (compile remarkedLoopText).result) (by decide +kernel)
  have same : compileToText loopText = compileToText remarkedLoopText := by decide +kernel
  exact ⟨by decide +kernel, m, n, first, second, same,
    compileToText_determines_module loopText remarkedLoopText m n first second same⟩

end Pseudocode.Printing
