import Pseudocode.Proofs.Printing.Instructions

/-! # Blocks in the text of a module

* `terminator_append_inj`: the end of a block is told by its text.
* `LegibleBlock`: a block of which every line tells what it is about.
* `blocks_append_inj`: blocks in a row are told by their text, up to a closing brace.
-/

namespace Pseudocode.Printing

open Assembly Lowering

/-! ## Ends of blocks -/

theorem word_label (b : BlockId) : Word b.label.toList := by
  obtain ⟨index⟩ := b
  by_cases first : index = 0
  · subst first
    exact List.all_eq_true.mp rfl
  · rw [label_of_pos first]
    exact List.forall_mem_cons.mpr ⟨rfl, List.forall_mem_cons.mpr ⟨rfl, word_toString_nat index⟩⟩

theorem label_append_inj {b b' : BlockId} {s s' : List Char} (stops : Stops s)
    (stops' : Stops s') (same : b.label.toList ++ s = b'.label.toList ++ s') : b = b' ∧ s = s' := by
  obtain ⟨labels, rest⟩ := (word_label b).append_inj (word_label b') stops stops' same
  exact ⟨congrArg BlockId.mk (label_injective (String.toList_inj.mp labels)), rest⟩

/-- What the end of a block is about is told by its text, in a function of so many blocks. -/
structure LegibleEnd (count : Nat) (t : Terminator) : Prop where
  operands : ∀ v ∈ t.operands, Written v
  targets : ∀ b ∈ t.successors, b.index < count

/-- What is written in front of a label. -/
def toLabel : List Char := ['l', 'a', 'b', 'e', 'l', ' ', '%']

section Ends

variable {f : Function}

theorem targetText_of_lt {b : BlockId} (exist : b.index < f.blocks.length) :
    f.targetText b = b.label := if_pos exist

theorem toList_br {b : BlockId} (legible : LegibleEnd f.blocks.length (.br b)) :
    (f.terminatorText (.br b)).toList = 'b' :: 'r' :: ' ' :: (toLabel ++ b.label.toList) := by
  have target := targetText_of_lt (legible.targets b (by simp [Terminator.successors]))
  simp [Function.terminatorText, target, toLabel, toString]

theorem toList_condBr {v : Value} {b b' : BlockId}
    (legible : LegibleEnd f.blocks.length (.condBr v b b')) :
    (f.terminatorText (.condBr v b b')).toList = 'b' :: 'r' :: ' ' ::
      (v.typed.toList ++ ',' :: ' ' :: (toLabel ++
        (b.label.toList ++ ',' :: ' ' :: (toLabel ++ b'.label.toList)))) := by
  have target := targetText_of_lt (legible.targets b (by simp [Terminator.successors]))
  have target' := targetText_of_lt (legible.targets b' (by simp [Terminator.successors]))
  simp [Function.terminatorText, target, target', toLabel, toString]

theorem toList_ret (v : Value) :
    (f.terminatorText (.ret v)).toList = 'r' :: 'e' :: 't' :: ' ' :: v.typed.toList := by
  simp [Function.terminatorText, toString]

end Ends

theorem toLabel_append_inj {b b' : BlockId} {s s' : List Char} (stops : Stops s)
    (stops' : Stops s')
    (same : toLabel ++ (b.label.toList ++ s) = toLabel ++ (b'.label.toList ++ s')) :
    b = b' ∧ s = s' :=
  label_append_inj stops stops' (List.append_cancel_left same)

/-- The end of a block is told by its text, up to the end of the line. Behind the word `br`, a
    condition starts with its type and a jump does not. -/
theorem terminator_append_inj {f g : Function} {t u : Terminator} {s s' : List Char}
    (legible : LegibleEnd f.blocks.length t) (legible' : LegibleEnd g.blocks.length u)
    (same : (f.terminatorText t).toList ++ '\n' :: s =
      (g.terminatorText u).toList ++ '\n' :: s') : t = u ∧ s = s' := by
  have feed (s : List Char) : Stops ('\n' :: s) := stops_cons rfl
  cases t with
  | br b =>
    rw [toList_br legible] at same
    cases u with
    | br b' =>
      rw [toList_br legible'] at same
      simp only [List.cons_append, List.append_assoc, List.cons.injEq, true_and] at same
      obtain ⟨rfl, rest⟩ := toLabel_append_inj (feed s) (feed s') same
      exact ⟨rfl, (List.cons.inj rest).2⟩
    | condBr v b' c =>
      rw [toList_condBr legible'] at same
      simp only [List.cons_append, List.append_assoc, List.cons.injEq, true_and] at same
      exact absurd same.symm (typed_append_ne (by decide))
    | ret v =>
      rw [toList_ret] at same
      exact absurd (List.cons.inj same).1 (by decide)
  | condBr v b c =>
    rw [toList_condBr legible] at same
    cases u with
    | br b' =>
      rw [toList_br legible'] at same
      simp only [List.cons_append, List.append_assoc, List.cons.injEq, true_and] at same
      exact absurd same (typed_append_ne (by decide))
    | condBr v' b' c' =>
      rw [toList_condBr legible'] at same
      simp only [List.cons_append, List.append_assoc, List.cons.injEq, true_and] at same
      obtain ⟨rfl, targets⟩ := typed_append_inj (legible.operands v List.mem_cons_self)
        (legible'.operands v' List.mem_cons_self) (stops_cons rfl) (stops_cons rfl) same
      obtain ⟨rfl, target⟩ := toLabel_append_inj (stops_cons rfl) (stops_cons rfl)
        ((List.append_right_inj [',', ' ']).mp targets)
      obtain ⟨rfl, behind⟩ := toLabel_append_inj (feed s) (feed s')
        ((List.append_right_inj [',', ' ']).mp target)
      exact ⟨rfl, (List.cons.inj behind).2⟩
    | ret v' =>
      rw [toList_ret] at same
      exact absurd (List.cons.inj same).1 (by decide)
  | ret v =>
    rw [toList_ret] at same
    cases u with
    | br b =>
      rw [toList_br legible'] at same
      exact absurd (List.cons.inj same).1 (by decide)
    | condBr v' b c =>
      rw [toList_condBr legible'] at same
      exact absurd (List.cons.inj same).1 (by decide)
    | ret v' =>
      rw [toList_ret] at same
      simp only [List.cons_append, List.cons.injEq, true_and] at same
      obtain ⟨rfl, rest⟩ := typed_append_inj (legible.operands v List.mem_cons_self)
        (legible'.operands v' List.mem_cons_self) (feed s) (feed s') same
      exact ⟨rfl, (List.cons.inj rest).2⟩

/-! ## Code -/

/-- A line of a block with what comes behind it. -/
def line (text s : List Char) : List Char := ' ' :: ' ' :: (text ++ '\n' :: s)

/-- The lines of a block with what comes behind them. -/
def codeText (f : Function) (t : Terminator) (s : List Char) : List Instr → List Char
  | [] => line (f.terminatorText t).toList s
  | i :: code => line i.text.toList (codeText f t s code)

theorem exists_head_instr {i : Instr} (legible : Legible i) :
    ∃ c cs, i.text.toList = c :: cs ∧ (c = '%' ∨ c = 's') := by
  rw [toList_text, target]
  cases given : i.result? with
  | none => exact ⟨_, _, by rw [legible.opcode_of_none given]; rfl, .inr rfl⟩
  | some v =>
    obtain ⟨name, t, rfl, _⟩ := legible.result v given
    exact ⟨_, _, by simp only [toList_text_temp]; rfl, .inl rfl⟩

theorem exists_head_terminator {f : Function} {t : Terminator}
    (legible : LegibleEnd f.blocks.length t) :
    ∃ c cs, (f.terminatorText t).toList = c :: cs ∧ (c = 'b' ∨ c = 'r') := by
  cases t with
  | br b => exact ⟨_, _, toList_br legible, .inl rfl⟩
  | condBr v b c => exact ⟨_, _, toList_condBr legible, .inl rfl⟩
  | ret v => exact ⟨_, _, toList_ret v, .inr rfl⟩

/-- No instruction is written like the end of a block. -/
theorem line_ne {f : Function} {i : Instr} {t : Terminator} {s s' : List Char}
    (legible : Legible i) (legible' : LegibleEnd f.blocks.length t) :
    line i.text.toList s ≠ line (f.terminatorText t).toList s' := by
  obtain ⟨c, cs, written, first⟩ := exists_head_instr legible
  obtain ⟨c', cs', written', first'⟩ := exists_head_terminator legible'
  rw [line, line, written, written']
  intro same
  simp only [List.cons_append, List.cons.injEq, true_and] at same
  obtain ⟨rfl, _⟩ := same
  rcases first with rfl | rfl <;> revert first' <;> decide

/-- The code of a block and its end are told by their lines. -/
theorem codeText_inj {f g : Function} {code code' : List Instr} {t u : Terminator}
    {s s' : List Char} (legible : ∀ i ∈ code, Legible i) (legible' : ∀ i ∈ code', Legible i)
    (legibleEnd : LegibleEnd f.blocks.length t) (legibleEnd' : LegibleEnd g.blocks.length u)
    (same : codeText f t s code = codeText g u s' code') : code = code' ∧ t = u ∧ s = s' := by
  induction code generalizing code' with
  | nil =>
    cases code' with
    | nil =>
      obtain ⟨rfl, rest⟩ :=
        terminator_append_inj legibleEnd legibleEnd' ((List.append_right_inj [' ', ' ']).mp same)
      exact ⟨rfl, rfl, rest⟩
    | cons i' code' => exact absurd same.symm (line_ne (legible' i' List.mem_cons_self) legibleEnd)
  | cons i code ih =>
    cases code' with
    | nil => exact absurd same (line_ne (legible i List.mem_cons_self) legibleEnd')
    | cons i' code' =>
      obtain ⟨first, others⟩ := List.forall_mem_cons.mp legible
      obtain ⟨first', others'⟩ := List.forall_mem_cons.mp legible'
      obtain ⟨rfl, rest⟩ :=
        instr_append_inj first first' ((List.append_right_inj [' ', ' ']).mp same)
      obtain ⟨rfl, rfl, behind⟩ := ih others others' rest
      exact ⟨rfl, rfl, behind⟩

/-! ## Blocks -/

/-- Every line of the block tells what it is about, and the block is ended. -/
structure LegibleBlock (count : Nat) (block : Block) : Prop where
  code : ∀ i ∈ block.instrs, Legible i
  ended : ∃ t, block.terminator = some t ∧ LegibleEnd count t

theorem toList_blockText_append (f : Function) (b : BlockId) {block : Block} {t : Terminator}
    (ended : block.terminator = some t) (s : List Char) : (f.blockText b block).toList ++ s =
      b.label.toList ++ ':' :: '\n' :: codeText f t s block.instrs := by
  have lines : ∀ code : List Instr,
      (String.join (code.map fun i => s!"  {i.text}\n")).toList ++
        line (f.terminatorText t).toList s = codeText f t s code := by
    intro code
    induction code with
    | nil => rfl
    | cons i code ih =>
      rw [codeText, ← ih]
      simp [line, toString]
  rw [← lines]
  simp [Function.blockText, ended, line, toString]

theorem block_append_inj {f g : Function} {b : BlockId} {block block' : Block} {s s' : List Char}
    (legible : LegibleBlock f.blocks.length block)
    (legible' : LegibleBlock g.blocks.length block')
    (same : (f.blockText b block).toList ++ s = (g.blockText b block').toList ++ s') :
    block = block' ∧ s = s' := by
  obtain ⟨t, ended, legibleEnd⟩ := legible.ended
  obtain ⟨u, ended', legibleEnd'⟩ := legible'.ended
  rw [toList_blockText_append f b ended, toList_blockText_append g b ended'] at same
  have lines := (List.cons.inj (List.cons.inj (List.append_cancel_left same)).2).2
  obtain ⟨code, rfl, rest⟩ :=
    codeText_inj legible.code legible'.code legibleEnd legibleEnd' lines
  obtain ⟨instrs, terminator⟩ := block
  obtain ⟨instrs', terminator'⟩ := block'
  exact ⟨congr (congrArg Block.mk code) (ended.trans ended'.symm), rest⟩

theorem blocksText_singleton (f : Function) (n : Nat) (block : Block) :
    f.blocksText n [block] = f.blockText ⟨n⟩ block := by
  simp [Function.blocksText]

theorem blocksText_cons_cons (f : Function) (n : Nat) (first second : Block)
    (blocks : List Block) : f.blocksText n (first :: second :: blocks) =
      f.blockText ⟨n⟩ first ++ "\n" ++ f.blocksText (n + 1) (second :: blocks) := by
  simp only [Function.blocksText, List.mapIdx_cons, String.intercalate_cons_cons]
  simp [Nat.add_assoc, Nat.add_comm]

/-- Blocks in a row are told by their text, up to the closing brace. Labels are counted from the
    same number on, so they are the same on both sides. -/
theorem blocks_append_inj {f g : Function} {n : Nat} {first first' : Block}
    {blocks blocks' : List Block} {s s' : List Char}
    (legible : ∀ block ∈ first :: blocks, LegibleBlock f.blocks.length block)
    (legible' : ∀ block ∈ first' :: blocks', LegibleBlock g.blocks.length block)
    (same : (f.blocksText n (first :: blocks)).toList ++ '}' :: s =
      (g.blocksText n (first' :: blocks')).toList ++ '}' :: s') :
    first :: blocks = first' :: blocks' ∧ s = s' := by
  have head := legible first List.mem_cons_self
  have head' := legible' first' List.mem_cons_self
  induction blocks generalizing n first first' blocks' with
  | nil =>
    cases blocks' with
    | nil =>
      rw [blocksText_singleton, blocksText_singleton] at same
      obtain ⟨rfl, rest⟩ := block_append_inj head head' same
      exact ⟨rfl, (List.cons.inj rest).2⟩
    | cons second' blocks' =>
      rw [blocksText_singleton, blocksText_cons_cons, String.toList_append, String.toList_append,
        List.append_assoc, List.append_assoc] at same
      obtain ⟨_, rest⟩ := block_append_inj head head' same
      exact absurd (List.cons.inj rest).1 (by decide)
  | cons second blocks ih =>
    rw [blocksText_cons_cons, String.toList_append, String.toList_append, List.append_assoc,
      List.append_assoc] at same
    cases blocks' with
    | nil =>
      rw [blocksText_singleton] at same
      obtain ⟨_, rest⟩ := block_append_inj head head' same
      exact absurd (List.cons.inj rest).1 (by decide)
    | cons second' blocks' =>
      rw [blocksText_cons_cons, String.toList_append, String.toList_append, List.append_assoc,
        List.append_assoc] at same
      obtain ⟨rfl, rest⟩ := block_append_inj head head' same
      have others := (List.forall_mem_cons.mp legible).2
      have others' := (List.forall_mem_cons.mp legible').2
      obtain ⟨equal, behind⟩ := ih others others' (List.cons.inj rest).2
        (others second List.mem_cons_self) (others' second' List.mem_cons_self)
      exact ⟨congrArg (List.cons first) equal, behind⟩

/-! ## Functions -/

theorem toList_define {f : Function} (defined : f.isDeclaration = false) : f.text.toList =
    "define ".toList ++ (f.headText.toList ++
      ([' ', '\x7b', '\n'] ++ ((f.blocksText 0 f.blocks).toList ++ ['\x7d']))) := by
  simp [Function.text, defined, toString]

/-- Functions that are called in the same way are told by their text. -/
theorem define_append_inj {f g : Function} {s s' : List Char}
    (signature : f.signature = g.signature) (defined : f.isDeclaration = false)
    (defined' : g.isDeclaration = false)
    (legible : ∀ block ∈ f.blocks, LegibleBlock f.blocks.length block)
    (legible' : ∀ block ∈ g.blocks, LegibleBlock g.blocks.length block)
    (same : f.text.toList ++ s = g.text.toList ++ s') : f = g ∧ s = s' := by
  have heads : f.headText = g.headText := by
    simp only [Function.headText, Function.name, signature]
  rw [toList_define defined, toList_define defined', heads] at same
  simp only [List.append_assoc, List.append_right_inj] at same
  obtain ⟨signature, blocks⟩ := f
  obtain ⟨signature', blocks'⟩ := g
  cases blocks with
  | nil => cases defined
  | cons first blocks =>
    cases blocks' with
    | nil => cases defined'
    | cons first' blocks' =>
      obtain ⟨equal, behind⟩ := blocks_append_inj legible legible' same
      exact ⟨congr (congrArg Function.mk signature) equal, behind⟩

end Pseudocode.Printing
