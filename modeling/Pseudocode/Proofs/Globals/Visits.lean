import Pseudocode.Proofs.Globals.Uses
import Pseudocode.Proofs.Lowering.Instructions

/-! # The globals that statements get at

* `Cursor.of d`: where the blocks of a draft are counted.
* `Step d T new as d' T'`: what was added to the blocks gets at globals as the accesses say, each
  in its own block, and the items that came in are in the table.
* `Lowers.step`, `LowersAll.step`: statements take such steps and move the cursor as they say.
-/

namespace Pseudocode.Globals

open Assembly Lowering Typing

/-! ## Cursors -/

def Cursor.of (d : Draft) : Cursor := ⟨d.block.index, d.blocks.length, d.strings⟩

theorem Line.cursor {d d' : Draft} {T T' : Table} {texts : List String} {as : List Access}
    (stocked : Stocked d T) (line : Line d T (texts.map .literal) as d' T') :
    Cursor.of d' = (Cursor.of d).past texts := by
  obtain ⟨code, straight, _⟩ := line.code
  simp [Cursor.of, Cursor.past, straight.block, straight.length_eq, line.strings_literals stocked]

section Stages

variable (d d' : Draft) (v : Value)

theorem cursor_branch : Cursor.of d.branch = (Cursor.of d).enter 3 :=
  congrArg (Cursor.mk _ · _) (length_branch d)

theorem cursor_otherwise :
    Cursor.of (d.otherwise d') = (Cursor.of d).behind 1 (Cursor.of d') :=
  congrArg (Cursor.mk _ · _) (length_otherwise d d')

theorem cursor_merge : Cursor.of (d.merge d' v) = (Cursor.of d).behind 2 (Cursor.of d') :=
  congrArg (Cursor.mk _ · _) (length_merge d d' v)

theorem cursor_loop : Cursor.of d.loop = (Cursor.of d).enter 3 :=
  congrArg (Cursor.mk _ · _) (length_loop d)

theorem cursor_loopBody :
    Cursor.of (d.loopBody d' v) = (Cursor.of d).behind 1 (Cursor.of d') :=
  congrArg (Cursor.mk _ · _) (length_loopBody d d' v)

theorem cursor_endLoop : Cursor.of (d.endLoop d') = (Cursor.of d).behind 2 (Cursor.of d') :=
  congrArg (Cursor.mk _ · _) (length_endLoop d d')

theorem cursor_again : Cursor.of d.again = (Cursor.of d).enter 2 :=
  congrArg (Cursor.mk _ · _) (length_again d)

theorem cursor_endAgain :
    Cursor.of (d.endAgain d' v) = (Cursor.of d).behind 1 (Cursor.of d') :=
  congrArg (Cursor.mk _ · _) (length_endAgain d d' v)

end Stages

/-! ## Steps -/

/-- How the block of the number gets at globals. -/
def usesAt (blocks : List Block) (i : Nat) : List (Way × String) :=
  (codeAt blocks ⟨i⟩).flatMap uses

theorem usesAt_append {blocks new : List Block} (empty : ∀ block ∈ new, block.instrs = [])
    (i : Nat) : usesAt (blocks ++ new) i = usesAt blocks i := by
  by_cases old : i < blocks.length
  · rw [usesAt, usesAt, codeAt, codeAt, List.getElem?_append_left old]
  · have none : blocks[i]? = none := List.getElem?_eq_none (Nat.not_lt.mp old)
    cases found : new[i - blocks.length]? with
    | none =>
      simp [usesAt, codeAt, List.getElem?_append_right (Nat.not_lt.mp old), found, none]
    | some block =>
      simp [usesAt, codeAt, List.getElem?_append_right (Nat.not_lt.mp old), found, none,
        empty block (List.mem_of_getElem? found)]

theorem usesAt_initial (i : Nat) : usesAt Draft.initial.blocks i = [] := by
  have nothing : usesAt ([] ++ Draft.initial.blocks) i = usesAt [] i :=
    usesAt_append (List.forall_mem_singleton.mpr rfl) i
  exact nothing

theorem usesAt_endAt (blocks : List Block) (j : Nat) (t : Terminator) (i : Nat) :
    usesAt (endAt blocks j t) i = usesAt blocks i := by
  simp only [usesAt, codeAt, endAt, List.getElem?_modify]
  cases blocks[i]? with
  | none => rfl
  | some block =>
    by_cases same : j = i <;> simp [same]

theorem usesAt_extend {blocks : List Block} {b : BlockId} (h : Draft.IsOpen blocks b)
    (code : List Instr) (i : Nat) :
    usesAt (blocks.modify b.index (Draft.extend code)) i =
      usesAt blocks i ++ if b.index = i then code.flatMap uses else [] := by
  obtain ⟨block, found, _⟩ := h
  simp only [usesAt, codeAt, List.getElem?_modify]
  by_cases same : b.index = i
  · subst same
    simp [found, Draft.extend]
  · simp [same]

/-- From `d` to `d'` blocks and instructions were added. They get at globals as the accesses say,
    each in its block, and the items that came in are in the table. -/
structure Step (d : Draft) (T : Table) (new : List Item) (as : List (Nat × Access)) (d' : Draft)
    (T' : Table) : Prop where
  table : ∃ more, T' = T ++ more ∧ more.map Prod.fst = new
  stocked : Stocked d' T'
  gains : ∀ i, ∃ us, usesAt d'.blocks i = usesAt d.blocks i ++ us ∧ GetsAll T' us (accessesAt i as)

namespace Step

variable {d d₁ d₂ : Draft} {T T₁ T₂ : Table} {new new₁ : List Item}
  {as as₁ : List (Nat × Access)}

theorem trans (first : Step d T new as d₁ T₁) (second : Step d₁ T₁ new₁ as₁ d₂ T₂) :
    Step d T (new ++ new₁) (as ++ as₁) d₂ T₂ := by
  obtain ⟨more, rfl, rfl⟩ := first.table
  obtain ⟨more₁, rfl, rfl⟩ := second.table
  refine ⟨⟨more ++ more₁, by simp, by simp⟩, second.stocked, fun i => ?_⟩
  obtain ⟨us, grown, gets⟩ := first.gains i
  obtain ⟨us₁, grown₁, gets₁⟩ := second.gains i
  refine ⟨us ++ us₁, by rw [grown₁, grown, List.append_assoc], ?_⟩
  rw [accessesAt, List.filterMap_append]
  exact List.rel_append (gets.mono more₁) gets₁

/-- Neither globals nor instructions were added. -/
theorem still (stocked : Stocked d T) (globals : d₁.globals = d.globals)
    (bindings : d₁.bindings = d.bindings) (strings : d₁.strings = d.strings)
    (code : ∀ i, usesAt d₁.blocks i = usesAt d.blocks i) : Step d T [] [] d₁ T where
  table := ⟨[], by simp⟩
  stocked := stocked.same globals bindings strings
  gains i := ⟨[], by simp [code i], .nil⟩

/-- A variable is added, and no instruction. -/
theorem declare (stocked : Stocked d T) (pos : Position) {name : String} (cell : Cell)
    (fresh : d.bindings.lookup name = none) :
    ∃ T', Step d T [.declared name cell] [] (d.declare pos name cell.zero) T' :=
  ⟨_, ⟨_, rfl, rfl⟩, stocked.declare pos cell fresh,
    fun _ => ⟨[], by simp [Draft.declare, Draft.addVariable], .nil⟩⟩

end Step

theorem accessesAt_here (c : Cursor) (as : List Access) (i : Nat) :
    accessesAt i (c.here as) = if c.block = i then as else [] := by
  by_cases same : c.block = i <;>
    simp [accessesAt, Cursor.here, List.filterMap_map, same]

/-- A line of code belongs to the current block. -/
theorem Line.step {d d' : Draft} {T T' : Table} {new : List Item} {as : List Access}
    (h : Draft.IsOpen d.blocks d.block) (line : Line d T new as d' T') :
    Step d T new ((Cursor.of d).here as) d' T' where
  table := line.table
  stocked := line.stocked
  gains i := by
    obtain ⟨code, straight, gets⟩ := line.code
    refine ⟨_, by rw [straight.blocks, usesAt_extend h], ?_⟩
    rw [accessesAt_here, show (Cursor.of d).block = d.block.index from rfl]
    split
    · exact gets
    · exact .nil

/-! ## Statements that do one thing -/

theorem Line.push {d : Draft} {T : Table} {as : List Access} (stocked : Stocked d T) (i : Instr)
    (gets : GetsAll T (uses i) as) : Line d T [] as (d.push i) T where
  table := ⟨[], by simp⟩
  stocked := stocked.same rfl rfl rfl
  code := ⟨_, .push d i, by simpa using gets⟩

theorem line_called {d : Draft} {T : Table} (stocked : Stocked d T) (f : Signature)
    {args : List Value} (none : ∀ w ∈ args, globalName? w = none) :
    Line d T [] [] (d.called f args) T :=
  .define stocked .i32 (fun dst => .call (some dst) f args) (uses_call f none ▸ .nil)

/-- A value is written, and its format taken by its address. -/
theorem line_printed {d : Draft} {T : Table} {name : String} {format v : Value}
    (stocked : Stocked d T) (stands : Stands T (some (.format name)) format)
    (free : globalName? v = none) :
    Line d T [] [⟨.address, .format name⟩] (d.printed format v) T := by
  have taken : Line d T [] [⟨.address, .format name⟩]
      (d.define .bytePtr (.cast · .bitcast format)) T :=
    .define stocked .bytePtr (.cast · .bitcast format) (gets_named .address stands)
  exact taken.silent (line_called taken.stocked _ (by simpa using ⟨rfl, free⟩))

/-- A variable is written to. -/
theorem line_store {d : Draft} {T : Table} {name : String} {v storage : Value}
    (stocked : Stocked d T) (free : globalName? v = none)
    (stands : Stands T (some (.declared name)) storage) :
    Line d T [] [⟨.store, .declared name⟩] (d.push (.store v storage)) T := by
  refine .push stocked _ ?_
  rw [uses, named_of_none (List.forall_mem_singleton.mpr free)]
  exact gets_named .store stands

theorem Cursor.here_append (c : Cursor) (as as' : List Access) :
    c.here (as ++ as') = c.here as ++ c.here as' := List.map_append

/-- A statement that does one thing is a line of code with its texts and its accesses. -/
theorem Performs.line {d d' : Draft} {s : Statement} {T : Table} (stocked : Stocked d T)
    (done : Performs d s d') : ∃ T' texts as, Line d T (texts.map .literal) as d' T' ∧
      items s = texts.map .literal ∧ visits (Cursor.of d) s = (Cursor.of d).here as ∧
      advance (Cursor.of d) s = (Cursor.of d).past texts := by
  cases done with
  | output text =>
    obtain ⟨T₁, line, stands, kind⟩ := Emits.line stocked text
    obtain ⟨pass, free⟩ := line_pass line.stocked stands kind
    have call := line_called pass.stocked ⟨putsName, .i32, [.bytePtr], false⟩
      (List.forall_mem_singleton.mpr free)
    exact ⟨T₁, _, _, (line.followed pass).silent call, rfl, (Cursor.here_append _ _ _).symm, rfl⟩
  | @input pos k b found held =>
    have whole : b.storage.type = .ptr Kind.int.ty := held
    have other := not_isFormat_of_scalar stocked found whole rfl
    have call := line_called stocked ⟨getcharName, .i32, [], false⟩ (List.forall_mem_nil _)
    have store := line_store (v := d.next .i32) call.stocked rfl
      (stands_declared stocked found other)
    exact ⟨T, [], _, call.trans store, rfl, rfl, rfl⟩
  | @custom pos name type =>
    have nothing : Line d T [] [] (d.tell (.ignoredDeclaration name type)) T :=
      ⟨⟨[], by simp⟩, stocked.same rfl rfl rfl, [], .tell d _, .nil⟩
    exact ⟨T, [], [], nothing, rfl, rfl, rfl⟩
  | assign found held scalar value =>
    obtain ⟨T₁, line, stands, kind⟩ := Emits.line stocked value
    have other := not_isFormat_of_scalar stocked found held scalar
    have target := stands_declared stocked found other
    obtain ⟨more, rfl, _⟩ := line.table
    have store := line_store line.stocked (free_of_scalar stands kind scalar) (target.mono more)
    exact ⟨_, _, _, line.followed store, rfl, (Cursor.here_append _ _ _).symm, rfl⟩
  | @printInt d₁ pos e κ v format value whole found =>
    obtain ⟨T₁, line, stands, kind⟩ := Emits.line stocked value
    have scalar : κ.isText = false := by rcases whole with rfl | rfl <;> rfl
    obtain ⟨pass, free⟩ := line_pass line.stocked stands kind
    have text : text? d.strings e = none := by simpa [scalar] using kind
    rw [text] at pass
    have known : (d₁.pass κ v).bindings.lookup intFormatName = some format := by
      obtain ⟨_, straight⟩ := Straight.pass d₁ κ v
      rw [straight.bindings, found]
    have printed := line_printed pass.stocked (stands_format pass.stocked known rfl) free
    exact ⟨T₁, _, _, (line.silent pass).followed printed, rfl, (Cursor.here_append _ _ _).symm, rfl⟩
  | printReal value found =>
    obtain ⟨T₁, line, stands, kind⟩ := Emits.line stocked value
    have printed := line_printed line.stocked (stands_format line.stocked found rfl)
      (free_of_scalar stands kind rfl)
    exact ⟨T₁, _, _, line.followed printed, rfl, (Cursor.here_append _ _ _).symm, rfl⟩
  | call value =>
    obtain ⟨T₁, line, _, _⟩ := Emits.line stocked value
    exact ⟨T₁, _, _, line, rfl, rfl, rfl⟩
  | empty => exact ⟨T, [], [], .refl stocked, rfl, rfl, rfl⟩

/-! ## All statements -/

theorem itemsElse_eq (b : Option (List Statement)) : itemsElse b = itemsAll (b.getD []) := by
  cases b <;> rfl

theorem visitsElse_eq (c : Cursor) (b : Option (List Statement)) :
    visitsElse c b = visitsAll c (b.getD []) := by
  cases b <;> rfl

theorem advanceElse_eq (c : Cursor) (b : Option (List Statement)) :
    advanceElse c b = advanceAll c (b.getD []) := by
  cases b <;> rfl

/-! Stages of branches and loops add blocks without code, and ends of blocks. -/

namespace Step

variable {d d' : Draft} {T : Table}

theorem branch (stocked : Stocked d T) : Step d T [] [] d.branch T :=
  .still stocked rfl rfl rfl fun i => by
    rw [blocks_branch, usesAt_append (by simp [Block.empty])]

theorem otherwise (d : Draft) (stocked : Stocked d' T) : Step d' T [] [] (d.otherwise d') T :=
  .still stocked rfl rfl rfl fun _ => usesAt_endAt _ _ _ _

theorem merge (d : Draft) (v : Value) (stocked : Stocked d' T) :
    Step d' T [] [] (d.merge d' v) T :=
  .still stocked rfl rfl rfl fun _ => (usesAt_endAt _ _ _ _).trans (usesAt_endAt _ _ _ _)

theorem loop (stocked : Stocked d T) : Step d T [] [] d.loop T :=
  .still stocked rfl rfl rfl fun i => by
    rw [blocks_loop, usesAt_endAt, usesAt_append (by simp [Block.empty])]

theorem loopBody (d : Draft) (v : Value) (stocked : Stocked d' T) :
    Step d' T [] [] (d.loopBody d' v) T :=
  .still stocked rfl rfl rfl fun _ => usesAt_endAt _ _ _ _

theorem endLoop (d : Draft) (stocked : Stocked d' T) : Step d' T [] [] (d.endLoop d') T :=
  .still stocked rfl rfl rfl fun _ => usesAt_endAt _ _ _ _

theorem again (stocked : Stocked d T) : Step d T [] [] d.again T :=
  .still stocked rfl rfl rfl fun i => by
    rw [blocks_again, usesAt_endAt, usesAt_append (by simp [Block.empty])]

theorem endAgain (d : Draft) (v : Value) (stocked : Stocked d' T) :
    Step d' T [] [] (d.endAgain d' v) T :=
  .still stocked rfl rfl rfl fun _ => usesAt_endAt _ _ _ _

end Step

/-- A condition is a line of code in the current block. -/
theorem Emits.step {d d' : Draft} {e : Expression} {κ : Kind} {v : Value} {T : Table}
    (h : Draft.IsOpen d.blocks d.block) (stocked : Stocked d T) (emits : Emits d e κ v d') :
    ∃ T', Step d T ((literals e).map .literal) ((Cursor.of d).reads e) d' T' ∧
      Cursor.of d' = (Cursor.of d).past (literals e) := by
  obtain ⟨T', line, _, _⟩ := Emits.line stocked emits
  exact ⟨T', line.step h, line.cursor stocked⟩

theorem exists_cell {type : DeclaredType} {init : Initializer}
    (known : initializer? type = some init) : ∃ cell, cell? type = some cell ∧ init = cell.zero := by
  cases type <;> cases known <;> exact ⟨_, rfl, rfl⟩

mutual

/-- A statement is gone through stage by stage, each where the one before it has led to. -/
theorem Lowers.step {d d' : Draft} {s : Statement} {T : Table}
    (h : Draft.IsOpen d.blocks d.block) (stocked : Stocked d T) : Lowers d s d' → ∃ T',
      Step d T (items s) (visits (Cursor.of d) s) d' T' ∧ Cursor.of d' = advance (Cursor.of d) s
  | .performs done => by
    obtain ⟨T', texts, as, line, new, made, moved⟩ := Performs.line stocked done
    rw [new, made, moved]
    exact ⟨T', line.step h, line.cursor stocked⟩
  | .declare _ initial new => by
    obtain ⟨cell, known, rfl⟩ := exists_cell initial
    obtain ⟨T', step⟩ := Step.declare stocked _ cell new
    rw [items, known]
    exact ⟨T', step, rfl⟩
  | @Lowers.ifElse _ d₁ d₂ d₃ _ _ v _ _ condition first second => by
    obtain ⟨T₁, asked, moved⟩ := Emits.step h stocked condition
    have branch := Step.branch asked.stocked
    obtain ⟨T₂, step₁, moved₁⟩ := LowersAll.step (isOpen_branch _) branch.stocked first
    have open₁ := isOpen_otherwise (first.region (isOpen_branch _))
    have otherwise := Step.otherwise d₁ step₁.stocked
    obtain ⟨T₃, step₂, moved₂⟩ := LowersAll.step open₁ otherwise.stocked second
    have whole := asked.trans ((branch.trans step₁).trans
      ((otherwise.trans step₂).trans (Step.merge d₁ v step₂.stocked)))
    rw [cursor_otherwise, moved₁, cursor_branch, moved] at moved₂ whole
    refine ⟨T₃, ?_, ?_⟩
    · simpa [items, visits, itemsElse_eq, visitsElse_eq] using whole
    · rw [cursor_merge, moved₂, moved, advance, advanceElse_eq]
  | @Lowers.while _ d₁ d₂ _ _ v _ condition inner => by
    have loop := Step.loop stocked
    obtain ⟨T₁, asked, moved⟩ := Emits.step (isOpen_loop h) loop.stocked condition
    obtain ⟨_, added⟩ := condition.straight
    have open₁ := isOpen_loopBody (v := v) h (added.region (isOpen_loop h))
    have loopBody := Step.loopBody d v asked.stocked
    obtain ⟨T₂, step₁, moved₁⟩ := LowersAll.step open₁ loopBody.stocked inner
    have whole := (loop.trans asked).trans
      ((loopBody.trans step₁).trans (Step.endLoop d step₁.stocked))
    rw [cursor_loopBody, moved, cursor_loop] at moved₁ whole
    refine ⟨T₂, ?_, ?_⟩
    · simpa [items, visits] using whole
    · rw [cursor_endLoop, moved₁, advance]
  | @Lowers.repeat _ d₁ d₂ _ _ v _ inner condition => by
    have again := Step.again stocked
    obtain ⟨T₁, step₁, moved₁⟩ := LowersAll.step (isOpen_again h) again.stocked inner
    have open₁ := (inner.region (isOpen_again h)).isOpen
    obtain ⟨T₂, asked, moved⟩ := Emits.step open₁ step₁.stocked condition
    have whole := (again.trans step₁).trans (asked.trans (Step.endAgain d v asked.stocked))
    rw [moved₁, cursor_again] at moved whole
    refine ⟨T₂, ?_, ?_⟩
    · simpa [items, visits] using whole
    · rw [cursor_endAgain, moved, advance]

theorem LowersAll.step {d d' : Draft} {ss : List Statement} {T : Table}
    (h : Draft.IsOpen d.blocks d.block) (stocked : Stocked d T) : LowersAll d ss d' → ∃ T',
      Step d T (itemsAll ss) (visitsAll (Cursor.of d) ss) d' T' ∧
        Cursor.of d' = advanceAll (Cursor.of d) ss
  | .nil => ⟨T, .still stocked rfl rfl rfl fun _ => rfl, rfl⟩
  | .cons head tail => by
    obtain ⟨T₁, first, moved⟩ := Lowers.step h stocked head
    obtain ⟨T₂, rest, moved₁⟩ := LowersAll.step (head.region h).isOpen first.stocked tail
    rw [moved] at rest moved₁
    exact ⟨T₂, first.trans rest, moved₁⟩

end

end Pseudocode.Globals
