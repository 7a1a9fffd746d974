import Pseudocode.Compile
import Pseudocode.Proofs.Evolution.Lowering
import Pseudocode.Proofs.Globals.Names

/-! # What the events of a compilation tell

* `Bracketed n es`: scopes are entered and left in pairs, and the events tell how many are open.
* `Tells d es d'`: the events `es` tell of the blocks, scopes and globals by which `d'` differs from
  `d`.
* `Evolves.tells`: so do the events of whatever lowering does to a draft.
* `compile_faithful`: the events of a compilation agree with one another and with the outcome.
-/

namespace Pseudocode

open Assembly Lowering Globals

/-! ## Kinds of events -/

namespace Event

@[simp] def isScope : Event → Bool
  | .enteredScope _ => true
  | .leftScope _ => true
  | _ => false

@[simp] def isFinish : Event → Bool
  | .finished .. => true
  | _ => false

/-- The number of the block that was added. -/
@[simp] def allocated? : Event → Option Nat
  | .allocatedBlock index => some index
  | _ => none

/-- What the global of a literal is written as. -/
@[simp] def hoisted? : Event → Option String
  | .stringAdded address => some address.text
  | _ => none

@[simp] def isVariable : Event → Bool
  | .declaredVariable .. => true
  | _ => false

end Event

def allocations (es : List Event) : List Nat := es.filterMap Event.allocated?

def hoists (es : List Event) : List String := es.filterMap Event.hoisted?

/-- How many globals are told of. -/
def globalCount (es : List Event) : Nat := (hoists es).length + es.countP Event.isVariable

/-- Scopes are entered and left in pairs, where `n` scopes are open at the beginning and at the
    end. An event tells how many are open behind it. -/
inductive Bracketed : Nat → List Event → Prop where
  | nil {n : Nat} : Bracketed n []
  | other {n : Nat} {e : Event} {es : List Event} (other : e.isScope = false)
      (rest : Bracketed n es) : Bracketed n (e :: es)
  | scope {n : Nat} {inner rest : List Event} (within : Bracketed (n + 1) inner)
      (after : Bracketed n rest) :
      Bracketed n (.enteredScope (n + 1) :: (inner ++ .leftScope n :: rest))

theorem Bracketed.append {n : Nat} {es es' : List Event} (first : Bracketed n es)
    (second : Bracketed n es') : Bracketed n (es ++ es') := by
  induction first with
  | nil => exact second
  | other other _ ih => exact .other other (ih second)
  | scope within _ _ ih =>
    rw [List.cons_append, List.append_assoc]
    exact .scope within (ih second)

@[simp] theorem allocations_nil : allocations [] = [] := rfl

@[simp] theorem allocations_cons (e : Event) (es : List Event) :
    allocations (e :: es) = e.allocated?.toList ++ allocations es := by
  cases e <;> rfl

@[simp] theorem allocations_append (es es' : List Event) :
    allocations (es ++ es') = allocations es ++ allocations es' := List.filterMap_append

@[simp] theorem hoists_nil : hoists [] = [] := rfl

@[simp] theorem hoists_cons (e : Event) (es : List Event) :
    hoists (e :: es) = e.hoisted?.toList ++ hoists es := by
  cases e <;> rfl

@[simp] theorem hoists_append (es es' : List Event) :
    hoists (es ++ es') = hoists es ++ hoists es' := List.filterMap_append

@[simp] theorem globalCount_nil : globalCount [] = 0 := rfl

@[simp] theorem globalCount_cons (e : Event) (es : List Event) :
    globalCount (e :: es) =
      e.hoisted?.toList.length + e.isVariable.toNat + globalCount es := by
  cases e <;> simp [globalCount, List.countP_cons] <;> omega

@[simp] theorem globalCount_append (es es' : List Event) :
    globalCount (es ++ es') = globalCount es + globalCount es' := by
  simp [globalCount]
  omega

namespace Lowering

/-! ## Numbers of literals -/

/-- No global has the name of a literal to come. -/
def Numbered (d : Draft) : Prop := ∀ j, d.strings ≤ j → literalSymbol j ∉ d.target.names

theorem numbered_initial : Numbered .initial := fun j _ member =>
  literalSymbol_not_plain j (plain_of_given member)

theorem freshName_cases (names : List String) (base : String) :
    Module.freshName names base = base ∨
      ∃ n, Module.freshName names base = Module.numbered base n := by
  by_cases taken : base ∈ names
  · exact .inr ((freshName_of_mem taken).imp fun _ made => made.1)
  · exact .inl (freshName_of_notMem taken)

theorem mem_names_add {d : Draft} {g : Global} {name : String}
    (member : name ∈ (d.globals ++ [g]).map Global.name ++ functionNames) :
    name ∈ d.target.names ∨ name = g.name := by
  simp only [names_target, List.map_append, List.mem_append, List.map_singleton,
    List.mem_singleton] at member ⊢
  tauto

theorem literal_name {d : Draft} (numbered : Numbered d) (text : String) :
    (d.literal text).name = literalSymbol d.strings :=
  (name_newGlobal d _ _ _).trans (freshName_of_notMem (numbered _ (Nat.le_refl _)))

theorem Numbered.addString {d : Draft} (numbered : Numbered d) (text : String) :
    Numbered (d.addString text) := by
  intro j later member
  rcases mem_names_add member with old | same
  · exact numbered j (Nat.le_of_succ_le later) old
  · rw [literal_name numbered] at same
    exact Nat.ne_of_gt later (literalSymbol_injective same)

theorem Numbered.addVariable {d : Draft} (numbered : Numbered d) {name : String}
    (plain : Plain name) (init : Initializer) : Numbered (d.addVariable name init) := by
  intro j later member
  rcases mem_names_add member with old | same
  · exact numbered j later old
  · rw [name_newGlobal] at same
    rcases freshName_cases d.target.names name with itself | ⟨n, made⟩
    · exact literalSymbol_not_plain j ((same.trans itself) ▸ plain)
    · exact literalSymbol_ne_numbered plain j n (same.trans made)

/-! ## What is told of a draft -/

/-- What the globals of so many literals are written as. -/
def literalTexts (count : Nat) : List String :=
  (List.range count).map fun i => s!"@.str.{i}"

theorem literal_text {d : Draft} (numbered : Numbered d) (text : String) :
    (d.literal text).address.text = s!"@.str.{d.strings}" := by
  show "@" ++ (d.literal text).name = _
  rw [literal_name numbered]
  show "@" ++ (".str." ++ toString d.strings) = "@.str." ++ toString d.strings
  rw [← String.append_assoc]
  rfl

/-- The events tell by what the second draft differs from the first one. -/
structure Tells (d : Draft) (es : List Event) (d' : Draft) : Prop where
  events : d'.events = d.events ++ es
  depth : d'.depth = d.depth
  scopes : Bracketed (d.depth + 1) es
  unfinished : ∀ e ∈ es, e.isFinish = false
  blocks : List.range d'.blocks.length = List.range d.blocks.length ++ allocations es
  literals : literalTexts d'.strings = literalTexts d.strings ++ hoists es
  globals : d'.globals.length = d.globals.length + globalCount es
  numbered : Numbered d'

namespace Tells

variable {d d₁ d₂ d' : Draft} {es es' : List Event}

theorem trans (first : Tells d es d₁) (second : Tells d₁ es' d₂) : Tells d (es ++ es') d₂ where
  events := by rw [second.events, first.events, List.append_assoc]
  depth := second.depth.trans first.depth
  scopes := first.scopes.append (first.depth ▸ second.scopes)
  unfinished := List.forall_mem_append.mpr ⟨first.unfinished, second.unfinished⟩
  blocks := by rw [second.blocks, first.blocks, allocations_append, List.append_assoc]
  literals := by rw [second.literals, first.literals, hoists_append, List.append_assoc]
  globals := by rw [second.globals, first.globals, globalCount_append, Nat.add_assoc]
  numbered := second.numbered

/-- Nothing is told, and nothing of that has changed. -/
theorem nil (numbered : Numbered d') (events : d'.events = d.events) (depth : d'.depth = d.depth)
    (blocks : d'.blocks.length = d.blocks.length) (strings : d'.strings = d.strings)
    (globals : d'.globals = d.globals) : Tells d [] d' where
  events := by simp [events]
  depth := depth
  scopes := .nil
  unfinished := by simp
  blocks := by simp [blocks]
  literals := by simp [strings]
  globals := by simp [globals]
  numbered := numbered

theorem ignore (numbered : Numbered d) (name type : String) :
    Tells d [.ignoredDeclaration name type] (d.tell (.ignoredDeclaration name type)) where
  events := rfl
  depth := rfl
  scopes := .other rfl .nil
  unfinished := by simp
  blocks := by simp [Draft.tell]
  literals := by simp [Draft.tell]
  globals := by simp [Draft.tell]
  numbered := numbered

theorem addBlock (numbered : Numbered d) :
    Tells d [.allocatedBlock d.blocks.length] d.addBlock where
  events := rfl
  depth := rfl
  scopes := .other rfl .nil
  unfinished := by simp
  blocks := by simp [Draft.addBlock, List.range_succ]
  literals := by simp [Draft.addBlock]
  globals := by simp [Draft.addBlock]
  numbered := numbered

theorem addString (numbered : Numbered d) (text : String) :
    Tells d [.stringAdded (d.literal text).address] (d.addString text) where
  events := rfl
  depth := rfl
  scopes := .other rfl .nil
  unfinished := by simp
  blocks := by simp [Draft.addString]
  literals := by
    simp [Draft.addString, literalTexts, List.range_succ, literal_text numbered]
  globals := by simp [Draft.addString]
  numbered := numbered.addString text

theorem addVariable (numbered : Numbered d) {name : String} (plain : Plain name)
    (init : Initializer) :
    Tells d [.declaredVariable name (d.newGlobal name init false).address]
      (d.addVariable name init) where
  events := rfl
  depth := rfl
  scopes := .other rfl .nil
  unfinished := by simp
  blocks := by simp [Draft.addVariable]
  literals := by simp [Draft.addVariable]
  globals := by simp [Draft.addVariable]
  numbered := numbered.addVariable plain init

/-- A scope is entered first and left behind all that is told in it. -/
theorem scope (inner : Tells d.openScope es d') :
    Tells d (.enteredScope (d.depth + 2) :: (es ++ [.leftScope (d.depth + 1)])) d'.closeScope where
  events := by
    have depth : d'.depth = d.depth + 1 := inner.depth
    simp [Draft.closeScope, inner.events, Draft.openScope, depth]
  depth := by
    show d'.depth - 1 = d.depth
    rw [inner.depth]
    rfl
  scopes := .scope inner.scopes .nil
  unfinished := by simpa [or_imp, forall_and] using inner.unfinished
  blocks := by simpa [Draft.openScope, Draft.closeScope] using inner.blocks
  literals := by simpa [Draft.openScope, Draft.closeScope] using inner.literals
  globals := by simpa [Draft.openScope, Draft.closeScope] using inner.globals
  numbered := inner.numbered

end Tells

/-- What lowering does to a draft is told by events, as long as variables have plain names. -/
theorem Evolves.tells {own : Nat → Prop} {d d' : Draft} (evolves : Evolves own Plain d d')
    (numbered : Numbered d) : ∃ es, Tells d es d' := by
  induction evolves with
  | refl d => exact ⟨[], .nil numbered rfl rfl rfl rfl rfl⟩
  | trans _ _ ih ih₁ =>
    obtain ⟨es, first⟩ := ih numbered
    obtain ⟨es', second⟩ := ih₁ first.numbered
    exact ⟨es ++ es', first.trans second⟩
  | freshTemp d | enter d _ => exact ⟨[], .nil numbered rfl rfl rfl rfl rfl⟩
  | push _ _ _ | terminate _ _ _ =>
    exact ⟨[], .nil numbered rfl rfl (List.length_modify ..) rfl rfl⟩
  | addString d text => exact ⟨_, .addString numbered text⟩
  | declare d pos init plain _ =>
    have added := Tells.addVariable numbered plain init
    exact ⟨_, added.trans (.nil added.numbered rfl rfl rfl rfl rfl)⟩
  | refuse d init plain _ => exact ⟨_, .addVariable numbered plain init⟩
  | ignore d name type => exact ⟨_, .ignore numbered name type⟩
  | addBlock d => exact ⟨_, .addBlock numbered⟩
  | scope _ ih =>
    obtain ⟨es, inner⟩ := ih numbered
    exact ⟨_, inner.scope⟩

/-- Closing the main function is told of exactly when it gives a module, which is that of the
    draft. -/
theorem finish_tells {d : Draft} (takes : d.Takes) :
    finish d.state = .ok d.finished.target
        (d.finished.tell (.finished d.blocks.length d.globals.length)).state ∨
      ∃ e, finish d.state = .error e d.finished.state := by
  have count : d.finished.blocks.length = d.blocks.length := List.length_modify ..
  cases verified : d.finished.target.verify with
  | ok _ =>
    have done : ofFault d.finished.target.verify d.finished.state = .ok () d.finished.state := by
      rw [verified]
      rfl
    rw [finish, bind_ok (terminate_state takes _), ← count]
    exact .inl (bind_ok done)
  | error fault =>
    have failed : ofFault d.finished.target.verify d.finished.state =
        .error (.consistency fault) d.finished.state := by
      rw [verified]
      rfl
    rw [finish, bind_ok (terminate_state takes _)]
    exact .inr ⟨_, get_bind.trans (bind_error failed)⟩

end Lowering

/-! ## Compilations -/

/-- The events agree with one another. One scope is open at the beginning. -/
structure Consistent (es : List Event) : Prop where
  scopes : Bracketed 1 es
  blocks : allocations es = List.range' 1 (allocations es).length
  literals : hoists es = (List.range (hoists es).length).map fun i => s!"@.str.{i}"

namespace Consistent

variable {es : List Event}

theorem nil : Consistent [] := ⟨.nil, rfl, rfl⟩

theorem lexed (consistent : Consistent es) (count : Nat) : Consistent (.lexed count :: es) where
  scopes := .other rfl consistent.scopes
  blocks := by simpa using consistent.blocks
  literals := by simpa using consistent.literals

theorem finished (consistent : Consistent es) (blocks globals : Nat) :
    Consistent (es ++ [.finished blocks globals]) where
  scopes := consistent.scopes.append (.other rfl .nil)
  blocks := by simpa using consistent.blocks
  literals := by simpa using consistent.literals

end Consistent

namespace Lowering

variable {d : Draft} {es : List Event}

/-- One block and two globals are there before anything is told of them. -/
theorem Tells.length_blocks (tells : Tells .initial es d) :
    d.blocks.length = 1 + (allocations d.events).length := by
  have lengths := congrArg List.length tells.blocks
  rw [tells.events]
  simp [Draft.initial] at lengths ⊢
  omega

theorem Tells.length_globals (tells : Tells .initial es d) :
    d.globals.length = 2 + globalCount d.events := by
  rw [tells.globals, tells.events]
  simp [Draft.initial, formats]

theorem Tells.consistent (tells : Tells .initial es d) : Consistent d.events := by
  have events : d.events = .runtimeReady :: es := tells.events
  refine ⟨events ▸ .other rfl tells.scopes, ?_, ?_⟩
  · have blocks : List.range d.blocks.length = 0 :: allocations d.events := by
      simpa [events, Draft.initial] using tells.blocks
    rw [tells.length_blocks, Nat.add_comm, List.range_eq_range', List.range'_succ] at blocks
    exact (List.cons.inj blocks).2.symm
  · have literals : literalTexts d.strings = hoists d.events := by
      simpa [events, Draft.initial, literalTexts] using tells.literals
    have count : d.strings = (hoists d.events).length := by
      simpa [literalTexts] using congrArg List.length literals
    rw [← count]
    exact literals.symm

theorem Tells.unfinished_events (tells : Tells .initial es d) :
    ∀ e ∈ d.events, e.isFinish = false := by
  rw [tells.events]
  simpa [Draft.initial] using tells.unfinished

end Lowering

/-- The events of a compilation agree with one another and with what came of it: the last one
    tells that it is finished, and how large the module is, if there is a module. Before anything
    is told of them there are one block and two globals. -/
structure Compilation.Faithful (c : Compilation) : Prop extends Consistent c.events where
  failed : ∀ x, c.result = .error x → ∀ e ∈ c.events, e.isFinish = false
  succeeded : ∀ m, c.result = .ok m → ∃ before main,
    c.events = before ++
      [Event.finished (1 + (allocations c.events).length) (2 + globalCount c.events)] ∧
    (∀ e ∈ before, e.isFinish = false) ∧
    m.functionNamed? "main" = some main ∧
    main.blocks.length = 1 + (allocations c.events).length ∧
    m.globals.length = 2 + globalCount c.events

namespace Compilation.Faithful

theorem of_error {es : List Event} (consistent : Consistent es)
    (unfinished : ∀ e ∈ es, e.isFinish = false) (x : Diagnostic) :
    Compilation.Faithful ⟨es, .error x⟩ where
  toConsistent := consistent
  failed _ _ := unfinished
  succeeded _ made := nomatch made

theorem lexed {c : Compilation} (faithful : c.Faithful) (count : Nat) :
    Compilation.Faithful ⟨.lexed count :: c.events, c.result⟩ where
  toConsistent := faithful.toConsistent.lexed count
  failed x refused := by simpa using faithful.failed x refused
  succeeded m made := by
    obtain ⟨before, main, events, unfinished, found, blocks, globals⟩ := faithful.succeeded m made
    refine ⟨.lexed count :: before, main, ?_, by simpa using unfinished, found, ?_, ?_⟩
    · simpa using events
    · simpa using blocks
    · simpa using globals

end Compilation.Faithful

/-- The module of the draft that all statements have led to. -/
theorem Lowering.Tells.faithful {d : Draft} {es : List Event} (tells : Tells .initial es d) :
    Compilation.Faithful ⟨d.events ++ [.finished d.blocks.length d.globals.length],
      .ok d.finished.target⟩ where
  toConsistent := tells.consistent.finished _ _
  failed _ refused := nomatch refused
  succeeded m made := by
    obtain rfl := Except.ok.inj made
    have blocks : d.finished.main.blocks.length = d.blocks.length := List.length_modify ..
    refine ⟨d.events, d.finished.main, ?_, tells.unfinished_events, rfl, ?_, ?_⟩
    · simp [tells.length_blocks, tells.length_globals]
    · rw [blocks, tells.length_blocks]
      simp
    · show d.globals.length = _
      rw [tells.length_globals]
      simp

theorem lower_of_ok {p : Program} {m : Assembly.Module} {s : State}
    (made : program p .empty = .ok m s) : lower p = ⟨s.events, .ok m⟩ := by
  simp only [lower, made]

theorem lower_of_error {p : Program} {e : Diagnostic} {s : State}
    (refused : program p .empty = .error e s) : lower p = ⟨s.events, .error e⟩ := by
  simp only [lower, refused]

/-- The variables of the program have plain names, so no global takes that of a literal. -/
theorem lower_faithful (p : Program)
    (plain : ∀ x cell, .declared x cell ∈ itemsAll p → Plain x) : (lower p).Faithful := by
  have takes : Draft.initial.Takes := ready_initial.isOpen
  obtain ⟨d, evolves, ends⟩ := block_evolving p plain .initial takes
  obtain ⟨es, tells⟩ := evolves.tells numbered_initial
  obtain ⟨⟨_, done⟩, takes⟩ | ⟨⟨e, failed⟩, _⟩ := ends
  · have whole : program p .empty = finish d.state :=
      (bind_ok start_empty).trans (bind_ok done)
    obtain finished | ⟨e, failed⟩ := finish_tells takes
    · exact lower_of_ok (whole.trans finished) ▸ tells.faithful
    · exact lower_of_error (whole.trans failed) ▸
        .of_error tells.consistent tells.unfinished_events e
  · have whole : program p .empty = .error e d.state :=
      (bind_ok start_empty).trans (bind_error failed)
    exact lower_of_error whole ▸ .of_error tells.consistent tells.unfinished_events e

/-- The events of a compilation, which may fail at any point, agree with one another and with what
    came of it. Scopes are entered and left in pairs, and each such event has the number of the
    scopes that are open then, with the root. Blocks are numbered from one on and literals from
    zero on. The last event tells that the compilation is finished, and how large the module and
    its main function are, if there is a module, and otherwise no event does so. -/
theorem compile_faithful (text : String) : (compile text).Faithful := by
  cases tokenized : tokenize text with
  | error e =>
    have whole : compile text = ⟨[], .error (.lexical e)⟩ := by simp only [compile, tokenized]
    rw [whole]
    exact .of_error .nil (by simp) _
  | ok tokens =>
    cases parsed : parseTokens text tokens with
    | error x =>
      have whole : compile text = ⟨[.lexed tokens.length], .error x⟩ := by
        simp only [compile, tokenized, parsed]
      have refused : Compilation.Faithful ⟨[], .error x⟩ := .of_error .nil (by simp) x
      rw [whole]
      exact refused.lexed tokens.length
    | ok p =>
      have read : parse text = .ok p := by simp only [parse, tokenized, parsed]
      have whole : compile text =
          ⟨.lexed tokens.length :: (lower p).events, (lower p).result⟩ := by
        simp only [compile, tokenized, parsed]
      rw [whole]
      exact (lower_faithful p (plain_of_parse read)).lexed tokens.length

example : (compile "REPEAT\nOUTPUT \"a\"\nUNTIL TRUE").events =
    [.lexed 7, .runtimeReady, .allocatedBlock 1, .allocatedBlock 2, .enteredScope 2,
      .stringAdded (.global ".str.0" (.ptr (.array 2 .i8))), .leftScope 1, .finished 3 3] := by
  decide +kernel

end Pseudocode
