import Pseudocode.Proofs.Globals.Stock
import Pseudocode.Proofs.Lowering.Emission

/-! # The globals that expressions get at

* `Line d T items as d' T'`: instructions in one block, which add the items to the table and get
  at globals as the accesses say.
* `Emits.line`: the code of an expression is such a line, and its value is the address of a global
  exactly if the expression is a text.
-/

namespace Pseudocode.Globals

open Assembly Lowering Typing

/-! ## Places -/

theorem Place.symbol?_append {T : Table} {p : Place} {name : String} (more : Table)
    (found : p.symbol? T = some name) : p.symbol? (T ++ more) = some name := by
  cases p with
  | format _ => exact found
  | declared x =>
    obtain ⟨row, among, rfl⟩ := Option.map_eq_some_iff.mp found
    simp [symbol?, List.find?_append, among]
  | literal number =>
    obtain ⟨row, among, rfl⟩ := Option.map_eq_some_iff.mp found
    have within := (List.getElem?_eq_some_iff.mp among).1
    simp [symbol?, List.filter_append, List.getElem?_append_left within, among]

/-- The value is the address of the global at the place, or of none if there is no place. -/
def Stands (T : Table) (place : Option Place) (v : Value) : Prop :=
  match place with
  | none => globalName? v = none
  | some p => ∃ name, p.symbol? T = some name ∧ globalName? v = some name

/-- The uses are the accesses, one by one. -/
abbrev GetsAll (T : Table) (us : List (Way × String)) (as : List Access) : Prop :=
  List.Forall₂ (Gets T) us as

section

variable {T : Table} (more : Table)

theorem Stands.mono {place : Option Place} {v : Value} (stands : Stands T place v) :
    Stands (T ++ more) place v := by
  cases place with
  | none => exact stands
  | some p =>
    obtain ⟨name, symbol, global⟩ := stands
    exact ⟨name, Place.symbol?_append more symbol, global⟩

theorem GetsAll.mono {us : List (Way × String)} {as : List Access} (gets : GetsAll T us as) :
    GetsAll (T ++ more) us as :=
  gets.imp fun _ _ get => ⟨get.way, Place.symbol?_append more get.symbol⟩

end

theorem gets_named {T : Table} {p : Place} {v : Value} (way : Way) (stands : Stands T (some p) v) :
    GetsAll T (named way [v]) [⟨way, p⟩] := by
  obtain ⟨name, symbol, global⟩ := stands
  have single : named way [v] = [(way, name)] := by simp [named, global]
  rw [single]
  exact .cons ⟨rfl, symbol⟩ .nil

theorem named_of_none {way : Way} {vs : List Value} (none : ∀ v ∈ vs, globalName? v = none) :
    named way vs = [] := by
  rw [named, List.filterMap_eq_nil_iff]
  intro v member
  rw [none v member]
  rfl

/-- A value that is passed or written as a text is used by its address if it is one. -/
theorem gets_address {T : Table} {place : Option Place} {v : Value} (stands : Stands T place v) :
    GetsAll T (named .address [v]) (addressOf place) := by
  cases place with
  | none =>
    rw [named_of_none (List.forall_mem_singleton.mpr stands)]
    exact .nil
  | some p => exact gets_named .address stands

/-! ## Lines of code -/

/-- From `d` to `d'` instructions were added to the current block. They get at globals as the
    accesses say, and the items that came in are in the table. -/
structure Line (d : Draft) (T : Table) (new : List Item) (as : List Access) (d' : Draft)
    (T' : Table) : Prop where
  table : ∃ more, T' = T ++ more ∧ more.map Prod.fst = new
  stocked : Stocked d' T'
  code : ∃ code, Straight d code d' ∧ GetsAll T' (code.flatMap uses) as

namespace Line

variable {d d₁ d₂ : Draft} {T T₁ T₂ : Table} {new new₁ : List Item} {as as₁ : List Access}

theorem refl (stocked : Stocked d T) : Line d T [] [] d T where
  table := ⟨[], by simp⟩
  stocked := stocked
  code := ⟨[], .refl d, .nil⟩

theorem trans (first : Line d T new as d₁ T₁) (second : Line d₁ T₁ new₁ as₁ d₂ T₂) :
    Line d T (new ++ new₁) (as ++ as₁) d₂ T₂ := by
  obtain ⟨more, rfl, rfl⟩ := first.table
  obtain ⟨more₁, rfl, rfl⟩ := second.table
  obtain ⟨code, straight, gets⟩ := first.code
  obtain ⟨code₁, straight₁, gets₁⟩ := second.code
  refine ⟨⟨more ++ more₁, by simp, by simp⟩, second.stocked, code ++ code₁,
    straight.trans straight₁, ?_⟩
  rw [List.flatMap_append]
  exact List.rel_append (gets.mono more₁) gets₁

/-- Code behind a line that adds no item. -/
theorem followed (first : Line d T new as d₁ T₁) (second : Line d₁ T₁ [] as₁ d₂ T₁) :
    Line d T new (as ++ as₁) d₂ T₁ := by
  simpa using first.trans second

/-- Code behind a line that gets at no global. -/
theorem silent (first : Line d T new as d₁ T₁) (second : Line d₁ T₁ [] [] d₂ T₁) :
    Line d T new as d₂ T₁ := by
  simpa using first.trans second

theorem define (stocked : Stocked d T) (t : Ty) (instr : Value → Instr)
    (gets : GetsAll T (uses (instr (d.next t))) as) : Line d T [] as (d.define t instr) T where
  table := ⟨[], by simp⟩
  stocked := stocked.same rfl rfl rfl
  code := ⟨_, .define d t instr, by simpa using gets⟩

theorem addString (stocked : Stocked d T) (text : String) :
    Line d T [.literal text] [] (d.addString text) (T ++ [(.literal text, d.literal text)]) where
  table := ⟨_, rfl, rfl⟩
  stocked := stocked.addString text
  code := ⟨[], .addString d text, .nil⟩

theorem strings (stocked : Stocked d T) (line : Line d T new as d₁ T₁) :
    d₁.strings = d.strings + new.countP Item.isLiteral := by
  obtain ⟨more, rfl, rfl⟩ := line.table
  rw [line.stocked.strings, stocked.strings, List.map_append, List.countP_append]

end Line

theorem countP_literals (texts : List String) :
    (texts.map Item.literal).countP Item.isLiteral = texts.length := by
  rw [List.countP_eq_length.mpr (by simp), List.length_map]

theorem Line.strings_literals {d d₁ : Draft} {T T₁ : Table} {texts : List String}
    {as : List Access} (stocked : Stocked d T)
    (line : Line d T (texts.map .literal) as d₁ T₁) : d₁.strings = d.strings + texts.length := by
  rw [line.strings stocked, countP_literals]

/-! ## Operators and arguments -/

section Operators

variable {d : Draft} {T : Table} {v : Value} {κ : Kind}

/-- Only a value that is no address is widened. -/
theorem line_widen (stocked : Stocked d T) (κ' : Kind) (free : globalName? v = none) :
    Line d T [] [] (d.widen κ κ' v) T ∧ globalName? (d.widened κ κ' v) = none := by
  unfold Draft.widen Draft.widened
  split
  · refine ⟨.define stocked .i32 (.cast · .zext v) ?_, rfl⟩
    have stands : Stands T none v := free
    exact gets_address stands
  · exact ⟨.refl stocked, free⟩

theorem uses_operator {op : Operator} {lhs rhs dst : Value} (left : globalName? lhs = none)
    (right : globalName? rhs = none) : uses (operatorInstr op κ lhs rhs dst) = [] := by
  have none : ∀ v ∈ [lhs, rhs], globalName? v = none := by simp [left, right]
  unfold operatorInstr
  split <;> exact named_of_none none

theorem uses_negate {dst : Value} (free : globalName? v = none) :
    uses (negateInstr κ v dst) = [] := by
  unfold negateInstr
  split <;> exact named_of_none (by simpa [Instr.operands] using ⟨rfl, free⟩)

theorem uses_call {dst : Option Value} (f : Signature) {args : List Value}
    (none : ∀ w ∈ args, globalName? w = none) : uses (.call dst f args) = [] :=
  named_of_none none

/-- An argument that is a text is passed by its address, any other as a value. -/
theorem line_pass (stocked : Stocked d T) {place : Option Place} (stands : Stands T place v)
    (kind : place.isSome = κ.isText) :
    Line d T [] (addressOf place) (d.pass κ v) T ∧ globalName? (d.passed κ v) = none := by
  cases κ with
  | text size =>
    exact ⟨.define stocked .bytePtr (.cast · .bitcast v) (gets_address stands), rfl⟩
  | bool => exact ⟨.define stocked .i32 (.cast · .zext v) (gets_address stands), rfl⟩
  | int | real =>
    obtain rfl : place = none := by simpa [Kind.isText] using kind
    exact ⟨.refl stocked, stands⟩

theorem line_passAll {texts : List (Option Place)} {vs : List (Kind × Value)}
    (given : List.Forall₂ (fun place v => Stands T place v.2 ∧ place.isSome = v.1.isText) texts vs) :
    ∀ {d : Draft}, Stocked d T → Line d T [] (texts.flatMap addressOf) (d.passAll vs) T ∧
      ∀ w ∈ d.passedAll vs, globalName? w = none := by
  induction given with
  | nil => exact fun stocked => ⟨.refl stocked, nofun⟩
  | @cons place v texts vs head tail ih =>
    intro d stocked
    obtain ⟨stands, kind⟩ := head
    obtain ⟨first, free⟩ := line_pass stocked stands kind
    obtain ⟨rest, others⟩ := ih first.stocked
    refine ⟨first.trans rest, ?_⟩
    rintro w (_ | ⟨_, member⟩)
    · exact free
    · exact others w member

end Operators

/-! ## Expressions -/

/-- Only the formats are bound to texts. -/
theorem isFormat_of_text {d : Draft} {T : Table} (stocked : Stocked d T) {name : String}
    {b : Binding} {size : Nat} (found : d.bindings.lookup name = some b)
    (held : b.storage.type = .ptr (.array size .i8)) : isFormat name = true := by
  refine Bool.not_eq_false _ |>.mp fun other => ?_
  obtain ⟨cell, g, _, address, init⟩ := stocked.lookup_declared found other
  rw [address] at held
  have type : g.init.type = .array size .i8 := by injection held
  rw [init] at type
  cases cell <;> cases type

theorem not_isFormat_of_scalar {d : Draft} {T : Table} (stocked : Stocked d T) {name : String}
    {b : Binding} {κ : Kind} (found : d.bindings.lookup name = some b)
    (held : b.storage.type = .ptr κ.ty) (scalar : κ.isText = false) : isFormat name = false := by
  refine Bool.not_eq_true _ |>.mp fun format => ?_
  obtain ⟨length, address⟩ := stocked.lookup_format found format
  rw [address] at held
  have type : Ty.array length .i8 = κ.ty := by injection held
  cases κ <;> cases scalar <;> cases type

/-- What a variable is bound to stands for it. -/
theorem stands_declared {d : Draft} {T : Table} (stocked : Stocked d T) {name : String}
    {b : Binding} (found : d.bindings.lookup name = some b) (other : isFormat name = false) :
    Stands T (some (.declared name)) b.storage := by
  obtain ⟨cell, g, row, address, _⟩ := stocked.lookup_declared found other
  exact ⟨g.name, by simp [Place.symbol?, row], by rw [address]; rfl⟩

theorem stands_format {d : Draft} {T : Table} (stocked : Stocked d T) {name : String}
    {b : Binding} (found : d.bindings.lookup name = some b) (format : isFormat name = true) :
    Stands T (some (.format name)) b.storage := by
  obtain ⟨length, address⟩ := stocked.lookup_format found format
  exact ⟨name, rfl, by rw [address]; rfl⟩

/-- An expression that is no text, with the code that puts its value into a temporary. -/
theorem scalar_line {d d₁ : Draft} {T T₁ : Table} {new : List Item} {as : List Access} {t : Ty}
    (operands : Line d T new as d₁ T₁) {instr : Value → Instr}
    (none : uses (instr (d₁.next t)) = []) : Line d T new as (d₁.define t instr) T₁ :=
  operands.silent (.define operands.stocked t instr (none ▸ .nil))

theorem free_of_scalar {T : Table} {place : Option Place} {v : Value} {κ : Kind}
    (stands : Stands T place v) (kind : place.isSome = κ.isText) (scalar : κ.isText = false) :
    globalName? v = none := by
  obtain rfl : place = none := by simpa [scalar] using kind
  exact stands

theorem isText_resultKind {op : Operator} {κ : Kind} (scalar : κ.isText = false) :
    (resultKind op κ).isText = false := by
  cases op with
  | compare c => rfl
  | arithmetic a => exact scalar

/-- Texts are not joined. -/
theorem isText_of_joined {κl κr κ : Kind} (joined : κl.join? κr = some κ) :
    κl.isText = false ∧ κr.isText = false := by
  cases κl <;> cases κr <;> cases joined <;> exact ⟨rfl, rfl⟩

mutual

/-- The code of an expression gets at globals as the expression says. -/
theorem Emits.line {d d' : Draft} {e : Expression} {κ : Kind} {v : Value} {T : Table}
    (stocked : Stocked d T) : Emits d e κ v d' → ∃ T',
      Line d T ((literals e).map .literal) (accesses d.strings e) d' T' ∧
      Stands T' (text? d.strings e) v ∧ (text? d.strings e).isSome = κ.isText
  | .bool _ | .integer _ | .real _ => ⟨T, .refl stocked, rfl, rfl⟩
  | .string s => by
    refine ⟨_, .addString stocked s, ⟨_, ?_, rfl⟩, rfl⟩
    have last : (T.filter (·.1.isLiteral)).length = d.strings := by
      rw [stocked.strings, List.countP_map, List.countP_eq_length_filter]
      rfl
    simp [Place.symbol?, List.filter_append, ← last, List.filter_singleton]
  | .text found held => by
    have format := isFormat_of_text stocked found held
    refine ⟨T, ?_, ?_⟩
    · simpa [literals, accesses, format] using Line.refl stocked
    · simpa [text?, format] using ⟨stands_format stocked found format, rfl⟩
  | .load found held scalar => by
    have other := not_isFormat_of_scalar stocked found held scalar
    refine ⟨T, ?_, ?_⟩
    · simp only [literals, accesses, other]
      exact .define stocked _ _ (gets_named .load (stands_declared stocked found other))
    · simp only [text?, other]
      exact ⟨rfl, scalar.symm⟩
  | .parenthesized inner => by
    obtain ⟨T₁, line, stands, kind⟩ := Emits.line stocked inner
    exact ⟨T₁, line, stands, kind⟩
  | .not operand => by
    obtain ⟨T₁, line, stands, kind⟩ := Emits.line stocked operand
    have free := free_of_scalar stands kind rfl
    exact ⟨T₁, scalar_line line (named_of_none (by simpa [Instr.operands] using ⟨free, rfl⟩)), rfl, rfl⟩
  | .negate operand signed => by
    obtain ⟨T₁, line, stands, kind⟩ := Emits.line stocked operand
    have scalar : κ.isText = false := by rcases signed with rfl | rfl <;> rfl
    have free := free_of_scalar stands kind scalar
    exact ⟨T₁, scalar_line line (uses_negate free), rfl, scalar.symm⟩
  | .binary left right joined widenLeft widenRight => by
    obtain ⟨T₁, lineLeft, standsLeft, kindLeft⟩ := Emits.line stocked left
    obtain ⟨T₂, lineRight, standsRight, kindRight⟩ := Emits.line lineLeft.stocked right
    have scalar := Kind.isText_of_join? joined
    obtain ⟨scalarLeft, scalarRight⟩ := isText_of_joined joined
    have freeLeft := free_of_scalar standsLeft kindLeft scalarLeft
    have freeRight := free_of_scalar standsRight kindRight scalarRight
    obtain ⟨wide, freeLeft⟩ := line_widen lineRight.stocked _ freeLeft
    obtain ⟨wide₁, freeRight⟩ := line_widen wide.stocked _ freeRight
    subst widenLeft widenRight
    rw [lineLeft.strings_literals stocked] at lineRight
    have operands := ((lineLeft.trans lineRight).silent wide).silent wide₁
    refine ⟨T₂, ?_, rfl, (isText_resultKind scalar).symm⟩
    simpa [literals, accesses] using scalar_line operands (uses_operator freeLeft freeRight)
  | .call (f := f) args _ _ passed => by
    obtain ⟨T₁, line, given⟩ := EmitsAll.line stocked args
    obtain ⟨pass, free⟩ := line_passAll given line.stocked
    subst passed
    refine ⟨T₁, ?_, rfl, rfl⟩
    exact scalar_line (line.followed pass) (uses_call f free)

theorem EmitsAll.line {d d' : Draft} {es : List Expression} {vs : List (Kind × Value)} {T : Table}
    (stocked : Stocked d T) : EmitsAll d es vs d' → ∃ T',
      Line d T ((literalsAll es).map .literal) (accessesAll d.strings es) d' T' ∧
      List.Forall₂ (fun place v => Stands T' place v.2 ∧ place.isSome = v.1.isText)
        (textsAll d.strings es) vs
  | .nil => ⟨T, .refl stocked, .nil⟩
  | .cons head tail => by
    obtain ⟨T₁, first, stands, kind⟩ := Emits.line stocked head
    obtain ⟨T₂, rest, others⟩ := EmitsAll.line first.stocked tail
    rw [first.strings_literals stocked] at rest others
    refine ⟨T₂, by simpa [literalsAll, accessesAll] using first.trans rest, .cons ⟨?_, kind⟩ others⟩
    obtain ⟨more, rfl, _⟩ := rest.table
    exact stands.mono more

end

end Pseudocode.Globals
