import Pseudocode.Proofs.Execution.Inventory
import Pseudocode.Proofs.Execution.Steps

/-! # Variables in memory, values in temporaries

What has to agree between the run of a program and that of its module.

* `Layout` is all that the finished module knows of variables, `Part` says that a draft is
  on the way to it.
* `Mirrors L σ memory`: every variable holds what its global holds. It is true at the start
  (`Mirrors.initial`) and stays so when both are changed (`Mirrors.assign`).
* `Holds fr v x`: the operand `v` stands for the datum `x`.
* `Later n fr fr'`: nothing was stored, and the temporaries below the number are as they
  were, so that operands that are `Kept` stand for the same as before.
-/

namespace Pseudocode.Execution

open Assembly Lowering Typing

/-! ## Layouts -/

/-- The globals of a module, and where the variables of the program are among them. -/
structure Layout where
  globals : List Global
  bindings : List (String × Binding)
  rows : List Row
  inventory : Inventory globals bindings rows

namespace Layout

def home? (L : Layout) (name : String) : Option Global := (formatRows ++ L.rows).lookup name

def nameOf (L : Layout) (name : String) : String := Execution.nameOf L.rows name

theorem nameOf_eq {L : Layout} {name : String} {g : Global} (home : L.home? name = some g) :
    L.nameOf name = g.name :=
  Inventory.nameOf_eq home

/-- Only the formats are constants, and they are texts. -/
theorem constant_eq_false {L : Layout} {name : String} {g : Global} {κ : Kind}
    (home : L.home? name = some g) (typed : g.type = κ.ty) (scalar : κ.isText = false) :
    g.constant = false := by
  rcases List.mem_append.mp (Inventory.mem_of_lookup home) with format | own
  · have isArray : ∀ r ∈ formatRows, r.2.type.isArray = true := by decide
    have contradiction := isArray _ format
    rw [typed] at contradiction
    cases κ <;> cases scalar <;> cases contradiction
  · exact L.inventory.not_constant own

end Layout

/-- What the draft has is in the layout. -/
structure Part (L : Layout) (d : Draft) : Prop where
  globals : d.globals <+: L.globals
  bindings : d.bindings <+: L.bindings

namespace Part

variable {L : Layout} {d d' : Draft}

theorem of_grows (part : Part L d') (grows : Grows d d') : Part L d where
  globals := grows.globals.trans part.globals
  bindings := grows.bindings.trans part.bindings

theorem of_straight {code : List Instr} (part : Part L d') (added : Straight d code d') :
    Part L d where
  globals := added.globals_prefix.trans part.globals
  bindings := added.bindings ▸ part.bindings

/-- The storage of a variable is its global. -/
theorem home (part : Part L d) {name : String} {b : Binding}
    (found : d.bindings.lookup name = some b) :
    ∃ g, L.home? name = some g ∧ b.storage = g.address := by
  obtain ⟨more, same⟩ := part.bindings
  refine L.inventory.lookup ?_
  rw [← same, List.lookup_append, found]
  rfl

end Part

/-! ## Variables -/

def Datum.type : Datum → Ty
  | .int bits _ => .int bits
  | .real _ => .double
  | .text bytes => .array bytes.length .i8

theorem type_initial (init : Initializer) : (initial init).type = init.type := by
  cases init <;> rfl

theorem Datum.type_eq_int {x : Datum} {w : Nat} : x.type = .int w ↔ ∃ n, x = .int w n := by
  constructor
  · intro typed
    cases x <;> cases typed
    exact ⟨_, rfl⟩
  · rintro ⟨n, rfl⟩
    rfl

theorem Datum.type_eq_double {x : Datum} : x.type = .double ↔ ∃ r, x = .real r := by
  constructor
  · intro typed
    cases x <;> cases typed
    exact ⟨_, rfl⟩
  · rintro ⟨r, rfl⟩
    rfl

theorem Datum.type_eq_array {x : Datum} {size : Nat} (typed : x.type = .array size .i8) :
    ∃ bytes, x = .text bytes := by
  cases x <;> cases typed
  exact ⟨_, rfl⟩

theorem Datum.alike_of_type_eq {x y : Datum} (same : x.type = y.type) (scalar : y.word?.isSome) :
    x.alike y = true := by
  cases y <;> cases scalar <;> cases x <;> cases same <;> simp [Datum.alike]

/-- Every variable holds what its global does, and constants hold what they did at the
    start. -/
structure Mirrors (L : Layout) (σ : Variables) (memory : String → Option Datum) : Prop where
  held : ∀ name g, L.home? name = some g →
    ∃ x, σ name = some x ∧ memory g.name = some x ∧ x.type = g.type
  constants : ∀ g ∈ L.globals, g.constant = true → memory g.name = some (initial g.init)

namespace Mirrors

variable {L : Layout} {σ : Variables} {memory : String → Option Datum}

theorem initialMemory_eq (L : Layout) {g : Global} (member : g ∈ L.globals) :
    initialMemory L.globals g.name = some (Execution.initial g.init) := by
  have some : (L.globals.find? (·.name = g.name)).isSome :=
    List.find?_isSome.mpr ⟨g, member, decide_eq_true rfl⟩
  obtain ⟨g', found⟩ := Option.isSome_iff_exists.mp some
  have named : g'.name = g.name := by simpa using List.find?_some found
  rw [initialMemory, found,
    L.inventory.eq_of_mem (List.mem_of_find?_eq_some found) member named]
  rfl

/-- At the start both have what the declarations say. -/
theorem initial {p : Program}
    (declares : L.rows.map (fun r => (r.1, Execution.initial r.2.init)) = declaredAll p) :
    Mirrors L (fun name => (initialVariables p).lookup name) (initialMemory L.globals) where
  held := by
    intro name g home
    have all : initialVariables p =
        (formatRows ++ L.rows).map fun r => (r.1, Execution.initial r.2.init) := by
      rw [initialVariables, ← declares, List.map_append]
      rfl
    refine ⟨Execution.initial g.init, ?_, ?_, type_initial g.init⟩
    · rw [all, Inventory.lookup_map fun g : Global => Execution.initial g.init]
      exact congrArg (Option.map _) home
    · exact initialMemory_eq L (L.inventory.mem_globals home)
  constants := fun _ member _ => initialMemory_eq L member

/-- A variable and its global get the same value. -/
theorem assign (mirrors : Mirrors L σ memory) {name : String} {g : Global} {x : Datum}
    (home : L.home? name = some g) (changes : g.constant = false) (typed : x.type = g.type) :
    Mirrors L (fun name' => if name' = name then some x else σ name')
      (fun name' => if name' = g.name then some x else memory name') where
  held := by
    intro name' g' home'
    by_cases same : name' = name
    · subst same
      obtain rfl : g = g' := Option.some.inj (home.symm.trans home')
      exact ⟨x, if_pos rfl, if_pos rfl, typed⟩
    · have other : g'.name ≠ g.name := fun sameName =>
        same (L.inventory.eq_of_name_eq home' home sameName)
      simpa only [if_neg same, if_neg other] using mirrors.held name' g' home'
  constants := by
    intro g' member constant
    have other : g'.name ≠ g.name := by
      intro sameName
      have sameGlobal := L.inventory.eq_of_mem member (L.inventory.mem_globals home) sameName
      rw [sameGlobal, changes] at constant
      cases constant
    simpa only [if_neg other] using mirrors.constants g' member constant

end Mirrors

/-! ## Operands -/

/-- The operand stands for the datum. -/
def Holds (fr : Frame) (v : Value) (x : Datum) : Prop := (fr.word? v).bind fr.seen? = some x

/-- The operand is no temporary from the number on. -/
def Kept (n : Nat) (v : Value) : Prop := ∀ name t, v = .temp name t → ∃ i < n, name = tempName i

/-- Nothing was stored, and no temporary below the number was changed. -/
structure Later (n : Nat) (fr fr' : Frame) : Prop where
  memory : fr'.memory = fr.memory
  temps : ∀ i < n, fr'.temps (tempName i) = fr.temps (tempName i)

namespace Later

theorem refl (n : Nat) (fr : Frame) : Later n fr fr where
  memory := rfl
  temps := fun _ _ => rfl

theorem trans {m n : Nat} {fr fr₁ fr₂ : Frame} (first : Later m fr fr₁)
    (second : Later n fr₁ fr₂) (less : m ≤ n) : Later m fr fr₂ where
  memory := second.memory.trans first.memory
  temps := fun i below => (second.temps i (Nat.lt_of_lt_of_le below less)).trans (first.temps i below)

theorem word?_eq {n : Nat} {fr fr' : Frame} {v : Value} (later : Later n fr fr')
    (kept : Kept n v) : fr'.word? v = fr.word? v := by
  cases v with
  | temp name t =>
    obtain ⟨i, below, rfl⟩ := kept name t rfl
    exact later.temps i below
  | int | double | global => rfl

theorem seen?_eq {n : Nat} {fr fr' : Frame} (later : Later n fr fr') : fr'.seen? = fr.seen? := by
  funext w
  cases w with
  | address name => simp only [Frame.seen?, later.memory]
  | int | real => rfl

/-- What is kept stands for the same as before. -/
theorem holds {n : Nat} {fr fr' : Frame} {v : Value} {x : Datum} (later : Later n fr fr')
    (kept : Kept n v) (held : Holds fr v x) : Holds fr' v x := by
  rw [Holds, later.word?_eq kept, later.seen?_eq]
  exact held

end Later

namespace Kept

theorem mono {m n : Nat} {v : Value} (kept : Kept m v) (less : m ≤ n) : Kept n v := by
  intro name t same
  obtain ⟨i, below, named⟩ := kept name t same
  exact ⟨i, Nat.lt_of_lt_of_le below less, named⟩

theorem int (n bits : Nat) (i : Int) : Kept n (.int bits i) := nofun

theorem double (n : Nat) (x : Double) : Kept n (.double x) := nofun

theorem global (n : Nat) (name : String) (t : Ty) : Kept n (.global name t) := nofun

theorem next (d : Draft) (t : Ty) : Kept (d.temps + 1) (d.next t) := by
  rintro name t' same
  cases same
  exact ⟨d.temps, Nat.lt_succ_self _, rfl⟩

end Kept

/-- A number that an operand stands for is the word itself. -/
theorem Holds.word?_eq {fr : Frame} {v : Value} {x : Datum} {w : Word} (held : Holds fr v x)
    (word : x.word? = some w) : fr.word? v = some w := by
  obtain ⟨w', found, seen⟩ := Option.bind_eq_some_iff.mp held
  rw [found]
  cases w' with
  | int bits n | real y =>
    cases seen
    exact word
  | address name =>
    simp only [Frame.seen?] at seen
    split at seen <;> cases seen
    cases word

/-- A number is seen as what it is. -/
theorem seen?_of_word? {x : Datum} {w : Word} (fr : Frame) (word : x.word? = some w) :
    fr.seen? w = some x := by
  cases x <;> cases word <;> rfl

/-! ## Defining temporaries -/

/-- The frame in which the temporary of the number holds the word. -/
def Frame.withTemp (fr : Frame) (i : Nat) (w : Word) : Frame :=
  { fr with temps := fun name => if name = tempName i then some w else fr.temps name }

section Define

variable {fr : Frame} {w : Word}

theorem define_next (d : Draft) (t : Ty) :
    fr.define (d.next t) w = .ok (fr.withTemp d.temps w) := rfl

theorem later_withTemp (i : Nat) : Later i fr (fr.withTemp i w) where
  memory := rfl
  temps := by
    intro j below
    exact if_neg fun same => Nat.ne_of_lt below (tempName_injective same)

theorem holds_next {d : Draft} {t : Ty} {x : Datum} (seen : fr.seen? w = some x) :
    Holds (fr.withTemp d.temps w) (d.next t) x := by
  have found : (fr.withTemp d.temps w).word? (d.next t) = some w := if_pos rfl
  have later : Later 0 fr (fr.withTemp d.temps w) := ⟨rfl, nofun⟩
  rw [Holds, found, later.seen?_eq]
  exact seen

end Define

end Pseudocode.Execution
