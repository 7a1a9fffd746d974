import Pseudocode.Proofs.Printing.Blocks

/-! # The text of a module

* `LegibleGlobal`, `LegibleModule`: a global and a module whose text tells them.
* `module_eq_of_text`: a legible module is told by its text.
-/

namespace Pseudocode.Printing

open Assembly Lowering

/-! ## Globals -/

/-- What is written for the initial value is all there is to tell of it besides its type. -/
def WrittenInit : Initializer → Prop
  | .int bits n => bits = 1 → n = 0 ∨ n = 1
  | .double _ => True
  | .bytes _ => True

theorem toList_bytesText (bs : List UInt8) :
    (Initializer.bytes bs).text.toList = 'c' :: '"' :: bs.flatMap Initializer.escapeByte ++ ['"'] :=
  String.toList_ofList

/-- An initial value is told by its type and its text, up to the end of the line. -/
theorem init_append_inj {x y : Initializer} {s s' : List Char} (written : WrittenInit x)
    (written' : WrittenInit y) (types : x.type = y.type)
    (same : x.text.toList ++ '\n' :: s = y.text.toList ++ '\n' :: s') : x = y ∧ s = s' := by
  cases x with
  | int bits m =>
    cases y with
    | int bits' n =>
      obtain ⟨equal, rest⟩ := text_append_inj_of_type (v := .int bits m) (w := .int bits' n) written
        written' types (stops_cons rfl) (stops_cons rfl) same
      cases equal
      exact ⟨rfl, (List.cons.inj rest).2⟩
    | double | bytes => cases types
  | double a =>
    cases y with
    | double b =>
      obtain ⟨equal, rest⟩ := text_append_inj_of_type (v := .double a) (w := .double b) trivial
        trivial rfl (stops_cons rfl) (stops_cons rfl) same
      cases equal
      exact ⟨rfl, (List.cons.inj rest).2⟩
    | int | bytes => cases types
  | bytes bs =>
    cases y with
    | bytes bs' =>
      rw [toList_bytesText, toList_bytesText] at same
      simp only [List.cons_append, List.append_assoc, List.cons.injEq, true_and] at same
      obtain ⟨rfl, rest⟩ := escapeBytes_append_inj same
      exact ⟨rfl, (List.cons.inj rest).2⟩
    | int | double => cases types

/-- The global is told by its text. -/
structure LegibleGlobal (g : Global) : Prop where
  name : Named g.name
  init : WrittenInit g.init

/-- What is written between the name of a global and its type. -/
def kindText (constant : Bool) : List Char :=
  (if constant then "private unnamed_addr constant" else "global").toList

theorem toList_global (g : Global) : g.text.toList = '@' :: (g.name.toList ++ ' ' :: '=' :: ' ' ::
    (kindText g.constant ++ ' ' :: (g.type.text.toList ++ ' ' :: g.init.text.toList))) := by
  simp [Global.text, kindText, toString]

theorem kindText_append_inj {a b : Bool} {s s' : List Char}
    (same : kindText a ++ s = kindText b ++ s') : a = b ∧ s = s' := by
  cases a <;> cases b
  · exact ⟨rfl, List.append_cancel_left same⟩
  · exact absurd (List.cons.inj same).1 (by decide)
  · exact absurd (List.cons.inj same).1 (by decide)
  · exact ⟨rfl, List.append_cancel_left same⟩

theorem global_append_inj {g h : Global} {s s' : List Char} (legible : LegibleGlobal g)
    (legible' : LegibleGlobal h)
    (same : g.text.toList ++ '\n' :: s = h.text.toList ++ '\n' :: s') : g = h ∧ s = s' := by
  rw [toList_global, toList_global] at same
  simp only [List.cons_append, List.append_assoc, List.cons.injEq, true_and] at same
  obtain ⟨names, rest⟩ :=
    legible.name.append_inj legible'.name (stops_cons rfl) (stops_cons rfl) same
  simp only [List.cons.injEq, true_and] at rest
  obtain ⟨kinds, rest⟩ := kindText_append_inj rest
  obtain ⟨types, rest⟩ := text_append_inj (ends_cons rfl (by decide)) (ends_cons rfl (by decide))
    (List.cons.inj rest).2
  obtain ⟨inits, behind⟩ :=
    init_append_inj legible.init legible'.init types (List.cons.inj rest).2
  obtain ⟨name, init, constant⟩ := g
  obtain ⟨name', init', constant'⟩ := h
  obtain rfl := String.toList_inj.mp names
  obtain rfl : constant = constant' := kinds
  obtain rfl : init = init' := inits
  exact ⟨rfl, behind⟩

/-- The lines of the globals with what comes behind them. -/
def globalsText (s : List Char) : List Global → List Char
  | [] => s
  | g :: gs => g.text.toList ++ '\n' :: globalsText s gs

/-- Globals are told by their lines, up to a blank one. -/
theorem globalsText_inj {gs hs : List Global} {s s' : List Char}
    (legible : ∀ g ∈ gs, LegibleGlobal g) (legible' : ∀ h ∈ hs, LegibleGlobal h)
    (same : globalsText ('\n' :: s) gs = globalsText ('\n' :: s') hs) : gs = hs ∧ s = s' := by
  induction gs generalizing hs with
  | nil =>
    cases hs with
    | nil => exact ⟨rfl, (List.cons.inj same).2⟩
    | cons h hs =>
      rw [globalsText, globalsText, toList_global] at same
      exact absurd (List.cons.inj same).1 (by decide)
  | cons g gs ih =>
    cases hs with
    | nil =>
      rw [globalsText, globalsText, toList_global] at same
      exact absurd (List.cons.inj same).1 (by decide)
    | cons h hs =>
      obtain ⟨first, others⟩ := List.forall_mem_cons.mp legible
      obtain ⟨first', others'⟩ := List.forall_mem_cons.mp legible'
      obtain ⟨rfl, rest⟩ := global_append_inj first first' same
      obtain ⟨rfl, behind⟩ := ih others others' rest
      exact ⟨rfl, behind⟩

/-! ## Modules -/

/-- The function has blocks, and its text tells them. -/
structure LegibleMain (main : Function) : Prop where
  signature : main.signature = mainSignature
  defined : main.isDeclaration = false
  blocks : ∀ block ∈ main.blocks, LegibleBlock main.blocks.length block

/-- The functions are those of the runtime and a main function, and their text tells what is in
    the module. No names were given but theirs. -/
structure LegibleModule (m : Assembly.Module) : Prop where
  globals : ∀ g ∈ m.globals, LegibleGlobal g
  functions : ∃ main, m.functions = builtins.map Function.declared ++ [main] ∧ LegibleMain main
  listed : m = .ofLists m.globals m.functions

/-- The lines of the functions that are only declared. -/
def declarationsText : List Char :=
  (String.join (builtins.map fun f => s!"\n{(Function.declared f).text}\n")).toList

theorem exists_declarationsText : ∃ cs, declarationsText = '\n' :: cs := by
  refine ⟨declarationsText.tail, ?_⟩
  simp [declarationsText, builtins, toString]

theorem toList_module {m : Assembly.Module} {main : Function}
    (functions : m.functions = builtins.map Function.declared ++ [main])
    (defined : main.isDeclaration = false) : m.text.toList =
      globalsText (declarationsText ++ '\n' :: (main.text.toList ++ ['\n'])) m.globals := by
  have lines (s : List Char) (gs : List Global) :
      (String.join (gs.map fun g => s!"{g.text}\n")).toList ++ s = globalsText s gs := by
    induction gs with
    | nil => rfl
    | cons g gs ih =>
      rw [globalsText, ← ih]
      simp [toString]
  have blocks : main.blocks ≠ [] := by simpa [Function.isDeclaration] using defined
  have declared : m.functions.filter (·.isDeclaration) = builtins.map Function.declared := by
    simp [functions, blocks, builtins, Function.isDeclaration, Function.declared]
  have definitions : m.functions.filter (!·.isDeclaration) = [main] := by
    simp [functions, blocks, builtins, Function.isDeclaration, Function.declared]
  rw [← lines]
  simp [Assembly.Module.text, declared, definitions, declarationsText, toString,
    Function.comp_def]

/-- A module is told by its text. -/
theorem module_eq_of_text {m n : Assembly.Module} (legible : LegibleModule m)
    (legible' : LegibleModule n) (same : m.text = n.text) : m = n := by
  obtain ⟨main, functions, whole⟩ := legible.functions
  obtain ⟨main', functions', whole'⟩ := legible'.functions
  obtain ⟨cs, blank⟩ := exists_declarationsText
  have chars := congrArg String.toList same
  rw [toList_module functions whole.defined, toList_module functions' whole'.defined, blank]
    at chars
  obtain ⟨globals, rest⟩ := globalsText_inj legible.globals legible'.globals chars
  have mains := (List.cons.inj (List.append_cancel_left rest)).2
  obtain ⟨rfl, _⟩ := define_append_inj (whole.signature.trans whole'.signature.symm) whole.defined
    whole'.defined whole.blocks whole'.blocks mains
  rw [legible.listed, legible'.listed, globals, functions, functions']

end Pseudocode.Printing
