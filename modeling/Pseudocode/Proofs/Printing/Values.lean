import Pseudocode.Assembly.Value
import Pseudocode.Proofs.Printing.Words

/-! # Types and values in the text of a module

* `text_append_inj`: a type is told by its text, whatever comes behind that goes on neither a word
  nor with a star.
* `Written`: a value whose text tells which one of its type it is.
* `typed_append_inj`: a value that is written with its type is told by both.
-/

namespace Pseudocode.Printing

open Assembly

/-! ## Types -/

/-- The type that pointers of the type lead to in the end, and how many there are. -/
def core : Ty → Ty
  | .ptr t => core t
  | t => t

def depth : Ty → Nat
  | .ptr t => depth t + 1
  | _ => 0

theorem eq_of_core : {t u : Ty} → core t = core u → depth t = depth u → t = u
  | .ptr _, .ptr _, cores, depths =>
    congrArg Ty.ptr (eq_of_core cores (Nat.succ.inj depths))
  | .ptr _, .int _, _, depths | .ptr _, .double, _, depths | .ptr _, .array _ _, _, depths =>
    nomatch depths
  | .int _, .ptr _, _, depths | .double, .ptr _, _, depths | .array _ _, .ptr _, _, depths =>
    nomatch depths
  | .int _, .int _, cores, _ | .int _, .double, cores, _ | .int _, .array _ _, cores, _ => cores
  | .double, .int _, cores, _ | .double, .double, cores, _ | .double, .array _ _, cores, _ => cores
  | .array _ _, .int _, cores, _ | .array _ _, .double, cores, _
  | .array _ _, .array _ _, cores, _ => cores

def stars (n : Nat) : List Char := List.replicate n '*'

theorem toList_text_int (bits : Nat) :
    (Ty.int bits).text.toList = 'i' :: (toString bits).toList := by
  simp [Ty.text, toString]

theorem toList_text_double : Ty.double.text.toList = ['d', 'o', 'u', 'b', 'l', 'e'] := rfl

theorem toList_text_ptr (t : Ty) : (Ty.ptr t).text.toList = t.text.toList ++ ['*'] := by
  simp [Ty.text, toString]

theorem toList_text_array (length : Nat) (t : Ty) : (Ty.array length t).text.toList =
    '[' :: ((toString length).toList ++ ' ' :: 'x' :: ' ' :: (t.text.toList ++ [']'])) := by
  simp [Ty.text, toString]

theorem word_text_int (bits : Nat) : Word (Ty.int bits).text.toList := by
  rw [toList_text_int]
  exact List.forall_mem_cons.mpr ⟨rfl, word_toString_nat bits⟩

/-- No star, and nothing of a word. -/
def Ends (cs : List Char) : Prop := Stops cs ∧ ∀ c ∈ cs.head?, c ≠ '*'

theorem ends_cons {c : Char} {cs : List Char} (h : isWordPart c = false) (other : c ≠ '*') :
    Ends (c :: cs) :=
  ⟨stops_cons h, by rintro _ ⟨⟩; exact other⟩

theorem stars_append_inj {m n : Nat} {s s' : List Char} (one : ∀ c ∈ s.head?, c ≠ '*')
    (other : ∀ c ∈ s'.head?, c ≠ '*') (same : stars m ++ s = stars n ++ s') : m = n ∧ s = s' := by
  induction m generalizing n with
  | zero =>
    cases n with
    | zero => exact ⟨rfl, same⟩
    | succ n =>
      obtain rfl : s = '*' :: (stars n ++ s') := same
      exact absurd rfl (one '*' rfl)
  | succ m ih =>
    cases n with
    | zero =>
      obtain rfl : '*' :: (stars m ++ s) = s' := same
      exact absurd rfl (other '*' rfl)
    | succ n =>
      obtain ⟨rfl, rest⟩ := ih (List.cons.inj same).2
      exact ⟨rfl, rest⟩

theorem stops_star (cs : List Char) : Stops ('*' :: cs) := stops_cons rfl

theorem stars_succ_append (n : Nat) (s : List Char) : stars (n + 1) ++ s = stars n ++ '*' :: s := by
  rw [stars, List.replicate_succ', List.append_assoc]
  rfl

theorem text_int_append_inj {bits bits' : Nat} {s s' : List Char} (stops : Stops s)
    (stops' : Stops s')
    (same : (Ty.int bits).text.toList ++ s = (Ty.int bits').text.toList ++ s') :
    bits = bits' ∧ s = s' := by
  obtain ⟨words, rest⟩ := (word_text_int bits).append_inj (word_text_int bits') stops stops' same
  rw [toList_text_int, toList_text_int] at words
  have digits := String.toList_inj.mp (List.cons.inj words).2
  exact ⟨Lowering.toString_nat_injective digits, rest⟩

/-- Two types in front of something agree up to stars, which may belong to either. -/
theorem core_of_text : ∀ (t u : Ty) {s s' : List Char}, Stops s → Stops s' →
    t.text.toList ++ s = u.text.toList ++ s' →
    core t = core u ∧ stars (depth t) ++ s = stars (depth u) ++ s'
  | .ptr t, u => by
    intro _ stops' same
    rw [toList_text_ptr, List.append_assoc, List.singleton_append] at same
    obtain ⟨cores, rest⟩ := core_of_text t u (stops_star _) stops' same
    exact ⟨cores, (stars_succ_append _ _).trans rest⟩
  | t, .ptr u => by
    intro stops _ same
    rw [toList_text_ptr, List.append_assoc, List.singleton_append] at same
    obtain ⟨cores, rest⟩ := core_of_text t u stops (stops_star _) same
    exact ⟨cores, rest.trans (stars_succ_append _ _).symm⟩
  | .int bits, .int bits' => by
    intro stops stops' same
    obtain ⟨rfl, rfl⟩ := text_int_append_inj stops stops' same
    exact ⟨rfl, rfl⟩
  | .double, .double => fun _ _ same => ⟨rfl, List.append_cancel_left same⟩
  | .array length t, .array length' t' => by
    intro stops stops' same
    simp only [toList_text_array, List.cons_append, List.append_assoc] at same
    obtain ⟨digits, rest⟩ := (word_toString_nat length).append_inj (word_toString_nat length')
      (stops_cons rfl) (stops_cons rfl) (List.cons.inj same).2
    obtain rfl := Lowering.toString_nat_injective (String.toList_inj.mp digits)
    simp only [List.cons.injEq, true_and, List.nil_append] at rest
    obtain ⟨cores, rest⟩ := core_of_text t t' (stops_cons rfl) (stops_cons rfl) rest
    obtain ⟨depths, behind⟩ :=
      stars_append_inj (by rintro _ ⟨⟩; decide) (by rintro _ ⟨⟩; decide) rest
    obtain rfl := eq_of_core cores depths
    exact ⟨rfl, (List.cons.inj behind).2⟩
  | .int _, .double | .double, .int _ => by
    intro _ _ same
    simp [toList_text_int, toList_text_double] at same
  | .int _, .array _ _ | .array _ _, .int _ => by
    intro _ _ same
    simp [toList_text_int, toList_text_array] at same
  | .double, .array _ _ | .array _ _, .double => by
    intro _ _ same
    simp [toList_text_double, toList_text_array] at same

/-- A type is told by its text. -/
theorem text_append_inj {t u : Ty} {s s' : List Char} (ends : Ends s) (ends' : Ends s')
    (same : t.text.toList ++ s = u.text.toList ++ s') : t = u ∧ s = s' := by
  obtain ⟨cores, rest⟩ := core_of_text t u ends.1 ends'.1 same
  obtain ⟨depths, behind⟩ := stars_append_inj ends.2 ends'.2 rest
  exact ⟨eq_of_core cores depths, behind⟩

/-! ## Values -/

/-- The name is a word. -/
def Named (name : String) : Prop := Word name.toList

/-- What is written for the value is all there is to tell of it besides its type. -/
def Written : Value → Prop
  | .int bits n => bits = 1 → n = 0 ∨ n = 1
  | .double _ => True
  | .global name _ => Named name
  | .temp name _ => Named name

theorem intText_cases (bits : Nat) (n : Int) :
    (bits = 1 ∧ Value.intText bits n = if n ≠ 0 then "true" else "false") ∨
      (bits ≠ 1 ∧ Value.intText bits n = toString n) := by
  unfold Value.intText
  split
  · rename_i truth
    exact .inl ⟨truth, rfl⟩
  · rename_i other
    exact .inr ⟨other, rfl⟩

/-- Letters, digits and signs are all there is in a constant. -/
theorem part_of_intText {bits : Nat} {n : Int} {c : Char}
    (member : c ∈ (Value.intText bits n).toList) : c.isAlphanum = true ∨ c = '-' := by
  rcases intText_cases bits n with ⟨_, written⟩ | ⟨_, written⟩ <;> rw [written] at member
  · split at member
    · exact .inl (List.all_eq_true.mp (by decide) c member)
    · exact .inl (List.all_eq_true.mp (by decide) c member)
  · exact (isDigit_or_sign member).imp_left fun digit => by simp [Char.isAlphanum, digit]

theorem intText_injective {bits : Nat} {m n : Int} (truth : bits = 1 → m = 0 ∨ m = 1)
    (truth' : bits = 1 → n = 0 ∨ n = 1) (same : Value.intText bits m = Value.intText bits n) :
    m = n := by
  by_cases bit : bits = 1
  · subst bit
    rcases truth rfl with rfl | rfl <;> rcases truth' rfl with rfl | rfl
    · rfl
    · exact absurd same (by decide)
    · exact absurd same (by decide)
    · rfl
  · rw [Value.intText, Value.intText, if_neg bit, if_neg bit] at same
    exact toString_int_injective same

theorem toList_text_global (name : String) (t : Ty) :
    (Value.global name t).text.toList = '@' :: name.toList := by
  simp [Value.text, toString]

theorem toList_text_temp (name : String) (t : Ty) :
    (Value.temp name t).text.toList = '%' :: name.toList := by
  simp [Value.text, toString]

theorem word_text {v : Value} (written : Written v) : Word v.text.toList := by
  cases v with
  | int bits n =>
    intro c member
    rcases part_of_intText member with alphanum | rfl
    · exact isWordPart_of_alphanum alphanum
    · rfl
  | double x => exact word_hexText x
  | global name t =>
    rw [toList_text_global]
    exact List.forall_mem_cons.mpr ⟨rfl, written⟩
  | temp name t =>
    rw [toList_text_temp]
    exact List.forall_mem_cons.mpr ⟨rfl, written⟩

def IsConstant : Value → Prop
  | .int _ _ => True
  | .double _ => True
  | .global _ _ => False
  | .temp _ _ => False

/-- Constants are not written like names. -/
theorem text_ne {v w : Value} (constant : IsConstant v) (other : ¬ IsConstant w) :
    v.text ≠ w.text := by
  have part {c : Char} (member : c ∈ v.text.toList) : c ≠ '@' ∧ c ≠ '%' := by
    cases v with
    | int bits n =>
      rcases part_of_intText member with alphanum | rfl
      · constructor <;> rintro rfl <;> cases alphanum
      · decide
    | double x =>
      have alphanum := isAlphanum_of_mem_hexText member
      constructor <;> rintro rfl <;> cases alphanum
    | global | temp => cases constant
  intro same
  cases w with
  | int | double => exact other trivial
  | global name t =>
    rw [same, toList_text_global] at part
    exact (part List.mem_cons_self).1 rfl
  | temp name t =>
    rw [same, toList_text_temp] at part
    exact (part List.mem_cons_self).2 rfl

/-- A value is told by its type and its text. -/
theorem text_injective : {v w : Value} → Written v → Written w → v.type = w.type →
    v.text = w.text → v = w
  | .int _ _, .int _ _, written, written', types, same => by
    cases types
    exact congrArg (Value.int _) (intText_injective written written' same)
  | .double _, .double _, _, _, _, same => congrArg Value.double (hexText_injective same)
  | .global name _, .global name' _, _, _, types, same => by
    have chars := congrArg String.toList same
    rw [toList_text_global, toList_text_global] at chars
    obtain rfl := String.toList_inj.mp (List.cons.inj chars).2
    exact congrArg (Value.global name) types
  | .temp name _, .temp name' _, _, _, types, same => by
    have chars := congrArg String.toList same
    rw [toList_text_temp, toList_text_temp] at chars
    obtain rfl := String.toList_inj.mp (List.cons.inj chars).2
    exact congrArg (Value.temp name) types
  | .global _ _, .temp _ _, _, _, _, same | .temp _ _, .global _ _, _, _, _, same => by
    have chars := congrArg String.toList same
    simp [toList_text_global, toList_text_temp] at chars
  | .int _ _, .double _, _, _, types, _ | .double _, .int _ _, _, _, types, _ => nomatch types
  | .int _ _, .global _ _, _, _, _, same | .int _ _, .temp _ _, _, _, _, same
  | .double _, .global _ _, _, _, _, same | .double _, .temp _ _, _, _, _, same =>
    absurd same (text_ne trivial id)
  | .global _ _, .int _ _, _, _, _, same | .temp _ _, .int _ _, _, _, _, same
  | .global _ _, .double _, _, _, _, same | .temp _ _, .double _, _, _, _, same =>
    absurd same.symm (text_ne trivial id)

/-- A constant of one bit that is neither zero nor one is written like one. -/
example : (Value.int 1 2).text = (Value.int 1 1).text := rfl

theorem text_append_inj_of_type {v w : Value} {s s' : List Char} (written : Written v)
    (written' : Written w) (types : v.type = w.type) (stops : Stops s) (stops' : Stops s')
    (same : v.text.toList ++ s = w.text.toList ++ s') : v = w ∧ s = s' := by
  obtain ⟨texts, rest⟩ := (word_text written).append_inj (word_text written') stops stops' same
  exact ⟨text_injective written written' types (String.toList_inj.mp texts), rest⟩

theorem toList_typed (v : Value) : v.typed.toList = v.type.text.toList ++ ' ' :: v.text.toList := by
  simp [Value.typed, toString]

/-- A value is told by what is written for it and its type. -/
theorem typed_append_inj {v w : Value} {s s' : List Char} (written : Written v)
    (written' : Written w) (stops : Stops s) (stops' : Stops s')
    (same : v.typed.toList ++ s = w.typed.toList ++ s') : v = w ∧ s = s' := by
  rw [toList_typed, toList_typed, List.append_assoc, List.append_assoc] at same
  obtain ⟨types, rest⟩ :=
    text_append_inj (ends_cons rfl (by decide)) (ends_cons rfl (by decide)) same
  exact text_append_inj_of_type written written' types stops stops' (List.cons.inj rest).2

end Pseudocode.Printing
