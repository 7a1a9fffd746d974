import Mathlib.Data.List.Nodup
import Mathlib.Data.Nat.Init
import Pseudocode.Proofs.Lowering.Names

/-! # Words in the text of a module

Names, numbers, labels and the names of operations are written as words, and behind a word comes
a character that is in none.

* `Word.append_inj`: of two texts that are the same, the words in front and the rests are.
* `toString_int_injective`, `hexText_injective`, `escapeBytes_append_inj`: numbers and bytes are
  told by what is written for them.
-/

namespace Pseudocode.Printing

open Assembly

/-! ## Words -/

/-- The character may stand in a word. -/
def isWordPart (c : Char) : Bool :=
  c.isAlphanum || c = '_' || c = '.' || c = '-' || c = '@' || c = '%'

def Word (cs : List Char) : Prop := ∀ c ∈ cs, isWordPart c = true

/-- No word goes on here. -/
def Stops (cs : List Char) : Prop := ∀ c ∈ cs.head?, isWordPart c = false

theorem Word.append {s t : List Char} (first : Word s) (second : Word t) : Word (s ++ t) :=
  List.forall_mem_append.mpr ⟨first, second⟩

theorem Word.takeWhile_append {w s : List Char} (word : Word w) (stops : Stops s) :
    (w ++ s).takeWhile isWordPart = w := by
  rw [List.takeWhile_append_of_pos word]
  cases s with
  | nil => simp
  | cons c s => rw [List.takeWhile_cons_of_neg (by simpa using stops c rfl), List.append_nil]

/-- Words that are followed by no word are told by the text that they stand in front of. -/
theorem Word.append_inj {w w' s s' : List Char} (first : Word w) (second : Word w')
    (stops : Stops s) (stops' : Stops s') (same : w ++ s = w' ++ s') : w = w' ∧ s = s' := by
  have words := congrArg (List.takeWhile isWordPart) same
  rw [first.takeWhile_append stops, second.takeWhile_append stops'] at words
  exact ⟨words, List.append_cancel_left (words ▸ same)⟩

theorem stops_cons {c : Char} {cs : List Char} (h : isWordPart c = false) : Stops (c :: cs) := by
  rintro _ ⟨⟩
  exact h

theorem isWordPart_of_alphanum {c : Char} (h : c.isAlphanum = true) : isWordPart c = true := by
  simp [isWordPart, h]

theorem isWordPart_of_digit {c : Char} (h : c.isDigit = true) : isWordPart c = true :=
  isWordPart_of_alphanum (by simp [Char.isAlphanum, h])

/-! ## Whole numbers -/

theorem isDigit_of_mem_toString {n : Nat} {c : Char} (member : c ∈ (toString n).toList) :
    c.isDigit = true := by
  rw [Nat.toString_eq_repr, Nat.toList_repr] at member
  exact Nat.isDigit_of_mem_toDigits (by decide) (by decide) member

theorem word_toString_nat (n : Nat) : Word (toString n).toList :=
  fun _ member => isWordPart_of_digit (isDigit_of_mem_toString member)

theorem toList_toString_int (n : Int) : (toString n).toList =
    if 0 ≤ n then (toString n.toNat).toList else '-' :: (toString (-n).toNat).toList := by
  rw [Int.toString_eq_repr, Int.repr_eq_if]
  split <;> simp

/-- A number is written with digits, and a sign in front of them if it is negative. -/
theorem isDigit_or_sign {n : Int} {c : Char} (member : c ∈ (toString n).toList) :
    c.isDigit = true ∨ c = '-' := by
  rw [toList_toString_int] at member
  split at member
  · exact .inl (isDigit_of_mem_toString member)
  · rcases List.mem_cons.mp member with sign | member
    · exact .inr sign
    · exact .inl (isDigit_of_mem_toString member)

theorem sign_notMem (n : Nat) : '-' ∉ (toString n).toList := fun member =>
  absurd (isDigit_of_mem_toString member) (by decide)

theorem toString_int_injective {m n : Int} (same : toString m = toString n) : m = n := by
  have chars := congrArg String.toList same
  rw [toList_toString_int, toList_toString_int] at chars
  split at chars <;> split at chars
  · have := Lowering.toString_nat_injective (String.toList_inj.mp chars)
    omega
  · exact absurd (chars ▸ List.mem_cons_self) (sign_notMem _)
  · exact absurd (chars ▸ List.mem_cons_self) (sign_notMem _)
  · have := Lowering.toString_nat_injective (String.toList_inj.mp (List.cons.inj chars).2)
    omega

/-! ## Hexadecimal digits -/

/-- The value of a hexadecimal digit, a capital letter above nine. -/
def hexValue (c : Char) : Nat := if c.isDigit then c.toNat - 48 else c.toNat - 55

def readHex (init : Nat) (cs : List Char) : Nat := cs.foldl (fun n c => 16 * n + hexValue c) init

theorem hexValue_hexDigit : ∀ n < 16, hexValue (Initializer.hexDigit n) = n := by
  decide

theorem isAlphanum_hexDigit : ∀ n < 16, (Initializer.hexDigit n).isAlphanum = true := by
  decide

theorem readHex_toDigits (n : Nat) : readHex 0 ((Nat.toDigits 16 n).map Char.toUpper) = n := by
  induction n using Nat.strong_induction_on with
  | _ n ih =>
    rw [Nat.toDigits_eq_if (by decide)]
    split
    · rename_i small
      simpa [readHex, Initializer.hexDigit] using hexValue_hexDigit n small
    · rename_i large
      have rest := ih (n / 16) (by omega)
      have last := hexValue_hexDigit (n % 16) (by omega)
      rw [Initializer.hexDigit] at last
      simp only [readHex, List.map_append, List.foldl_append] at rest ⊢
      rw [rest]
      simp only [List.map_cons, List.map_nil, List.foldl_cons, List.foldl_nil, last]
      omega

theorem readHex_paddedDigits (width n : Nat) :
    readHex 0 ((Double.paddedDigits 16 width n).map Char.toUpper) = n := by
  have zeros (k : Nat) : readHex 0 ((List.replicate k '0').map Char.toUpper) = 0 := by
    induction k with
    | zero => rfl
    | succ k ih => exact ih
  have digits := readHex_toDigits n
  simp only [readHex] at zeros digits
  rw [Double.paddedDigits, readHex, List.map_append, List.foldl_append, zeros, digits]

theorem toList_hexText (x : Double) : x.hexText.toList =
    '0' :: 'x' :: (Double.paddedDigits 16 16 x.bits.toNat).map Char.toUpper := by
  rw [Double.hexText, String.toList_ofList]

theorem hexText_injective {x y : Double} (same : x.hexText = y.hexText) : x = y := by
  have chars := congrArg String.toList same
  rw [toList_hexText, toList_hexText] at chars
  have digits := congrArg (readHex 0) (List.cons.inj (List.cons.inj chars).2).2
  rw [readHex_paddedDigits, readHex_paddedDigits] at digits
  obtain ⟨x⟩ := x
  obtain ⟨y⟩ := y
  exact congrArg Double.mk (UInt64.toNat_inj.mp digits)

theorem exists_digit_of_mem_toDigits {n : Nat} {c : Char} (member : c ∈ Nat.toDigits 16 n) :
    ∃ d < 16, c = d.digitChar := by
  induction n using Nat.strong_induction_on with
  | _ n ih =>
    rw [Nat.toDigits_eq_if (by decide)] at member
    split at member
    · rename_i small
      exact ⟨n, small, List.mem_singleton.mp member⟩
    · rcases List.mem_append.mp member with front | last
      · exact ih (n / 16) (by omega) front
      · exact ⟨n % 16, by omega, List.mem_singleton.mp last⟩

theorem isAlphanum_of_mem_hexText {x : Double} {c : Char} (member : c ∈ x.hexText.toList) :
    c.isAlphanum = true := by
  rw [toList_hexText] at member
  obtain rfl | rfl | member : c = '0' ∨ c = 'x' ∨ _ := by simpa using member
  · rfl
  · rfl
  · obtain ⟨d, among, rfl⟩ := member
    rcases List.mem_append.mp among with zero | digit
    · obtain rfl := List.eq_of_mem_replicate zero
      rfl
    · obtain ⟨n, small, rfl⟩ := exists_digit_of_mem_toDigits digit
      exact isAlphanum_hexDigit n small

theorem word_hexText (x : Double) : Word x.hexText.toList :=
  fun _ member => isWordPart_of_alphanum (isAlphanum_of_mem_hexText member)

/-! ## Bytes -/

/-- The byte stands for itself between quotes. -/
def Visible (n : Nat) : Prop := 0x20 ≤ n ∧ n ≤ 0x7E ∧ n ≠ 0x22 ∧ n ≠ 0x5C

theorem escapeByte_cases (b : UInt8) :
    (Visible b.toNat ∧ Initializer.escapeByte b = [Char.ofNat b.toNat]) ∨
      Initializer.escapeByte b =
        ['\\', Initializer.hexDigit (b.toNat / 16), Initializer.hexDigit (b.toNat % 16)] := by
  unfold Initializer.escapeByte
  dsimp only
  split
  · rename_i visible
    exact .inl ⟨by simpa [Visible, and_assoc] using visible, rfl⟩
  · exact .inr rfl

theorem toNat_ofNat_of_visible {n : Nat} (visible : Visible n) : (Char.ofNat n).toNat = n := by
  obtain ⟨_, _, _, _⟩ := visible
  rw [Char.ofNat, dif_pos (.inl (by omega))]
  rfl

/-- A visible byte is written neither as a quote nor as a backslash. -/
theorem ofNat_ne_of_visible {n : Nat} (visible : Visible n) :
    Char.ofNat n ≠ '"' ∧ Char.ofNat n ≠ '\\' := by
  constructor
  · intro same
    exact visible.2.2.1 ((toNat_ofNat_of_visible visible).symm.trans (congrArg Char.toNat same))
  · intro same
    exact visible.2.2.2 ((toNat_ofNat_of_visible visible).symm.trans (congrArg Char.toNat same))

theorem hexDigit_injective {m n : Nat} (first : m < 16) (second : n < 16)
    (same : Initializer.hexDigit m = Initializer.hexDigit n) : m = n := by
  rw [← hexValue_hexDigit m first, same, hexValue_hexDigit n second]

theorem escapeByte_append_inj {b b' : UInt8} {s s' : List Char}
    (same : Initializer.escapeByte b ++ s = Initializer.escapeByte b' ++ s') : b = b' ∧ s = s' := by
  rcases escapeByte_cases b with ⟨visible, written⟩ | written <;>
    rcases escapeByte_cases b' with ⟨visible', written'⟩ | written' <;>
    rw [written, written'] at same
  · obtain ⟨char, rest⟩ := List.cons.inj same
    have value := congrArg Char.toNat char
    rw [toNat_ofNat_of_visible visible, toNat_ofNat_of_visible visible'] at value
    exact ⟨UInt8.toNat_inj.mp value, rest⟩
  · exact absurd (List.cons.inj same).1 (ofNat_ne_of_visible visible).2
  · exact absurd (List.cons.inj same).1.symm (ofNat_ne_of_visible visible').2
  · obtain ⟨high, low, rest⟩ : _ ∧ _ ∧ s = s' := by simpa using same
    have small := b.toNat_lt
    have small' := b'.toNat_lt
    have highs := hexDigit_injective (by omega) (by omega) high
    have lows := hexDigit_injective (by omega) (by omega) low
    exact ⟨UInt8.toNat_inj.mp (by omega), rest⟩

theorem escapeByte_ne_quote {b : UInt8} {s s' : List Char} :
    Initializer.escapeByte b ++ s ≠ '"' :: s' := by
  intro same
  rcases escapeByte_cases b with ⟨visible, written⟩ | written <;> rw [written] at same
  · exact (ofNat_ne_of_visible visible).1 (List.cons.inj same).1
  · exact absurd (List.cons.inj same).1 (by decide)

/-- Bytes up to a quote are told by what is written for them. -/
theorem escapeBytes_append_inj {bs bs' : List UInt8} {s s' : List Char}
    (same : bs.flatMap Initializer.escapeByte ++ '"' :: s =
      bs'.flatMap Initializer.escapeByte ++ '"' :: s') : bs = bs' ∧ s = s' := by
  induction bs generalizing bs' with
  | nil =>
    cases bs' with
    | nil => exact ⟨rfl, (List.cons.inj same).2⟩
    | cons b' bs' =>
      rw [List.flatMap_cons, List.append_assoc] at same
      exact absurd same.symm escapeByte_ne_quote
  | cons b bs ih =>
    cases bs' with
    | nil =>
      rw [List.flatMap_cons, List.append_assoc] at same
      exact absurd same escapeByte_ne_quote
    | cons b' bs' =>
      rw [List.flatMap_cons, List.flatMap_cons, List.append_assoc, List.append_assoc] at same
      obtain ⟨rfl, rest⟩ := escapeByte_append_inj same
      obtain ⟨rfl, behind⟩ := ih rest
      exact ⟨rfl, behind⟩

end Pseudocode.Printing
