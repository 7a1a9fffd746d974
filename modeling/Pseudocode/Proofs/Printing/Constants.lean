import Pseudocode.Proofs.Globals.Literals
import Pseudocode.Proofs.Places.Counting
import Pseudocode.Proofs.Places.Diagnostics
import Pseudocode.Proofs.Printing.Compiled

/-! # Constants read back

The text of a module is read by the rule for quoted constants: a backslash and two hexadecimal
digits are one byte, any other character is itself, and the first quote is the last one.

* `unescaped`, `readBytes?`, `readArray?`: the rule, and the same with the type in front.
* `constant?`: the constant of a name, looked for in the lines of a text.
* `readArray?_bytes`: the bytes that are written are read back, whatever they are.
* `constant?_text`: a constant of a legible module is found by its name.
* `literals_read_back`: so is every literal of a text that is compiled.
-/

namespace Pseudocode.Printing

open Assembly Globals Grammar Lowering Scanning

/-! ## The rule -/

/-- The value of a hexadecimal digit. -/
def hexDigit? (c : Char) : Option Nat :=
  if c.isDigit then some (c.toNat - '0'.toNat)
  else if 'A' ≤ c ∧ c ≤ 'F' then some (c.toNat - 'A'.toNat + 10)
  else if 'a' ≤ c ∧ c ≤ 'f' then some (c.toNat - 'a'.toNat + 10)
  else none

/-- The byte that two hexadecimal digits are. -/
def hexByte? (a b : Char) : Option UInt8 := do
  return UInt8.ofNat (16 * (← hexDigit? a) + (← hexDigit? b))

/-- The bytes that are meant by what is between quotes. -/
def unescaped : List Char → List UInt8
  | [] => []
  | '\\' :: a :: b :: cs =>
    match hexByte? a b with
    | some byte => byte :: unescaped cs
    | none => String.utf8EncodeChar '\\' ++ unescaped (a :: b :: cs)
  | c :: cs => String.utf8EncodeChar c ++ unescaped cs

/-- The bytes of a quoted constant, and what comes behind the quote that ends it. -/
def readBytes? : List Char → Option (List UInt8 × List Char)
  | 'c' :: '"' :: cs =>
    match cs.dropWhile (· ≠ '"') with
    | [] => none
    | _ :: rest => some (unescaped (cs.takeWhile (· ≠ '"')), rest)
  | _ => none

/-- The length in the type of a quoted constant, its bytes, and what comes behind it. -/
def readArray? : List Char → Option (Nat × List UInt8 × List Char)
  | '[' :: cs => do
    let quoted ← (cs.dropWhile Char.isDigit).dropPrefix? " x i8] ".toList
    let (bytes, rest) ← readBytes? quoted
    return (decimal (cs.takeWhile Char.isDigit), bytes, rest)
  | _ => none

/-- What a line starts with that has a constant of the name in it. -/
def constantStart (name : String) : List Char :=
  s!"@{name} = private unnamed_addr constant ".toList

/-- The length and the bytes of the constant on the line, if it has that name. -/
def constantOn? (name : String) (line : List Char) : Option (Nat × List UInt8) := do
  let written ← line.dropPrefix? (constantStart name)
  let (length, bytes, rest) ← readArray? written
  if rest = [] then some (length, bytes) else none

/-- The length and the bytes of the constant of the name in the text of a module. -/
def constant? (ir name : String) : Option (Nat × List UInt8) :=
  (Text.textLines ir).findSome? (constantOn? name)

/-! ## Bytes -/

theorem hexDigit?_hexDigit : ∀ n < 16, hexDigit? (Initializer.hexDigit n) = some n := by
  decide

theorem utf8EncodeChar_of_visible {b : UInt8} (visible : Visible b.toNat) :
    String.utf8EncodeChar (Char.ofNat b.toNat) = [b] := by
  have value : (Char.ofNat b.toNat).val.toNat = b.toNat := toNat_ofNat_of_visible visible
  have small : b.toNat ≤ 127 := Nat.le_trans visible.2.1 (by decide)
  simp [String.utf8EncodeChar, value, small]

theorem unescaped_cons {c : Char} (other : c ≠ '\\') (cs : List Char) :
    unescaped (c :: cs) = String.utf8EncodeChar c ++ unescaped cs := by
  rw [unescaped.eq_def]
  split <;> simp_all

/-- The byte is read back, whatever comes behind it. -/
theorem unescaped_escapeByte (b : UInt8) (cs : List Char) :
    unescaped (Initializer.escapeByte b ++ cs) = b :: unescaped cs := by
  rcases escapeByte_cases b with ⟨visible, written⟩ | written <;> rw [written]
  · rw [List.singleton_append, unescaped_cons (ofNat_ne_of_visible visible).2,
      utf8EncodeChar_of_visible visible]
    rfl
  · have small := b.toNat_lt
    have high := hexDigit?_hexDigit (b.toNat / 16) (by omega)
    have low := hexDigit?_hexDigit (b.toNat % 16) (by omega)
    have byte : hexByte? (Initializer.hexDigit (b.toNat / 16))
        (Initializer.hexDigit (b.toNat % 16)) = some b := by
      rw [hexByte?, high, low]
      exact congrArg some (UInt8.toNat_inj.mp (by simp; omega))
    simp only [List.cons_append, List.nil_append, unescaped, byte]

theorem unescaped_bytes (bs : List UInt8) :
    unescaped (bs.flatMap Initializer.escapeByte) = bs := by
  induction bs with
  | nil => rfl
  | cons b bs ih => rw [List.flatMap_cons, unescaped_escapeByte, ih]

/-- What is written for bytes has neither a quote nor the end of a line in it. -/
theorem ne_of_mem_escapeByte {b : UInt8} {c : Char} (member : c ∈ Initializer.escapeByte b) :
    c ≠ '"' ∧ c ≠ '\n' := by
  rcases escapeByte_cases b with ⟨visible, written⟩ | written <;> rw [written] at member
  · obtain rfl := List.mem_singleton.mp member
    refine ⟨(ofNat_ne_of_visible visible).1, fun feed => ?_⟩
    have value := (toNat_ofNat_of_visible visible).symm.trans (congrArg Char.toNat feed)
    exact absurd (value ▸ visible.1) (by decide)
  · have small := b.toNat_lt
    have digit (n : Nat) (less : n < 16) : Initializer.hexDigit n ≠ '"' ∧
        Initializer.hexDigit n ≠ '\n' := by
      have alphanum := isAlphanum_hexDigit n less
      constructor <;> intro same <;> rw [same] at alphanum <;> cases alphanum
    obtain rfl | rfl | rfl : c = '\\' ∨ c = _ ∨ c = _ := by simpa using member
    · decide
    · exact digit _ (by omega)
    · exact digit _ (by omega)

theorem readBytes?_bytes (bs : List UInt8) (behind : List Char) :
    readBytes? ((Initializer.bytes bs).text.toList ++ behind) = some (bs, behind) := by
  have quoteless : ∀ c ∈ bs.flatMap Initializer.escapeByte, decide (c ≠ '"') = true := by
    intro c member
    obtain ⟨b, _, among⟩ := List.mem_flatMap.mp member
    exact decide_eq_true (ne_of_mem_escapeByte among).1
  rw [toList_bytesText]
  simp only [List.cons_append, List.append_assoc, List.nil_append, readBytes?]
  rw [List.dropWhile_append_of_pos quoteless, List.takeWhile_append_of_pos quoteless]
  simp [unescaped_bytes]

theorem dropPrefix?_append (front behind : List Char) :
    (front ++ behind).dropPrefix? front = some behind :=
  List.dropPrefix?_eq_some_iff.mpr ⟨front, rfl, beq_self_eq_true front⟩

/-- The bytes and their number are read back, whatever comes behind them. -/
theorem readArray?_bytes (bs : List UInt8) (behind : List Char) :
    readArray? ((Initializer.bytes bs).type.text.toList ++
      ' ' :: ((Initializer.bytes bs).text.toList ++ behind)) = some (bs.length, bs, behind) := by
  have digits : ∀ c ∈ (toString bs.length).toList, c.isDigit = true :=
    fun _ => isDigit_of_mem_toString
  have length : decimal (toString bs.length).toList = bs.length := by
    rw [Nat.toString_eq_repr, Nat.toList_repr]
    exact Nat.ofDigitChars_ten_toDigits
  have type : (Initializer.bytes bs).type.text.toList ++
        ' ' :: ((Initializer.bytes bs).text.toList ++ behind) =
      '[' :: ((toString bs.length).toList ++
        (" x i8] ".toList ++ ((Initializer.bytes bs).text.toList ++ behind))) := by
    have element : Ty.i8.text.toList = ['i', '8'] := toList_text_int 8
    rw [Initializer.type, toList_text_array, element]
    simp
  have blank (cs : List Char) : (" x i8] ".toList ++ cs).takeWhile Char.isDigit = [] ∧
      (" x i8] ".toList ++ cs).dropWhile Char.isDigit = " x i8] ".toList ++ cs := ⟨rfl, rfl⟩
  rw [type, readArray?, List.dropWhile_append_of_pos digits, List.takeWhile_append_of_pos digits,
    (blank _).1, (blank _).2, dropPrefix?_append]
  simp only [Option.bind_eq_bind, Option.bind_some, readBytes?_bytes, List.append_nil, length]
  rfl

/-! ## Lines -/

theorem Word.sameLine {cs : List Char} (word : Word cs) : '\n' ∉ cs :=
  fun member => absurd (word '\n' member) (by decide)

theorem sameLine_init (init : Initializer) :
    '\n' ∉ init.type.text.toList ∧ '\n' ∉ init.text.toList := by
  cases init with
  | int bits n =>
    refine ⟨(word_text_int bits).sameLine, fun member => ?_⟩
    rcases part_of_intText member with alphanum | sign
    · cases alphanum
    · exact absurd sign (by decide)
  | double x => exact ⟨toList_text_double ▸ by decide, (word_hexText x).sameLine⟩
  | bytes bs =>
    constructor
    · have digits := (word_toString_nat bs.length).sameLine
      have byte := (word_text_int 8).sameLine
      rw [Initializer.type, toList_text_array, List.mem_cons, List.mem_append, not_or, not_or]
      exact ⟨by decide, digits, by simpa using byte⟩
    · have escaped : '\n' ∉ bs.flatMap Initializer.escapeByte := by
        intro member
        obtain ⟨b, _, among⟩ := List.mem_flatMap.mp member
        exact (ne_of_mem_escapeByte among).2 rfl
      rw [toList_bytesText]
      simpa using escaped

theorem sameLine_global {g : Global} (named : Named g.name) : '\n' ∉ g.text.toList := by
  have kind : '\n' ∉ kindText g.constant := by
    cases g.constant <;> decide
  obtain ⟨type, init⟩ := sameLine_init g.init
  rw [toList_global]
  simp [named.sameLine, kind, init, Global.type, type]

/-- Each global is on a line of its own. -/
theorem splitOn_globalsText {gs : List Global} (named : ∀ g ∈ gs, Named g.name) (s : List Char) :
    (globalsText s gs).splitOn '\n' = gs.map (·.text.toList) ++ s.splitOn '\n' := by
  induction gs with
  | nil => rfl
  | cons g gs ih =>
    obtain ⟨first, others⟩ := List.forall_mem_cons.mp named
    rw [globalsText, Text.splitOn_append_feed (sameLine_global first), ih others]
    rfl

theorem toList_constantStart (name : String) : constantStart name =
    '@' :: (name.toList ++ ' ' :: '=' :: ' ' :: (kindText true ++ [' '])) := by
  simp [constantStart, kindText, toString]

theorem constantOn?_own {g : Global} {bs : List UInt8} (constant : g.constant = true)
    (init : g.init = .bytes bs) : constantOn? g.name g.text.toList = some (bs.length, bs) := by
  have line : g.text.toList = constantStart g.name ++ ((Initializer.bytes bs).type.text.toList ++
      ' ' :: ((Initializer.bytes bs).text.toList ++ [])) := by
    rw [toList_global, toList_constantStart, constant, Global.type, init]
    simp
  rw [constantOn?, line, dropPrefix?_append]
  simp only [Option.bind_eq_bind, Option.bind_some, readArray?_bytes, if_true]

theorem constantOn?_other {name : String} {h : Global} (named : Named name)
    (named' : Named h.name) (other : h.name ≠ name) : constantOn? name h.text.toList = none := by
  have unlike : h.text.toList.dropPrefix? (constantStart name) = none := by
    refine Option.eq_none_iff_forall_ne_some.mpr fun rest dropped => ?_
    obtain ⟨front, split, same⟩ := List.dropPrefix?_eq_some_iff.mp dropped
    obtain rfl := eq_of_beq same
    rw [toList_global, toList_constantStart] at split
    simp only [List.cons_append, List.append_assoc, List.cons.injEq, true_and] at split
    obtain ⟨names, _⟩ := named'.append_inj named (stops_cons rfl) (stops_cons rfl) split
    exact other (String.toList_inj.mp names)
  rw [constantOn?, unlike]
  rfl

/-- A constant is found by its name in the text of its module. -/
theorem constant?_text {m : Assembly.Module} {g : Global} {bs : List UInt8}
    (legible : LegibleModule m) (distinct : m.names.Nodup) (member : g ∈ m.globals)
    (constant : g.constant = true) (init : g.init = .bytes bs) :
    constant? m.text g.name = some (bs.length, bs) := by
  obtain ⟨main, functions, whole⟩ := legible.functions
  obtain ⟨front, back, split⟩ := List.append_of_mem member
  have named (h : Global) (among : h ∈ m.globals) : Named h.name := (legible.globals h among).name
  have others : ∀ line ∈ front.map (·.text.toList), constantOn? g.name line = none := by
    intro line among
    obtain ⟨h, before, rfl⟩ := List.mem_map.mp among
    refine constantOn?_other (named g member) (named h (by simp [split, before])) fun same => ?_
    have names := (List.nodup_append.mp distinct).1
    rw [split, List.map_append, List.nodup_append] at names
    exact names.2.2 h.name (List.mem_map_of_mem before) g.name (by simp) same
  rw [constant?, Text.textLines, toList_module functions whole.defined, splitOn_globalsText named,
    split, List.map_append, List.map_cons, List.append_assoc, List.findSome?_append,
    List.findSome?_eq_none_iff.mpr others, List.cons_append, List.findSome?_cons,
    constantOn?_own constant init]
  rfl

/-! ## Literals -/

/-- A text among the tokens is what is between the quotes stands for, at the place of the first. -/
theorem exists_quoted {text s : String} {ts : List Located} {pos : Position}
    (tokenized : tokenize text = .ok ts) (member : ⟨.string s, pos⟩ ∈ ts) :
    ∃ before spelled after, text.toList = before ++ '"' :: (spelled ++ '"' :: after) ∧
      pos = Position.start.after before ∧ Resolves spelled s.toList := by
  obtain ⟨pieces, cuts, yields⟩ := (tokenize_accepts text ts).mp tokenized
  obtain ⟨front, piece, back, rfl, read, place⟩ := yields.exists_piece _ member
  have whole := cuts.flatten_append
  generalize token : some (Token.string s) = x at read
  cases read with
  | @string spelled t resolved =>
    cases token
    rw [String.toList_ofList]
    refine ⟨front.flatten, spelled, back.flatten, ?_, place, resolved⟩
    rw [← whole]
    simp
  | _ => cases token

/-- A text among the tokens has a global of its own, which is named by how many texts come in
    front of it. -/
theorem exists_literal {text s : String} {m : Assembly.Module} {front back : List Located}
    {pos : Position} (compiled : (compile text).result = .ok m)
    (tokenized : tokenize text = .ok (front ++ ⟨.string s, pos⟩ :: back)) :
    m.names.Nodup ∧ ∃ g ∈ m.globals, g.name = literalSymbol (texts front).length ∧
      g.constant = true ∧ g.init = .ofText s := by
  obtain ⟨p, read, lowered⟩ := compile_eq_ok.mp compiled
  obtain ⟨ts, tokenized', derived, _⟩ := parse_eq_ok.mp read
  obtain rfl := Except.ok.inj (tokenized.symm.trans tokenized')
  obtain ⟨d, lowers, rfl⟩ := exists_draft lowered
  obtain ⟨T, step, _⟩ := LowersAll.step ready_initial.isOpen Stocked.initial lowers
  obtain ⟨_, rfl, new⟩ := step.table
  have names := step.stocked.names (new ▸ plain_of_parse read)
  have found : (itemTexts (T.map Prod.fst))[(texts front).length]? = some s := by
    have whole := derived.texts_eq
    rw [texts_append, texts_string] at whole
    rw [new, ← List.append_nil (itemTexts _)]
    refine Eq.trans (congrArg (·[(texts front).length]?) whole.symm) ?_
    simp
  obtain ⟨g, row, name⟩ := exists_row names found
  have kept := step.stocked.kept _ row
  refine ⟨step.stocked.distinct, g, ?_, by rw [name, Nat.zero_add], kept.constant, kept.init⟩
  show g ∈ d.globals
  rw [step.stocked.globals]
  exact List.mem_append_right _ (List.mem_map_of_mem row)

/-- By the rule for quoted constants, what is written for bytes is read back as these bytes, and the
    length that is written in front of them is their number. So for every literal of a text that is
    compiled, whatever it is spelled with, there is a constant in the assembly text that is read as
    what the literal stands for, in UTF-8, with a zero byte behind it. -/
theorem literals_read_back :
    (∀ bs behind, readBytes? ((Initializer.bytes bs).text.toList ++ behind) = some (bs, behind) ∧
      readArray? ((Initializer.bytes bs).type.text.toList ++
        ' ' :: ((Initializer.bytes bs).text.toList ++ behind)) = some (bs.length, bs, behind)) ∧
    ∀ text ir, compileToText text = .ok ir → ∃ ts, tokenize text = .ok ts ∧
      ∀ front s pos back, ts = front ++ ⟨.string s, pos⟩ :: back →
        (∃ before spelled after, text.toList = before ++ '"' :: (spelled ++ '"' :: after) ∧
          pos = Position.start.after before ∧ Resolves spelled s.toList) ∧
        constant? ir (literalSymbol (texts front).length) =
          some (s.utf8ByteSize + 1, s.toUTF8.data.toList ++ [0]) := by
  refine ⟨fun bs behind => ⟨readBytes?_bytes bs behind, readArray?_bytes bs behind⟩,
    fun text ir written => ?_⟩
  obtain ⟨m, compiled, rfl⟩ := compileToText_eq_ok.mp written
  obtain ⟨p, read, _⟩ := compile_eq_ok.mp compiled
  obtain ⟨ts, tokenized, _⟩ := parse_eq_ok.mp read
  refine ⟨ts, tokenized, fun front s pos back split => ?_⟩
  subst split
  obtain ⟨distinct, g, member, name, constant, init⟩ := exists_literal compiled tokenized
  have found := constant?_text (legible_of_compile compiled) distinct member constant init
  refine ⟨exists_quoted tokenized (by simp), ?_⟩
  rw [← name, found, List.length_append]
  rfl

/-- A character of two bytes, a quote, a backslash in front of digits, and a line feed. -/
def spelledText : String := "OUTPUT \"é\\\"\\\\41\\n\""

theorem spelled_read_back : ∃ ir, compileToText spelledText = .ok ir ∧
    constant? ir ".str.0" = some (8, [0xC3, 0xA9, 0x22, 0x5C, 0x34, 0x31, 0x0A, 0]) := by
  obtain ⟨ir, written⟩ := exists_ok_of_isSome (e := compileToText spelledText) (by decide +kernel)
  obtain ⟨ts, tokenized, literals⟩ := literals_read_back.2 spelledText ir written
  have tokens : tokenize spelledText =
      .ok [⟨.keyword .output, ⟨0, 1, 1⟩⟩, ⟨.string "é\"\\41\n", ⟨7, 1, 8⟩⟩] :=
    tokenize_eq_ok.mpr (by decide +kernel)
  have split := Except.ok.inj (tokenized.symm.trans tokens)
  obtain ⟨_, found⟩ := literals [_] _ _ [] split
  exact ⟨ir, written, found.trans (by decide +kernel)⟩

end Pseudocode.Printing
