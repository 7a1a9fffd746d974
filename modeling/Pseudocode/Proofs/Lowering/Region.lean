import Mathlib.Logic.Relation
import Pseudocode.Proofs.Lowering.Draft

/-! # Regions of the control flow

A statement turns the open block that it starts in into a region: a part of the control
flow that is entered at that block only, is left through one open block only, and keeps
to itself in between. Nothing here knows of statements.

* `Develops`: blocks only grow, and not any more once they are ended.
* `Region`: the invariant, with one lemma for each construct (`Region.ifElse`,
  `Region.whileLoop`, `Region.repeatLoop`), one for instructions (`Region.extend`) and one
  for two regions in a row (`Region.trans`).
-/

namespace Pseudocode.Lowering

open Assembly

/-! ## Edges between blocks -/

@[simp] theorem successors_br (b : BlockId) : (Terminator.br b).successors = [b] := rfl

@[simp] theorem successors_condBr (v : Value) (b b' : BlockId) :
    (Terminator.condBr v b b').successors = [b, b'] := rfl

/-- The block of the one number may be followed by that of the other. -/
def Leads (blocks : List Block) (i j : Nat) : Prop :=
  ∃ block t, blocks[i]? = some block ∧ block.terminator = some t ∧ ⟨j⟩ ∈ t.successors

/-- The block of the one number may be followed, after some time, by that of the other. -/
def Reaches (blocks : List Block) : Nat → Nat → Prop := Relation.ReflTransGen (Leads blocks)

/-- The block of the number is ended, does not return, and goes on in blocks that exist
    and come from the number `low` on. -/
def Ended (blocks : List Block) (low i : Nat) : Prop :=
  ∃ block t, blocks[i]? = some block ∧ block.terminator = some t ∧ t.successors ≠ [] ∧
    ∀ b ∈ t.successors, low ≤ b.index ∧ b.index < blocks.length

/-- Blocks were added, and instructions and terminators to blocks that were open. -/
def Develops (blocks blocks' : List Block) : Prop :=
  ∀ (i : Nat) (block : Block), blocks[i]? = some block → ∃ block', blocks'[i]? = some block' ∧
    block.instrs <+: block'.instrs ∧ (block.terminator.isSome → block' = block)

namespace Develops

theorem refl (blocks : List Block) : Develops blocks blocks :=
  fun _ block found => ⟨block, found, List.prefix_rfl, fun _ => rfl⟩

theorem trans {blocks blocks₁ blocks₂ : List Block} (first : Develops blocks blocks₁)
    (second : Develops blocks₁ blocks₂) : Develops blocks blocks₂ := by
  intro i block found
  obtain ⟨block₁, found₁, grown, kept⟩ := first i block found
  obtain ⟨block₂, found₂, grown₁, kept₁⟩ := second i block₁ found₁
  refine ⟨block₂, found₂, grown.trans grown₁, fun ended => ?_⟩
  obtain rfl := kept ended
  exact kept₁ ended

theorem append (blocks new : List Block) : Develops blocks (blocks ++ new) := by
  intro i block found
  refine ⟨block, ?_, List.prefix_rfl, fun _ => rfl⟩
  rw [List.getElem?_append_left (List.getElem?_eq_some_iff.mp found).1, found]

/-- A change to one block that is open. -/
theorem modify {blocks : List Block} {b : BlockId} {f : Block → Block}
    (h : Draft.IsOpen blocks b) (grows : ∀ block, block.instrs <+: (f block).instrs) :
    Develops blocks (blocks.modify b.index f) := by
  intro i block found
  rw [List.getElem?_modify, found]
  by_cases same : b.index = i
  · obtain ⟨block', found', taking⟩ := h
    rw [same, found] at found'
    obtain rfl := Option.some.inj found'
    exact ⟨f block, by simp [same], grows block, fun ended => by simp [taking] at ended⟩
  · exact ⟨block, by simp [same], List.prefix_rfl, fun _ => rfl⟩

theorem length_le {blocks blocks' : List Block} (h : Develops blocks blocks') :
    blocks.length ≤ blocks'.length := by
  refine Nat.not_lt.mp fun shorter => ?_
  obtain ⟨block', found, _⟩ := h blocks'.length _ (List.getElem?_eq_getElem shorter)
  simp at found

theorem leads {blocks blocks' : List Block} (h : Develops blocks blocks') {i j : Nat} :
    Leads blocks i j → Leads blocks' i j := by
  rintro ⟨block, t, found, ended, next⟩
  obtain ⟨block', found', _, kept⟩ := h i block found
  obtain rfl := kept (by simp [ended])
  exact ⟨block', t, found', ended, next⟩

theorem reaches {blocks blocks' : List Block} (h : Develops blocks blocks') {i j : Nat} :
    Reaches blocks i j → Reaches blocks' i j :=
  Relation.ReflTransGen.mono (fun _ _ => h.leads) i j

theorem ended {blocks blocks' : List Block} (h : Develops blocks blocks') {low low' i : Nat}
    (less : low' ≤ low) : Ended blocks low i → Ended blocks' low' i := by
  rintro ⟨block, t, found, ended, returns, within⟩
  obtain ⟨block', found', _, kept⟩ := h i block found
  obtain rfl := kept (by simp [ended])
  refine ⟨block', t, found', ended, returns, fun b next => ?_⟩
  obtain ⟨above, below⟩ := within b next
  exact ⟨Nat.le_trans less above, Nat.lt_of_lt_of_le below h.length_le⟩

end Develops

/-! ## Ending one block -/

/-- The blocks, one of them ended with the terminator. -/
def endAt (blocks : List Block) (i : Nat) (t : Terminator) : List Block :=
  blocks.modify i fun block => { block with terminator := some t }

section EndAt

variable {blocks : List Block} {i : Nat} {t : Terminator}

@[simp] theorem length_endAt : (endAt blocks i t).length = blocks.length := by
  simp [endAt]

theorem endAt_of_ne {j : Nat} (h : j ≠ i) : (endAt blocks i t)[j]? = blocks[j]? := by
  simp [endAt, h.symm]

theorem develops_endAt (h : Draft.IsOpen blocks ⟨i⟩) : Develops blocks (endAt blocks i t) :=
  Develops.modify h fun _ => List.prefix_rfl

theorem leads_endAt (h : Draft.IsOpen blocks ⟨i⟩) {j : Nat} (next : ⟨j⟩ ∈ t.successors) :
    Leads (endAt blocks i t) i j := by
  obtain ⟨block, found, _⟩ := h
  exact ⟨_, t, by rw [endAt, List.getElem?_modify_eq, found]; rfl, rfl, next⟩

theorem ended_endAt (h : Draft.IsOpen blocks ⟨i⟩) {low : Nat} (returns : t.successors ≠ [])
    (within : ∀ b ∈ t.successors, low ≤ b.index ∧ b.index < blocks.length) :
    Ended (endAt blocks i t) low i := by
  obtain ⟨block, found, _⟩ := h
  refine ⟨_, t, by rw [endAt, List.getElem?_modify_eq, found]; rfl, rfl, returns, ?_⟩
  simpa using within

end EndAt

theorem isOpen_of_eq {blocks blocks' : List Block} {i : Nat} (same : blocks'[i]? = blocks[i]?)
    (h : Draft.IsOpen blocks ⟨i⟩) : Draft.IsOpen blocks' ⟨i⟩ := by
  obtain ⟨block, found, taking⟩ := h
  exact ⟨block, same.trans found, taking⟩

theorem lt_of_isOpen {blocks : List Block} {i : Nat} (h : Draft.IsOpen blocks ⟨i⟩) :
    i < blocks.length := by
  obtain ⟨block, found, _⟩ := h
  exact (List.getElem?_eq_some_iff.mp found).1

theorem isOpen_endAt {blocks : List Block} {i j : Nat} {t : Terminator} (other : j ≠ i)
    (h : Draft.IsOpen blocks ⟨j⟩) : Draft.IsOpen (endAt blocks i t) ⟨j⟩ :=
  isOpen_of_eq (endAt_of_ne other) h

/-! ## Regions -/

/-- The block of the number is the one of the entry or was added. -/
def Inside (blocks : List Block) (entry : Nat) (blocks' : List Block) (i : Nat) : Prop :=
  i = entry ∨ blocks.length ≤ i ∧ i < blocks'.length

/-- The block of the number is reached from the entry, and the exit is reached from it.
    Unless it is the exit, it is ended and goes on in blocks from the number `low` on. -/
structure Between (blocks : List Block) (low entry exit i : Nat) : Prop where
  ended : i ≠ exit → Ended blocks low i
  reached : Reaches blocks entry i
  leaves : Reaches blocks i exit

/-- From the one list of blocks to the other only the entry was changed, and blocks were
    added, all of which lie between the entry and the exit. The exit is still open. -/
structure Region (blocks : List Block) (entry : Nat) (blocks' : List Block) (exit : Nat) :
    Prop where
  develops : Develops blocks blocks'
  others : ∀ i < blocks.length, i ≠ entry → blocks'[i]? = blocks[i]?
  isOpen : Draft.IsOpen blocks' ⟨exit⟩
  exitInside : Inside blocks entry blocks' exit
  between : ∀ i, Inside blocks entry blocks' i → Between blocks' blocks.length entry exit i

namespace Region

/-- Instructions in one open block. -/
theorem extend {blocks : List Block} {entry : Nat} (h : Draft.IsOpen blocks ⟨entry⟩)
    (code : List Instr) :
    Region blocks entry (blocks.modify entry (Draft.extend code)) entry := by
  obtain ⟨block, found, taking⟩ := h
  refine ⟨.modify ⟨block, found, taking⟩ fun _ => List.prefix_append _ _, ?_, ?_, .inl rfl, ?_⟩
  · intro i _ other
    simp [Ne.symm other]
  · exact ⟨Draft.extend code block, by rw [List.getElem?_modify_eq, found]; rfl, taking⟩
  · rintro i (rfl | ⟨above, below⟩)
    · exact ⟨fun other => absurd rfl other, .refl, .refl⟩
    · rw [List.length_modify] at below
      omega

/-- A region as a part of a larger one, where its exit is ended as well. -/
theorem between_of_part {blocks blocks₁ blocks₂ : List Block} {entry₁ exit₁ low entry exit : Nat}
    (part : Region blocks entry₁ blocks₁ exit₁) (later : Develops blocks₁ blocks₂)
    (less : low ≤ blocks.length) (ended : Ended blocks₂ low exit₁)
    (enters : Reaches blocks₂ entry entry₁) (goesOn : Reaches blocks₂ exit₁ exit) {i : Nat}
    (inside : Inside blocks entry₁ blocks₁ i) : Between blocks₂ low entry exit i where
  ended := by
    intro _
    by_cases last : i = exit₁
    · exact last ▸ ended
    · exact later.ended less ((part.between i inside).ended last)
  reached := enters.trans (later.reaches (part.between i inside).reached)
  leaves := (later.reaches (part.between i inside).leaves).trans goesOn

/-- One region behind the other. The middle lies in both; it counts for the second, which ends
    it. -/
theorem trans {blocks blocks₁ blocks₂ : List Block} {entry middle exit : Nat}
    (first : Region blocks entry blocks₁ middle) (second : Region blocks₁ middle blocks₂ exit) :
    Region blocks entry blocks₂ exit := by
  have grows := first.develops.length_le
  have grows₁ := second.develops.length_le
  have below := lt_of_isOpen first.isOpen
  have middleInside := first.exitInside
  have exitInside := second.exitInside
  have arrives := second.develops.reaches (first.between middle middleInside).reached
  have onwards := (second.between middle (.inl rfl)).leaves
  refine ⟨first.develops.trans second.develops, ?_, second.isOpen, ?_, ?_⟩
  · intro i old other
    rw [second.others i (by omega) (by unfold Inside at middleInside; omega)]
    exact first.others i old other
  · unfold Inside at *
    omega
  · intro i inside
    by_cases late : Inside blocks₁ middle blocks₂ i
    · obtain ⟨ended, reached, leaves⟩ := second.between i late
      exact ⟨fun other => (Develops.refl _).ended grows (ended other), arrives.trans reached, leaves⟩
    · have early : Inside blocks entry blocks₁ i := by
        unfold Inside at *
        omega
      obtain ⟨ended, reached, leaves⟩ := first.between i early
      have other : i ≠ middle := fun same => late (.inl same)
      exact ⟨fun _ => second.develops.ended (Nat.le_refl _) (ended other),
        second.develops.reaches reached, (second.develops.reaches leaves).trans onwards⟩

/-- A block that there was before a region and that is not its entry stays what it was. -/
theorem getElem?_other {blocks blocks' : List Block} {entry exit i : Nat} {t : Terminator}
    (region : Region blocks entry blocks' exit) (old : i < blocks.length) (other : i ≠ entry) :
    (endAt blocks' exit t)[i]? = blocks[i]? := by
  have exitInside := region.exitInside
  have notExit : i ≠ exit := by
    unfold Inside at exitInside
    omega
  rw [endAt_of_ne notExit, region.others i old other]

theorem isOpen_other {blocks blocks' : List Block} {entry exit i : Nat} {t : Terminator}
    (region : Region blocks entry blocks' exit) (h : Draft.IsOpen blocks ⟨i⟩) (other : i ≠ entry) :
    Draft.IsOpen (endAt blocks' exit t) ⟨i⟩ :=
  isOpen_of_eq (region.getElem?_other (lt_of_isOpen h) other) h

/-! ### Branches and loops -/

/-- A construct from an open block on, with an empty block behind it. What lies between has to be
    told of the blocks of its parts only. -/
theorem enclosing {blocks blocks' : List Block} {entry exit : Nat}
    (develops : Develops blocks blocks')
    (others : ∀ i < blocks.length, i ≠ entry → blocks'[i]? = blocks[i]?)
    (next : blocks'[exit]? = some .empty) (new : blocks.length ≤ exit)
    (ended : Ended blocks' blocks.length entry) (through : Reaches blocks' entry exit)
    (parts : ∀ i, blocks.length ≤ i → i < blocks'.length → i ≠ exit →
      Between blocks' blocks.length entry exit i) : Region blocks entry blocks' exit where
  develops := develops
  others := others
  isOpen := ⟨_, next, rfl⟩
  exitInside := .inr ⟨new, (List.getElem?_eq_some_iff.mp next).1⟩
  between i inside := by
    by_cases last : i = exit
    · subst last
      exact ⟨fun other => absurd rfl other, through, .refl⟩
    obtain rfl | ⟨above, below⟩ := inside
    · exact ⟨fun _ => ended, .refl, through⟩
    · exact parts i above below last

section Constructs

variable {blocks blocks₁ blocks₂ : List Block} {n entry exit₁ exit₂ : Nat} {v : Value}

/-- Two regions side by side. The block that has the condition is ended last. Neither region
    touches the origin or the block behind both. -/
theorem ifElse (start : blocks.length = n) (h : Draft.IsOpen blocks ⟨entry⟩)
    (first : Region (blocks ++ [.empty, .empty, .empty]) n blocks₁ exit₁)
    (second : Region (endAt blocks₁ exit₁ (.br ⟨n + 2⟩)) (n + 1) blocks₂ exit₂) :
    Region blocks entry
      (endAt (endAt blocks₂ exit₂ (.br ⟨n + 2⟩)) entry (.condBr v ⟨n⟩ ⟨n + 1⟩)) (n + 2) := by
  generalize ends : endAt (endAt blocks₂ exit₂ (.br ⟨n + 2⟩)) entry
    (.condBr v ⟨n⟩ ⟨n + 1⟩) = blocks₃
  have old := lt_of_isOpen h
  have grows := first.develops.length_le
  have grows₁ := second.develops.length_le
  have inside₁ := first.exitInside
  have inside₂ := second.exitInside
  simp only [Inside, List.length_append, List.length_cons, List.length_nil, length_endAt] at *
  have count : blocks₃.length = blocks₂.length := by
    rw [← ends, length_endAt, length_endAt]
  have same : ∀ i < n + 3, i ≠ n → i ≠ n + 1 →
      blocks₂[i]? = (blocks ++ [.empty, .empty, .empty])[i]? := by
    intro i _ _ _
    rw [second.others i (by simp; omega) (by omega), endAt_of_ne (by omega),
      first.others i (by simp; omega) (by omega)]
  have entryOpen : Draft.IsOpen (endAt blocks₂ exit₂ (.br ⟨n + 2⟩)) ⟨entry⟩ := by
    refine isOpen_of_eq ?_ h
    rw [endAt_of_ne (by omega), same entry (by omega) (by omega) (by omega),
      List.getElem?_append_left old]
  have later₄ : Develops (endAt blocks₂ exit₂ (.br ⟨n + 2⟩)) blocks₃ :=
    ends ▸ develops_endAt entryOpen
  have later₃ : Develops blocks₂ blocks₃ := (develops_endAt second.isOpen).trans later₄
  have later₂ : Develops (endAt blocks₁ exit₁ (.br ⟨n + 2⟩)) blocks₃ :=
    second.develops.trans later₃
  have later₁ : Develops blocks₁ blocks₃ := (develops_endAt first.isOpen).trans later₂
  have toThen : Leads blocks₃ entry n := ends ▸ leads_endAt entryOpen (by simp)
  have toElse : Leads blocks₃ entry (n + 1) := ends ▸ leads_endAt entryOpen (by simp)
  have thenNext : Leads blocks₃ exit₁ (n + 2) :=
    later₂.leads (leads_endAt first.isOpen (by simp))
  have elseNext : Leads blocks₃ exit₂ (n + 2) :=
    later₄.leads (leads_endAt second.isOpen (by simp))
  have through : Reaches blocks₃ n (n + 2) :=
    (later₁.reaches (first.between n (.inl rfl)).leaves).tail thenNext
  refine enclosing ((Develops.append _ _).trans (first.develops.trans later₁)) ?_ ?_ (by omega) ?_
    (.head toThen through) ?_
  · intro i old other
    rw [← ends, endAt_of_ne other, endAt_of_ne (by omega),
      same i (by omega) (by omega) (by omega), List.getElem?_append_left old]
  · rw [← ends, endAt_of_ne (by omega), endAt_of_ne (by omega),
      same _ (by omega) (by omega) (by omega), ← start]
    simp
  · have ended : Ended (endAt (endAt blocks₂ exit₂ (.br ⟨n + 2⟩)) entry
        (.condBr v ⟨n⟩ ⟨n + 1⟩)) blocks.length entry :=
      ended_endAt entryOpen (by simp) (by simp; omega)
    exact ends ▸ ended
  · intro i above below notNext
    by_cases inThen : Inside (blocks ++ [.empty, .empty, .empty]) n blocks₁ i
    · refine first.between_of_part later₁ (by simp) ?_ (.single toThen) (.single thenNext) inThen
      exact later₂.ended (Nat.le_refl _)
        (ended_endAt first.isOpen (by simp) (by simp; omega))
    have inElse : Inside (endAt blocks₁ exit₁ (.br ⟨n + 2⟩)) (n + 1) blocks₂ i := by
      simp only [Inside, List.length_append, List.length_cons, List.length_nil,
        length_endAt] at *
      omega
    refine second.between_of_part later₃ (by simp; omega) ?_ (.single toElse) (.single elseNext)
      inElse
    exact later₄.ended (Nat.le_refl _)
      (ended_endAt second.isOpen (by simp) (by simp; omega))

/-- A region that asks, and one that leads back to it. Neither region touches the block behind
    the loop. -/
theorem whileLoop (start : blocks.length = n) (h : Draft.IsOpen blocks ⟨entry⟩)
    (first : Region (endAt (blocks ++ [.empty, .empty, .empty]) entry (.br ⟨n⟩)) n blocks₁ exit₁)
    (second : Region (endAt blocks₁ exit₁ (.condBr v ⟨n + 1⟩ ⟨n + 2⟩)) (n + 1) blocks₂ exit₂) :
    Region blocks entry (endAt blocks₂ exit₂ (.br ⟨n⟩)) (n + 2) := by
  generalize ends : endAt blocks₂ exit₂ (.br ⟨n⟩) = blocks₃
  have old := lt_of_isOpen h
  have grows := first.develops.length_le
  have grows₁ := second.develops.length_le
  have inside₁ := first.exitInside
  have inside₂ := second.exitInside
  simp only [Inside, List.length_append, List.length_cons, List.length_nil, length_endAt] at *
  have count : blocks₃.length = blocks₂.length := by
    rw [← ends, length_endAt]
  have same : ∀ i < n + 3, i ≠ entry → i ≠ n → i ≠ n + 1 →
      blocks₃[i]? = (blocks ++ [.empty, .empty, .empty])[i]? := by
    intro i _ other _ _
    rw [← ends, endAt_of_ne (by omega), second.others i (by simp; omega) (by omega),
      endAt_of_ne (by omega), first.others i (by simp; omega) (by omega), endAt_of_ne other]
  have entryOpen : Draft.IsOpen (blocks ++ [.empty, .empty, .empty]) ⟨entry⟩ :=
    isOpen_of_eq (List.getElem?_append_left old) h
  have later₃ : Develops blocks₂ blocks₃ := ends ▸ develops_endAt second.isOpen
  have later₂ : Develops (endAt blocks₁ exit₁ (.condBr v ⟨n + 1⟩ ⟨n + 2⟩)) blocks₃ :=
    second.develops.trans later₃
  have later₁ : Develops blocks₁ blocks₃ := (develops_endAt first.isOpen).trans later₂
  have later : Develops (endAt (blocks ++ [.empty, .empty, .empty]) entry (.br ⟨n⟩)) blocks₃ :=
    first.develops.trans later₁
  have toFirst : Leads blocks₃ entry n := later.leads (leads_endAt entryOpen (by simp))
  have toBody : Leads blocks₃ exit₁ (n + 1) :=
    later₂.leads (leads_endAt first.isOpen (by simp))
  have toNext : Leads blocks₃ exit₁ (n + 2) :=
    later₂.leads (leads_endAt first.isOpen (by simp))
  have back : Leads blocks₃ exit₂ n := ends ▸ leads_endAt second.isOpen (by simp)
  have asked : Reaches blocks₃ n exit₁ := later₁.reaches (first.between n (.inl rfl)).leaves
  refine enclosing ((Develops.append _ _).trans ((develops_endAt entryOpen).trans later)) ?_ ?_
    (by omega) ?_ ((asked.head toFirst).tail toNext) ?_
  · intro i old other
    rw [same i (by omega) other (by omega) (by omega), List.getElem?_append_left old]
  · rw [same _ (by omega) (by omega) (by omega) (by omega), ← start]
    simp
  · exact later.ended (Nat.le_refl _) (ended_endAt entryOpen (by simp) (by simp; omega))
  · intro i above below notNext
    by_cases inFirst : Inside (endAt (blocks ++ [.empty, .empty, .empty]) entry (.br ⟨n⟩)) n
        blocks₁ i
    · refine first.between_of_part later₁ (by simp) ?_ (.single toFirst) (.single toNext) inFirst
      exact later₂.ended (Nat.le_refl _)
        (ended_endAt first.isOpen (by simp) (by simp; omega))
    have inBody : Inside (endAt blocks₁ exit₁ (.condBr v ⟨n + 1⟩ ⟨n + 2⟩)) (n + 1) blocks₂ i := by
      simp only [Inside, List.length_append, List.length_cons, List.length_nil,
        length_endAt] at *
      omega
    refine second.between_of_part later₃ (by simp; omega) ?_ ((asked.head toFirst).tail toBody)
      ((asked.head back).tail toNext) inBody
    have ended : Ended (endAt blocks₂ exit₂ (.br ⟨n⟩)) blocks.length exit₂ :=
      ended_endAt second.isOpen (by simp) (by simp; omega)
    exact ends ▸ ended

/-- A region that leads back to itself or out, depending on what it asks last. -/
theorem repeatLoop (start : blocks.length = n) (h : Draft.IsOpen blocks ⟨entry⟩)
    (body : Region (endAt (blocks ++ [.empty, .empty]) entry (.br ⟨n⟩)) n blocks₁ exit₁) :
    Region blocks entry (endAt blocks₁ exit₁ (.condBr v ⟨n + 1⟩ ⟨n⟩)) (n + 1) := by
  generalize ends : endAt blocks₁ exit₁ (.condBr v ⟨n + 1⟩ ⟨n⟩) = blocks₂
  have old := lt_of_isOpen h
  have grows := body.develops.length_le
  have inside₁ := body.exitInside
  simp only [Inside, List.length_append, List.length_cons, List.length_nil, length_endAt] at *
  have count : blocks₂.length = blocks₁.length := by
    rw [← ends, length_endAt]
  have same : ∀ i < n + 2, i ≠ entry → i ≠ n →
      blocks₂[i]? = (blocks ++ [.empty, .empty])[i]? := by
    intro i _ other _
    rw [← ends, endAt_of_ne (by omega), body.others i (by simp; omega) (by omega),
      endAt_of_ne other]
  have entryOpen : Draft.IsOpen (blocks ++ [.empty, .empty]) ⟨entry⟩ :=
    isOpen_of_eq (List.getElem?_append_left old) h
  have later₁ : Develops blocks₁ blocks₂ := ends ▸ develops_endAt body.isOpen
  have later : Develops (endAt (blocks ++ [.empty, .empty]) entry (.br ⟨n⟩)) blocks₂ :=
    body.develops.trans later₁
  have toBody : Leads blocks₂ entry n := later.leads (leads_endAt entryOpen (by simp))
  have toNext : Leads blocks₂ exit₁ (n + 1) := ends ▸ leads_endAt body.isOpen (by simp)
  have asked : Reaches blocks₂ n exit₁ := later₁.reaches (body.between n (.inl rfl)).leaves
  refine enclosing ((Develops.append _ _).trans ((develops_endAt entryOpen).trans later)) ?_ ?_
    (by omega) ?_ ((asked.head toBody).tail toNext) ?_
  · intro i old other
    rw [same i (by omega) other (by omega), List.getElem?_append_left old]
  · rw [same _ (by omega) (by omega) (by omega), ← start]
    simp
  · exact later.ended (Nat.le_refl _) (ended_endAt entryOpen (by simp) (by simp; omega))
  · intro i above below notNext
    have inBody : Inside (endAt (blocks ++ [.empty, .empty]) entry (.br ⟨n⟩)) n blocks₁ i := by
      simp only [Inside, List.length_append, List.length_cons, List.length_nil,
        length_endAt] at *
      omega
    have ended : Ended (endAt blocks₁ exit₁ (.condBr v ⟨n + 1⟩ ⟨n⟩)) blocks.length exit₁ :=
      ended_endAt body.isOpen (by simp) (by simp; omega)
    exact body.between_of_part later₁ (by simp) (ends ▸ ended) (.single toBody) (.single toNext)
      inBody

end Constructs

end Region

end Pseudocode.Lowering
