import Pseudocode.Proofs.Scopes.Tree

/-! # Numbers of closed scopes

A scope that is closed leaves its number behind. While as many scopes are open as before it, or
fewer, nothing is found under that number. The next scope that is opened above them gets the number
again, and whoever still has it comes to that scope.

* `applyAll`: operations in any order, with parents that need not be live.
* `opens`: the numbers that scopes get on the way.
* `Forgotten`: no name can be bound or found under the number. It is so exactly while there is no
  such scope (`forgotten_iff`).
* `forgotten_until_reopened`: the number of a closed scope is forgotten until it is given again.
* `closed_number_reused`: then a name can be bound under it.
-/

namespace Pseudocode.Scopes

/-! ## Operations -/

def applyAll (t : Scopes) (ops : List Operation) : Scopes := ops.foldl Operation.apply t

/-- The number that a scope gets, if the operation opens one. -/
def Operation.opens? (t : Scopes) : Operation → Option ScopeId
  | openScope _ => some t.nextScope
  | _ => none

/-- The numbers of the scopes that the operations open. -/
def opens (t : Scopes) : List Operation → List ScopeId
  | [] => []
  | o :: rest => (o.opens? t).toList ++ opens (o.apply t) rest

section Numbers

variable {t : Scopes} {id : ScopeId}

/-- An operation that opens no scope leaves at most as many open. -/
theorem depth_apply_le {o : Operation} (none : o.opens? t = none) :
    (o.apply t).depth ≤ t.depth := by
  cases o with
  | openScope parent => cases none
  | close id =>
    simp only [Operation.apply, Scopes.close]
    split
    · simp [depth]
    · exact Nat.le_refl _
  | bindVariable id name b =>
    simp only [Operation.apply]
    split
    · next bound =>
      obtain ⟨s, -, -, rfl⟩ := bindVariable_eq_ok bound
      simp [depth]
    · exact Nat.le_refl _
  | bindFunction id name f =>
    simp only [Operation.apply]
    split
    · next bound => simp [depth, (bindFunction_eq_ok bound).2]
    · exact Nat.le_refl _

theorem depth_apply_openScope (parent : ScopeId) :
    ((Operation.openScope parent).apply t).depth = t.depth + 1 := by
  simp [Operation.apply, Scopes.openScope, depth]

/-- A number stays above all scopes until it is given to one. The next scope gets the number of
    scopes that there are, which is not this one. -/
theorem depth_applyAll_le {ops : List Operation} (above : t.depth ≤ id.index)
    (other : id ∉ t.opens ops) : (t.applyAll ops).depth ≤ id.index := by
  induction ops generalizing t with
  | nil => exact above
  | cons o ops ih =>
    rw [opens, List.mem_append, not_or] at other
    refine ih ?_ other.2
    cases opened : o.opens? t with
    | none => exact Nat.le_trans (depth_apply_le opened) above
    | some next =>
      cases o with
      | close | bindVariable | bindFunction => cases opened
      | openScope parent =>
        cases opened
        have unlike : id ≠ t.nextScope := by simpa [Operation.opens?] using other.1
        have : id.index ≠ t.depth := fun same => unlike (congrArg ScopeId.mk same)
        rw [depth_apply_openScope]
        omega

end Numbers

/-! ## Forgotten numbers -/

/-- No name can be bound under the number, which leaves everything as it is, and none is found. -/
structure Forgotten (t : Scopes) (id : ScopeId) : Prop where
  refused : ∀ name b, t.bindVariable id name b = .error .unknownScope
  unchanged : ∀ s : Lowering.State, s.scopes = t → ∀ name b pos,
    Lowering.bindVariable id name b pos s =
      .error (.ofScopeFault .variable pos .unknownScope) s
  unbound : ∀ name, t.lookup id name = none
  unresolved : ∀ name, t.resolve id name = none

section Forgotten

variable {t : Scopes} {id : ScopeId}

theorem bindVariable_of_dead (dead : ¬ t.Live id) (name : String) (b : Binding) :
    t.bindVariable id name b = .error .unknownScope := by
  have absent : t.scope? id = none := by simpa [Live] using dead
  rw [bindVariable, absent]

theorem forgotten_of_dead (dead : ¬ t.Live id) : t.Forgotten id where
  refused := bindVariable_of_dead dead
  unchanged := by
    rintro s rfl name b pos
    unfold Lowering.bindVariable
    rw [Lowering.get_bind, bindVariable_of_dead dead]
    rfl
  unbound name := by
    have absent : t.scope? id = none := by simpa [Live] using dead
    rw [lookup, absent]
    rfl
  unresolved name := resolveWithin_of_dead dead _

/-- In a scope that is open, a name is refused for another reason at most. -/
theorem forgotten_iff : t.Forgotten id ↔ t.depth ≤ id.index := by
  constructor
  · intro forgotten
    by_contra live
    obtain ⟨s, found⟩ := Option.isSome_iff_exists.mp (live_iff.mpr (Nat.lt_of_not_le live))
    have refused := forgotten.refused "" default
    rw [bindVariable, found] at refused
    simp only at refused
    split at refused <;> cases refused
  · intro above
    exact forgotten_of_dead fun live => Nat.not_lt_of_le above (live_iff.mp live)

end Forgotten

/-! ## Closed scopes -/

/-- Only the newest scope can be closed, so its number is that of the next one. -/
theorem nextScope_close {t : Scopes} {id : ScopeId} (live : t.Live id)
    (closed : ¬ (t.close id).Live id) : (t.close id).nextScope = id := by
  have newest : id.index ≠ 0 ∧ id.index + 1 = t.opened.length := by
    by_contra older
    rw [close_of_older older] at closed
    exact closed live
  have left : (t.close id).opened = t.opened.dropLast := by rw [Scopes.close, if_pos newest]
  rw [nextScope, left, List.length_dropLast, ← newest.2]
  rfl

/-- Whatever scopes there are, when one of them has been closed and whatever is done afterwards, its
    number is forgotten until it is given to another scope. That is the next one to be opened, if
    none is closed before. The number is forgotten exactly while there are no more open scopes than
    it counts. -/
theorem forgotten_until_reopened {t : Scopes} {id : ScopeId} (live : t.Live id)
    (closed : ¬ (t.close id).Live id) (after : List Operation) :
    (id ∉ opens (t.close id) after → ((t.close id).applyAll after).Forgotten id) ∧
    (((t.close id).applyAll after).Forgotten id ↔
      ((t.close id).applyAll after).depth ≤ id.index) ∧
    (t.close id).nextScope = id := by
  refine ⟨fun other => ?_, forgotten_iff, nextScope_close live closed⟩
  have above : (t.close id).depth ≤ id.index := Nat.le_of_not_lt (mt live_iff.mpr closed)
  exact forgotten_iff.mpr (depth_applyAll_le above other)

/-- Two scopes, one in the other. -/
def nested : Scopes := (start.openScope root).openScope ⟨1⟩

/-- When the inner scope is closed, and then the outer one as well, the next scope gets the number
    of the outer one. That of the inner one is still forgotten. -/
theorem forgotten_nested :
    nested.Live ⟨2⟩ ∧ ¬ (nested.close ⟨2⟩).Live ⟨2⟩ ∧
    (⟨2⟩ : ScopeId) ∉
      opens (nested.close ⟨2⟩) [.close ⟨1⟩, .openScope root, .bindVariable ⟨1⟩ "x" outerX] ∧
    ((nested.close ⟨2⟩).applyAll
      [.close ⟨1⟩, .openScope root, .bindVariable ⟨1⟩ "x" outerX]).Forgotten ⟨2⟩ := by
  have live : nested.Live ⟨2⟩ := rfl
  have closed : ¬ (nested.close ⟨2⟩).Live ⟨2⟩ := nofun
  have other : (⟨2⟩ : ScopeId) ∉
      opens (nested.close ⟨2⟩) [.close ⟨1⟩, .openScope root, .bindVariable ⟨1⟩ "x" outerX] := by
    decide
  exact ⟨live, closed, other, (forgotten_until_reopened live closed _).1 other⟩

/-- A scope is closed and another one is opened. Under the number of the closed scope a name can be
    bound now, and is found. -/
theorem closed_number_reused :
    (start.openScope root).Live ⟨1⟩ ∧ ¬ ((start.openScope root).close ⟨1⟩).Live ⟨1⟩ ∧
    ∃ t, (((start.openScope root).close ⟨1⟩).openScope root).bindVariable ⟨1⟩ "x" outerX = .ok t ∧
      t.lookup ⟨1⟩ "x" = some outerX ∧ t.resolve ⟨1⟩ "x" = some outerX :=
  ⟨rfl, nofun, _, rfl, rfl, rfl⟩

end Pseudocode.Scopes
