import Mathlib.Data.List.Basic
import Pseudocode.Proofs.Lowering.Draft

/-! # The tree of scopes

Scopes are told by bare numbers, which are used again once a scope is closed, and no operation
looks at how the scopes hang together. That they form a tree is kept all the same.

* `Operation`, `Run`: what is done to the scopes, one operation after the other. A scope is opened
  only below one that is live.
* `IsTree`: the parent of a scope is live and has a smaller number. Each operation keeps that
  (`IsTree.step`), so it holds after every run (`Run.isTree`).
* `Chain`: a scope and the scopes around it, up to the root. A name stands for what the first of
  them binds it to (`Chain.resolveWithin`).
* `Extends`: what is done inside a scope leaves the scopes below its number as they were, which is
  why closing it gives them back (`Extends.closed`).
* `lexical_after_run` puts this together.
-/

namespace Pseudocode.Scopes

open Assembly (Signature)

/-! ## Operations -/

/-- What can be done to the scopes. -/
inductive Operation where
  | openScope (parent : ScopeId)
  | close (id : ScopeId)
  | bindVariable (id : ScopeId) (name : String) (b : Binding)
  | bindFunction (id : ScopeId) (name : String) (f : Signature)

namespace Operation

/-- The scope that an operation touches. For a new scope it is the one around it. -/
def scope : Operation → ScopeId
  | openScope parent => parent
  | close id | bindVariable id _ _ | bindFunction id _ _ => id

/-- Does the operation. A declaration that is refused has no effect. -/
def apply (t : Scopes) : Operation → Scopes
  | openScope parent => t.openScope parent
  | close id => t.close id
  | bindVariable id name b =>
    match t.bindVariable id name b with
    | .ok t' => t'
    | .error _ => t
  | bindFunction id name f =>
    match t.bindFunction id name f with
    | .ok t' => t'
    | .error _ => t

end Operation

/-- The scope is open. -/
def Live (t : Scopes) (id : ScopeId) : Prop := (t.scope? id).isSome

/-- A scope is opened only below one that is live. All else may be tried at any time. -/
def Admits (t : Scopes) : Operation → Prop
  | .openScope parent => t.Live parent
  | _ => True

/-- Does the operations of a list, each of which is admitted when its turn comes. -/
inductive Run : Scopes → List Operation → Scopes → Prop
  | done {t} : Run t [] t
  | step {t o rest t'} : t.Admits o → Run (o.apply t) rest t' → Run t (o :: rest) t'

/-! ## What an operation changes -/

section Steps

variable {t t' : Scopes} {id j : ScopeId} {name n : String} {b : Binding}

theorem live_iff : t.Live id ↔ id.index < t.depth := by
  simp [Live, scope?, depth]

theorem scope?_openScope (parent : ScopeId) :
    (t.openScope parent).scope? j =
      if j = t.nextScope then some ⟨some parent, []⟩ else t.scope? j := by
  obtain ⟨i⟩ := j
  simp only [scope?, openScope, nextScope, ScopeId.mk.injEq]
  split
  · next same => simp [same]
  · next other =>
    rcases Nat.lt_or_gt_of_ne other with less | more
    · rw [List.getElem?_append_left less]
    · rw [List.getElem?_eq_none (by simp; omega), List.getElem?_eq_none (by omega)]

theorem close_of_older (older : ¬ (id.index ≠ 0 ∧ id.index + 1 = t.depth)) : t.close id = t :=
  if_neg older

/-- Closing the newest scope makes it disappear. -/
theorem scope?_close (notRoot : id.index ≠ 0) (newest : id.index + 1 = t.depth) :
    (t.close id).scope? j = if j = id then none else t.scope? j := by
  have closed : t.close id = { t with opened := t.opened.dropLast } := if_pos ⟨notRoot, newest⟩
  obtain ⟨i⟩ := j
  obtain ⟨k⟩ := id
  have length : t.opened.length = k + 1 := newest.symm
  simp only [closed, scope?, List.getElem?_dropLast, length, Nat.add_sub_cancel, ScopeId.mk.injEq]
  rcases Nat.lt_trichotomy i k with less | same | more
  · rw [if_pos less, if_neg (Nat.ne_of_lt less)]
  · rw [if_neg (by omega), if_pos same]
  · rw [if_neg (by omega), if_neg (by omega), List.getElem?_eq_none (by omega)]

theorem bindVariable_eq_ok (bound : t.bindVariable id name b = .ok t') :
    ∃ s, t.scope? id = some s ∧ s.find? name = none ∧
      t' = { t with opened := t.opened.set id.index (s.bind name b) } := by
  simp only [bindVariable] at bound
  split at bound
  · cases bound
  next s found =>
  split at bound
  · cases bound
  next fresh =>
  cases bound
  exact ⟨s, found, fresh, rfl⟩

theorem bindFunction_eq_ok {f : Signature} (bound : t.bindFunction id name f = .ok t') :
    isRoot id ∧ t'.opened = t.opened := by
  simp only [bindFunction] at bound
  split at bound
  · cases bound
  next isRoot =>
  split at bound
  · cases bound
  · cases bound
    exact ⟨by simpa using isRoot, rfl⟩

theorem find?_bind {s : Scope} (fresh : s.find? name = none) :
    (s.bind name b).find? n = if n = name then some b else s.find? n := by
  simp only [Scope.find?, Scope.bind, List.lookup_append] at fresh ⊢
  split
  · next same => simp [same, fresh]
  · next other =>
    have unequal : (n == name) = false := by simpa using other
    simp [List.lookup_cons, unequal]

theorem scope?_bound {s : Scope} (found : t.scope? id = some s)
    (changed : t' = { t with opened := t.opened.set id.index (s.bind name b) }) :
    t'.scope? j = if j = id then some (s.bind name b) else t.scope? j := by
  obtain ⟨i⟩ := j
  obtain ⟨k⟩ := id
  have inside : k < t.opened.length := (List.getElem?_eq_some_iff.mp found).1
  simp only [changed, scope?, List.getElem?_set, ScopeId.mk.injEq, inside, if_true,
    eq_comm (a := i)]

/-- A declaration keeps all scopes with their parents. -/
theorem parent?_bound (bound : t.bindVariable id name b = .ok t') (j : ScopeId) :
    (t'.Live j ↔ t.Live j) ∧ t'.parent? j = t.parent? j := by
  obtain ⟨s, found, _, changed⟩ := bindVariable_eq_ok bound
  simp only [Live, parent?, scope?_bound found changed]
  split
  · next same => simp [same, found, Scope.bind]
  · exact ⟨Iff.rfl, rfl⟩

/-- A declaration adds one binding. -/
theorem lookup_bound (bound : t.bindVariable id name b = .ok t') (j : ScopeId) (n : String) :
    t'.lookup j n = if j = id ∧ n = name then some b else t.lookup j n := by
  obtain ⟨s, found, fresh, changed⟩ := bindVariable_eq_ok bound
  simp only [lookup, scope?_bound found changed]
  by_cases same : j = id
  · simp [same, found, find?_bind fresh]
  · simp [same]

end Steps

/-! ## The tree -/

/-- The scopes form a tree: the root is live and has no parent, and every other live scope has a
    live parent with a smaller number. -/
structure IsTree (t : Scopes) : Prop where
  root : t.Live root ∧ t.parent? root = none
  parents : ∀ id, t.Live id → id ≠ Scopes.root →
    ∃ parent, t.parent? id = some parent ∧ t.Live parent ∧ parent.index < id.index

theorem isTree_start : start.IsTree where
  root := ⟨rfl, rfl⟩
  parents := fun _ live other =>
    absurd (congrArg ScopeId.mk (Nat.lt_one_iff.mp (live_iff.mp live))) other

section Tree

variable {t t' : Scopes} {id : ScopeId}

theorem live_of_parent? {parent : ScopeId} (above : t.parent? id = some parent) : t.Live id := by
  obtain ⟨s, found, _⟩ := Option.bind_eq_some_iff.mp above
  exact Option.isSome_iff_exists.mpr ⟨s, found⟩

theorem ne_nextScope (live : t.Live id) : id ≠ t.nextScope := by
  rintro rfl
  exact Nat.lt_irrefl _ (live_iff.mp live)

/-- What is live stays live, with its parent, when a scope is opened. -/
theorem parent?_openScope (parent : ScopeId) (live : t.Live id) :
    (t.openScope parent).Live id ∧ (t.openScope parent).parent? id = t.parent? id := by
  simp only [Live, parent?, scope?_openScope, if_neg (ne_nextScope live)]
  exact ⟨live, trivial⟩

theorem IsTree.openScope {parent : ScopeId} (tree : t.IsTree) (live : t.Live parent) :
    (t.openScope parent).IsTree where
  root :=
    have kept := parent?_openScope parent tree.root.1
    ⟨kept.1, kept.2.trans tree.root.2⟩
  parents := by
    intro id open' other
    by_cases new : id = t.nextScope
    · refine ⟨parent, by simp [parent?, scope?_openScope, new],
        (parent?_openScope parent live).1, ?_⟩
      rw [new]
      exact live_iff.mp live
    · have old : t.Live id := by simpa only [Live, scope?_openScope, if_neg new] using open'
      obtain ⟨p, above, pLive, less⟩ := tree.parents id old other
      exact ⟨p, (parent?_openScope parent old).2.trans above,
        (parent?_openScope parent pLive).1, less⟩

/-- The newest scope has the largest number, so it is no parent of what stays open. -/
theorem IsTree.close (tree : t.IsTree) (id : ScopeId) : (t.close id).IsTree := by
  by_cases closes : id.index ≠ 0 ∧ id.index + 1 = t.depth
  case neg => rwa [close_of_older closes]
  obtain ⟨notRoot, newest⟩ := closes
  have left (j : ScopeId) := scope?_close (j := j) notRoot newest
  have kept {j : ScopeId} (live : t.Live j) (other : j ≠ id) :
      (t.close id).Live j ∧ (t.close id).parent? j = t.parent? j := by
    simp only [Live, parent?, left, if_neg other]
    exact ⟨live, trivial⟩
  have rootKept := kept tree.root.1 (by rintro rfl; exact notRoot rfl)
  refine ⟨⟨rootKept.1, rootKept.2.trans tree.root.2⟩, fun j live other => ?_⟩
  have stays : j ≠ id := by rintro rfl; simp [Live, left] at live
  have old : t.Live j := by simpa only [Live, left, if_neg stays] using live
  obtain ⟨p, above, pLive, less⟩ := tree.parents j old other
  have pStays : p ≠ id := by
    rintro rfl
    have := live_iff.mp old
    omega
  exact ⟨p, (kept old stays).2.trans above, (kept pLive pStays).1, less⟩

/-- To be a tree is a matter of what is open and of the parents. -/
theorem IsTree.congr (tree : t.IsTree)
    (same : ∀ j, (t'.Live j ↔ t.Live j) ∧ t'.parent? j = t.parent? j) : t'.IsTree := by
  refine ⟨⟨(same _).1.mpr tree.root.1, (same _).2.trans tree.root.2⟩, fun j live other => ?_⟩
  obtain ⟨p, above, pLive, less⟩ := tree.parents j ((same j).1.mp live) other
  exact ⟨p, (same j).2.trans above, (same p).1.mpr pLive, less⟩

theorem IsTree.step {o : Operation} (tree : t.IsTree) (admitted : t.Admits o) :
    (o.apply t).IsTree := by
  cases o with
  | openScope parent => exact tree.openScope admitted
  | close id => exact tree.close id
  | bindVariable id name b =>
    simp only [Operation.apply]
    split
    · next bound => exact tree.congr (parent?_bound bound)
    · exact tree
  | bindFunction id name f =>
    simp only [Operation.apply]
    split
    · next bound =>
      refine tree.congr fun j => ?_
      simp [Live, parent?, scope?, (bindFunction_eq_ok bound).2]
    · exact tree

theorem Run.keeps_tree {ops : List Operation} (run : Run t ops t') (tree : t.IsTree) :
    t'.IsTree := by
  induction run with
  | done => exact tree
  | step admitted _ ih => exact ih (tree.step admitted)

theorem Run.isTree {ops : List Operation} (run : Run .start ops t) : t.IsTree :=
  run.keeps_tree isTree_start

end Tree

/-! ## Looking up -/

/-- A scope, its parent, the parent of that and so on, up to a scope that has no parent. -/
inductive Chain (t : Scopes) : ScopeId → List ScopeId → Prop
  | top {id} : t.Live id → t.parent? id = none → Chain t id [id]
  | under {id parent ids} : t.parent? id = some parent → Chain t parent ids → Chain t id (id :: ids)

/-- Going up from a scope, the scope `id` comes before any other that binds the name. -/
def Sees (t : Scopes) (start : ScopeId) (name : String) (id : ScopeId) : Prop :=
  ∃ nearer further, t.Chain start (nearer ++ id :: further) ∧ ∀ j ∈ nearer, t.lookup j name = none

section Lookup

variable {t t' : Scopes} {id : ScopeId} {ids : List ScopeId} {name : String}

theorem resolveWithin_of_dead (dead : ¬ t.Live id) (count : Nat) :
    t.resolveWithin name count id = none := by
  have absent : t.scope? id = none := by simpa [Live] using dead
  cases count with
  | zero => rfl
  | succ count => rw [resolveWithin, absent]

theorem Chain.live (chain : t.Chain id ids) : t.Live id := by
  cases chain with
  | top live _ => exact live
  | under above _ => exact live_of_parent? above

/-- The numbers get smaller on the way up, so the way is no longer than the first of them tells. -/
theorem Chain.length_le_index (tree : t.IsTree) (chain : t.Chain id ids) :
    ids.length ≤ id.index + 1 := by
  induction chain with
  | top => exact Nat.le_add_left 1 _
  | @under id parent ids above rest ih =>
    have other : id ≠ Scopes.root := by
      rintro rfl
      rw [tree.root.2] at above
      cases above
    obtain ⟨_, above', _, less⟩ := tree.parents id (live_of_parent? above) other
    cases above.symm.trans above'
    exact Nat.succ_le_succ (Nat.le_trans ih less)

theorem IsTree.exists_chain (tree : t.IsTree) {id : ScopeId} (live : t.Live id) :
    ∃ ids, t.Chain id ids := by
  by_cases top : id = Scopes.root
  · subst top
    exact ⟨_, .top tree.root.1 tree.root.2⟩
  · obtain ⟨p, above, pLive, less⟩ := tree.parents id live top
    obtain ⟨ids, chain⟩ := tree.exists_chain pLive
    exact ⟨_, .under above chain⟩
termination_by id.index

theorem Chain.unique {ids' : List ScopeId} (chain : t.Chain id ids) (chain' : t.Chain id ids') :
    ids = ids' := by
  induction chain generalizing ids' with
  | top _ orphan =>
    cases chain' with
    | top => rfl
    | under above _ => rw [orphan] at above; cases above
  | under above _ ih =>
    cases chain' with
    | top _ orphan => rw [orphan] at above; cases above
    | under above' rest =>
      cases above.symm.trans above'
      rw [ih rest]

/-- With room for the whole chain, a name is looked up in one scope of it after the other. -/
theorem Chain.resolveWithin (chain : t.Chain id ids) {count : Nat} (room : ids.length ≤ count) :
    t.resolveWithin name count id = ids.findSome? fun j => t.lookup j name := by
  induction chain generalizing count with
  | @top id live orphan =>
    obtain ⟨s, found⟩ := Option.isSome_iff_exists.mp live
    obtain ⟨count, rfl⟩ := Nat.exists_eq_add_of_le' room
    have parent : s.parent = none := by simpa [parent?, found] using orphan
    cases bound : s.find? name <;> simp [Scopes.resolveWithin, lookup, found, parent, bound]
  | @under id above ids isParent _ ih =>
    obtain ⟨s, found, parent⟩ := Option.bind_eq_some_iff.mp isParent
    obtain ⟨count, rfl⟩ := Nat.exists_eq_add_of_le' (Nat.le_trans (Nat.le_add_left 1 _) room)
    have rest := ih (Nat.le_of_succ_le_succ room)
    cases bound : s.find? name <;> simp [Scopes.resolveWithin, lookup, found, parent, bound, rest]

theorem Chain.length_le (tree : t.IsTree) (chain : t.Chain id ids) : ids.length ≤ t.depth :=
  Nat.le_trans (chain.length_le_index tree) (live_iff.mp chain.live)

/-- As the numbers get smaller, there is room for the whole chain. -/
theorem Chain.resolve (tree : t.IsTree) (chain : t.Chain id ids) :
    t.resolve id name = ids.findSome? fun j => t.lookup j name :=
  chain.resolveWithin (chain.length_le tree)

theorem Chain.congr (chain : t.Chain id ids)
    (same : ∀ j, (t'.Live j ↔ t.Live j) ∧ t'.parent? j = t.parent? j) : t'.Chain id ids := by
  induction chain with
  | top live orphan => exact .top ((same _).1.mpr live) ((same _).2.trans orphan)
  | under above _ ih => exact .under ((same _).2.trans above) ih

/-- A scope that starts to bind a name answers where no nearer scope does. -/
theorem findSome?_of_nearer {f g : ScopeId → Option Binding} {b : Binding}
    {nearer further : List ScopeId} (added : ∀ j, g j = if j = id then some b else f j)
    (silent : ∀ j ∈ nearer, f j = none) : (nearer ++ id :: further).findSome? g = some b := by
  induction nearer with
  | nil => simp [added]
  | cons j nearer ih =>
    have rest := ih fun k member => silent k (List.mem_cons_of_mem _ member)
    simp only [List.cons_append, List.findSome?, added, silent j List.mem_cons_self, rest]
    split <;> simp_all

theorem findSome?_of_hidden {f g : ScopeId → Option Binding} {b : Binding}
    (added : ∀ j, g j = if j = id then some b else f j)
    (hidden : ∀ nearer further, ids = nearer ++ id :: further → ∃ j ∈ nearer, f j ≠ none) :
    ids.findSome? g = ids.findSome? f := by
  induction ids with
  | nil => rfl
  | cons j ids ih =>
    have other : j ≠ id := by
      rintro rfl
      obtain ⟨_, member, _⟩ := hidden [] ids rfl
      cases member
    simp only [List.findSome?, added j, if_neg other]
    cases found : f j with
    | some _ => rfl
    | none =>
      refine ih fun nearer further split => ?_
      obtain ⟨k, member, binds⟩ := hidden (j :: nearer) further (by rw [split]; rfl)
      rcases List.mem_cons.mp member with rfl | member
      · exact absurd found binds
      · exact ⟨k, member, binds⟩

variable {start : ScopeId} {b : Binding}

/-- Where the new binding is the nearest one, the name now stands for it. -/
theorem resolve_bound (tree : t.IsTree) (bound : t.bindVariable id name b = .ok t')
    (sees : t.Sees start name id) : t'.resolve start name = some b := by
  obtain ⟨nearer, further, chain, silent⟩ := sees
  have same := parent?_bound bound
  rw [(chain.congr same).resolve (tree.congr same)]
  exact findSome?_of_nearer (fun j => by simp [lookup_bound bound]) silent

/-- Everywhere else, and for other names, nothing changes. -/
theorem resolve_bound_other (tree : t.IsTree) (bound : t.bindVariable id name b = .ok t')
    {n : String} (other : n = name → ¬ t.Sees start name id) :
    t'.resolve start n = t.resolve start n := by
  have same := parent?_bound bound
  by_cases live : t.Live start
  · obtain ⟨ids, chain⟩ := tree.exists_chain live
    rw [chain.resolve tree, (chain.congr same).resolve (tree.congr same)]
    by_cases named : n = name
    · subst named
      have added (j : ScopeId) : t'.lookup j n = if j = id then some b else t.lookup j n := by
        simp [lookup_bound bound]
      refine findSome?_of_hidden added fun nearer further split => ?_
      by_contra silent
      exact other rfl ⟨nearer, further, split ▸ chain, fun j member => by
        by_contra binds
        exact silent ⟨j, member, binds⟩⟩
    · simp only [lookup_bound bound, named, and_false, if_false]
  · rw [resolve, resolve, resolveWithin_of_dead live, resolveWithin_of_dead (mt (same _).1.mp live)]

end Lookup

/-! ## Inside a scope -/

/-- The tree `u` has the scopes of `t`, as they are there, and possibly further ones. -/
def Extends (t u : Scopes) : Prop :=
  ∃ further, u.opened = t.opened ++ further ∧ u.functions = t.functions

section Inside

variable {t u : Scopes}

theorem Extends.openScope (t : Scopes) (parent : ScopeId) : t.Extends (t.openScope parent) :=
  ⟨_, rfl, rfl⟩

theorem Extends.close {id : ScopeId} (inside : t.Extends u) (above : t.depth ≤ id.index) :
    t.Extends (u.close id) := by
  obtain ⟨further, opened, functions⟩ := inside
  unfold Scopes.close
  split
  · next newest =>
    have some : further ≠ [] := by
      rintro rfl
      have : u.opened.length = t.depth := by rw [opened, List.append_nil]; rfl
      omega
    exact ⟨further.dropLast, by rw [opened, List.dropLast_append_of_ne_nil some], functions⟩
  · exact ⟨further, opened, functions⟩

/-- What touches none of the scopes that were there leaves them as they are. Functions are
    declared at the root only, which was there before. -/
theorem Extends.step {o : Operation} (root : t.Live root) (inside : t.Extends u)
    (above : t.depth ≤ o.scope.index) : t.Extends (o.apply u) := by
  cases o with
  | openScope parent =>
    obtain ⟨further, opened, functions⟩ := inside
    exact ⟨further ++ [⟨some parent, []⟩], by
      simp [Operation.apply, Scopes.openScope, opened], functions⟩
  | close id => exact inside.close above
  | bindVariable id name b =>
    simp only [Operation.apply]
    split
    · next bound =>
      obtain ⟨further, opened, functions⟩ := inside
      obtain ⟨s, _, _, rfl⟩ := bindVariable_eq_ok bound
      refine ⟨further.set (id.index - t.depth) (s.bind name b), ?_, functions⟩
      have beyond : t.opened.length ≤ id.index := above
      simp only [opened, List.set_append_right _ _ beyond, depth]
    · exact inside
  | bindFunction id name f =>
    simp only [Operation.apply]
    split
    · next bound =>
      have atRoot : id.index = 0 := by simpa [isRoot] using (bindFunction_eq_ok bound).1
      have := live_iff.mp root
      have : t.depth ≤ id.index := above
      simp only [Scopes.root] at *
      omega
    · exact inside

theorem Extends.run {ops : List Operation} {u' : Scopes} (root : t.Live root)
    (run : Run u ops u') (inside : t.Extends u) (above : ∀ o ∈ ops, t.depth ≤ o.scope.index) :
    t.Extends u' := by
  induction run with
  | done => exact inside
  | step _ _ ih =>
    exact ih (inside.step root (above _ List.mem_cons_self))
      fun o member => above o (List.mem_cons_of_mem _ member)

/-- The first of the further scopes is the newest of all, if it is open. -/
theorem newest_of_first {id : ScopeId} {ids : List ScopeId}
    (newestFirst : ∀ j ∈ ids, j.index ≤ id.index)
    (all : ∀ j, u.Live j → t.depth ≤ j.index → j ∈ id :: ids) (further : t.depth ≤ id.index)
    (live : u.Live id) : id.index + 1 = u.depth := by
  have bound := live_iff.mp live
  have last : u.Live ⟨u.depth - 1⟩ := by
    rw [live_iff]
    simp only
    omega
  rcases List.mem_cons.mp (all _ last (by simp only; omega)) with same | member
  · have := congrArg ScopeId.index same
    simp only at this
    omega
  · have := newestFirst _ member
    simp only at this
    omega

/-- Closing the further scopes, the newest first, gives back what was there. A scope that is no
    longer open may be among them, or be told twice. -/
theorem Extends.closed {ids : List ScopeId} (root : t.Live root) (inside : t.Extends u)
    (newestFirst : ids.Pairwise fun a b => b.index ≤ a.index)
    (above : ∀ id ∈ ids, t.depth ≤ id.index)
    (all : ∀ id, u.Live id → t.depth ≤ id.index → id ∈ ids) : ids.foldl Scopes.close u = t := by
  induction ids generalizing u with
  | nil =>
    obtain ⟨further, opened, functions⟩ := inside
    have none : further = [] := by
      by_contra some
      have live : u.Live t.nextScope := by
        rw [live_iff, depth, opened, List.length_append]
        have := List.length_pos_of_ne_nil some
        simp only [nextScope]
        omega
      cases all _ live (Nat.le_refl _)
    subst none
    cases t
    cases u
    simp_all
  | cons id ids ih =>
    rw [List.pairwise_cons] at newestFirst
    refine ih (inside.close (above id List.mem_cons_self)) newestFirst.2
      (fun j member => above j (List.mem_cons_of_mem _ member)) fun j live from' => ?_
    have rootless : id.index ≠ 0 := by
      have := live_iff.mp root
      have := above id List.mem_cons_self
      simp only [Scopes.root] at *
      omega
    by_cases newest : id.index + 1 = u.depth
    · have left := scope?_close (j := j) rootless newest
      have other : j ≠ id := by
        rintro rfl
        simp [Live, left] at live
      have old : u.Live j := by simpa only [Live, left, if_neg other] using live
      exact (List.mem_cons.mp (all j old from')).resolve_left other
    · rw [close_of_older fun closes => newest closes.2] at live
      rcases List.mem_cons.mp (all j live from') with rfl | member
      · exact absurd (newest_of_first newestFirst.1 all from' live) newest
      · exact member

end Inside

/-! ## After every run -/

/-- A declaration that is refused changes nothing. -/
theorem eq_of_bindVariable_error {s s' : Lowering.State} {id : ScopeId} {name : String}
    {b : Binding} {pos : Position} {e : Diagnostic}
    (refused : Lowering.bindVariable id name b pos s = .error e s') : s' = s := by
  cases outcome : s.scopes.bindVariable id name b with
  | ok scopes =>
    rw [Lowering.bindVariable_ok pos outcome] at refused
    cases refused
  | error fault =>
    unfold Lowering.bindVariable at refused
    rw [Lowering.get_bind] at refused
    simp only [outcome] at refused
    cases refused
    rfl

theorem eq_of_bindFunction_error {s s' : Lowering.State} {id : ScopeId} {name : String}
    {f : Signature} {pos : Position} {e : Diagnostic}
    (refused : Lowering.bindFunction id name f pos s = .error e s') : s' = s := by
  cases outcome : s.scopes.bindFunction id name f with
  | ok scopes =>
    rw [Lowering.bindFunction_ok pos outcome] at refused
    cases refused
  | error fault =>
    unfold Lowering.bindFunction at refused
    rw [Lowering.get_bind] at refused
    simp only [outcome] at refused
    cases refused
    rfl

/-- What is expected of scopes that are nested in one another. -/
structure Lexical (t : Scopes) : Prop where
  tree : t.IsTree
  /-- A name stands for what the nearest scope binds it to. There are no more scopes on the way
      than are open, so the search ends. -/
  nearest : ∀ id name, t.Live id → ∃ chain, t.Chain id chain ∧ chain.length ≤ t.depth ∧
    t.resolve id name = chain.findSome? fun j => t.lookup j name
  /-- A scope that is not open knows no name. -/
  dead : ∀ id name, ¬ t.Live id → t.resolve id name = none
  refusedVariable : ∀ s s' : Lowering.State, s.scopes = t → ∀ id name b pos e,
    Lowering.bindVariable id name b pos s = .error e s' → s' = s
  refusedFunction : ∀ s s' : Lowering.State, s.scopes = t → ∀ id name f pos e,
    Lowering.bindFunction id name f pos s = .error e s' → s' = s
  /-- A new binding is what the name stands for from where no nearer scope binds it. -/
  bound : ∀ id name b t', t.bindVariable id name b = .ok t' → ∀ start,
    t.Sees start name id → t'.resolve start name = some b
  /-- From elsewhere the name stands for what it did, and so does every other name. -/
  unaffected : ∀ id name b t', t.bindVariable id name b = .ok t' → ∀ start n,
    (n = name → ¬ t.Sees start name id) → t'.resolve start n = t.resolve start n
  /-- A scope is opened, then whatever is done touches that scope and those opened since, which
      have larger numbers, and then all of them are closed, the newest first. -/
  restored : ∀ (parent : ScopeId) (inner : List Operation) (t' : Scopes) (ids : List ScopeId),
    t.Live parent → Run (t.openScope parent) inner t' →
    (∀ o ∈ inner, t.nextScope.index ≤ o.scope.index) →
    (ids.Pairwise fun a b => b.index ≤ a.index) → (∀ id ∈ ids, t.nextScope.index ≤ id.index) →
    (∀ id, t'.Live id → t.nextScope.index ≤ id.index → id ∈ ids) →
    ids.foldl Scopes.close t' = t

theorem IsTree.lexical {t : Scopes} (tree : t.IsTree) : t.Lexical where
  tree := tree
  nearest := fun id name live => by
    obtain ⟨chain, way⟩ := tree.exists_chain live
    exact ⟨chain, way, way.length_le tree, way.resolve tree⟩
  dead := fun _ _ dead => resolveWithin_of_dead dead _
  refusedVariable := fun _ _ _ _ _ _ _ _ refused => eq_of_bindVariable_error refused
  refusedFunction := fun _ _ _ _ _ _ _ _ refused => eq_of_bindFunction_error refused
  bound := fun _ _ _ _ bound _ sees => resolve_bound tree bound sees
  unaffected := fun _ _ _ _ bound _ _ other => resolve_bound_other tree bound other
  restored := fun parent _ _ _ _ run inside newestFirst above all =>
    have extended := (Extends.openScope t parent).run tree.root.1 run inside
    extended.closed tree.root.1 newestFirst above all

/-- However scopes were opened, closed and declared in, they are nested as they should be. -/
theorem lexical_after_run {ops : List Operation} {t : Scopes} (run : Run .start ops t) :
    t.Lexical :=
  run.isTree.lexical

/-- The storage of `x`, and of a second variable of that name. -/
def outerX : Binding := ⟨.global "x" (.ptr .i32), none⟩

def innerX : Binding := ⟨.global "x.1" (.ptr .i32), none⟩

/-- The name is bound at the root and in a scope inside, with an empty scope in that. -/
def shadowed : Scopes :=
  ⟨[⟨none, [("x", outerX)]⟩, ⟨some root, [("x", innerX)]⟩, ⟨some ⟨1⟩, []⟩], []⟩

/-- On the way there, a name is declared twice, a scope is closed that is not the newest, and a
    function is declared inside. None of this has an effect. -/
def shadowing : List Operation :=
  [.bindVariable root "x" outerX, .openScope root, .bindVariable ⟨1⟩ "x" innerX,
    .bindVariable ⟨1⟩ "x" outerX, .openScope ⟨1⟩, .close ⟨1⟩,
    .bindFunction ⟨2⟩ "puts" ⟨"puts", .i32, [.bytePtr], false⟩]

theorem lexical_shadowed :
    Run .start shadowing shadowed ∧ shadowed.resolve ⟨2⟩ "x" = some innerX ∧ shadowed.Lexical := by
  have run : Run .start shadowing shadowed :=
    .step trivial (.step rfl (.step trivial (.step trivial (.step rfl
      (.step trivial (.step trivial .done))))))
  exact ⟨run, rfl, lexical_after_run run⟩

end Pseudocode.Scopes
