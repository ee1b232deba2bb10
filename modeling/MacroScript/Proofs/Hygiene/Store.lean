import MacroScript.Scope
import Mathlib.Tactic.Common

/-!
# Decisions on colors

The store of scopes is changed by recording decisions: in this scope, this name has
this color.  The decisions of an expansion can be replayed on the store it began with.

Scopes are allocated in order, so the scopes that existed before some point are those
below a floor.  Two stores that agree below the floor give the same answers to every
stack of scopes below it.
-/

namespace MacroScript

/-- A color recorded for a name in a scope. -/
structure Decision where
  scope : ScopeId
  name : String
  color : Option Color
deriving DecidableEq, Repr

namespace ScopeStore

variable {id other : ScopeId} {store : ScopeStore} {scope : Scope} {name : String}
  {decision : Decision}

/-- Record a decision. -/
def record (store : ScopeStore) (decision : Decision) : ScopeStore :=
  store.markColor decision.scope decision.name decision.color

/-- Record decisions one after the other. -/
def replay (store : ScopeStore) (decisions : List Decision) : ScopeStore :=
  decisions.foldl record store

@[simp]
theorem replay_nil (store : ScopeStore) : store.replay [] = store :=
  rfl

@[simp]
theorem replay_cons (store : ScopeStore) (decision : Decision) (rest : List Decision) :
    store.replay (decision :: rest) = (store.record decision).replay rest :=
  rfl

@[simp]
theorem replay_append (store : ScopeStore) (first second : List Decision) :
    store.replay (first ++ second) = (store.replay first).replay second := by
  simp [replay]

/-! ## Single scopes -/

theorem get?_modify (store : ScopeStore) (id : ScopeId) (change : Scope → Scope)
    (other : ScopeId) :
    (store.modify id change).get? other =
      if id = other then (store.get? other).map change else store.get? other := by
  simp only [modify, get?, Array.getElem?_modify]

theorem get?_modify_of_ne (different : id ≠ other) (store : ScopeStore) (change : Scope → Scope) :
    (store.modify id change).get? other = store.get? other := by
  rw [get?_modify, if_neg different]

theorem get?_alloc_of_lt (inside : id < store.size) : store.alloc.get? id = store.get? id := by
  have notLast : id ≠ store.scopes.size := Nat.ne_of_lt inside
  simp [alloc, get?, Array.getElem?_push, notLast]

/-- A scope after an allocation was there before, or is the new one, which is empty. -/
theorem known_of_alloc (found : store.alloc.get? id = some scope) :
    store.get? id = some scope ∨ id = store.size ∧ scope = {} := by
  rw [alloc, get?, Array.getElem?_push] at found
  split at found
  case isTrue last => exact .inr ⟨last, (Option.some.inj found).symm⟩
  case isFalse => exact .inl found

/-- A scope after a change is a former one, or a former one changed. -/
theorem known_of_modify {change : Scope → Scope}
    (found : (store.modify id change).get? other = some scope) :
    ∃ former, store.get? other = some former ∧
      (scope = former ∨ id = other ∧ scope = change former) := by
  rw [get?_modify] at found
  split at found
  case isTrue same =>
    obtain ⟨former, formerFound, changed⟩ := Option.map_eq_some_iff.mp found
    exact ⟨former, formerFound, .inr ⟨same, changed.symm⟩⟩
  case isFalse => exact ⟨scope, found, .inl rfl⟩

theorem get?_isSome_of_lt (inside : id < store.size) : ∃ scope, store.get? id = some scope := by
  exact ⟨_, Array.getElem?_eq_getElem inside⟩

theorem lt_of_get?_eq_some (found : store.get? id = some scope) : id < store.size := by
  obtain ⟨inside, -⟩ := Array.getElem?_eq_some_iff.mp found
  exact inside

@[simp]
theorem size_markColor (store : ScopeStore) (id : ScopeId) (name : String)
    (color : Option Color) : (store.markColor id name color).size = store.size :=
  size_modify _ _ _

@[simp]
theorem size_bindMacro (store : ScopeStore) (id : ScopeId) (name : String) (target : MacroId) :
    (store.bindMacro id name target).size = store.size :=
  size_modify _ _ _

/-! ## Looking up a color -/

theorem findColor?_cons (store : ScopeStore) (id : ScopeId) (outer : ScopeStack)
    (name : String) :
    store.findColor? (id :: outer) name =
      match (store.get? id).bind fun scope => scope.colors.lookup name with
      | some color => color
      | none => store.findColor? outer name := by
  simp only [findColor?, List.findSome?_cons]
  cases (store.get? id).bind fun scope => scope.colors.lookup name with
  | none
  | some color => rfl

/-- A color that is found is an entry of a scope. -/
theorem mem_of_findColor? (store : ScopeStore) (stack : ScopeStack) (name : String) :
    store.findColor? stack name = none ∨
      ∃ id ∈ stack, ∃ scope, store.get? id = some scope ∧
        (name, store.findColor? stack name) ∈ scope.colors := by
  cases found : stack.findSome? fun id => (store.get? id).bind (·.colors.lookup name) with
  | none => exact .inl (congrArg Option.join found)
  | some color =>
    obtain ⟨id, mem, inScope⟩ := List.exists_of_findSome?_eq_some found
    obtain ⟨scope, known, entry⟩ := Option.bind_eq_some_iff.mp inScope
    obtain ⟨front, back, split, -⟩ := List.lookup_eq_some_iff.mp entry
    refine .inr ⟨id, mem, scope, known, ?_⟩
    rw [findColor?, found, Option.join_some, split]
    simp

/-- A macro that is found is an entry of a scope. -/
theorem mem_of_findMacro? {stack : ScopeStack} {macroId : MacroId}
    (found : store.findMacro? stack name = some macroId) :
    ∃ id ∈ stack, ∃ scope, store.get? id = some scope ∧ (name, macroId) ∈ scope.macros := by
  obtain ⟨id, mem, inScope⟩ := List.exists_of_findSome?_eq_some found
  obtain ⟨scope, known, entry⟩ := Option.bind_eq_some_iff.mp inScope
  obtain ⟨front, back, split, -⟩ := List.lookup_eq_some_iff.mp entry
  exact ⟨id, mem, scope, known, by simp [split]⟩

@[simp]
theorem size_replay (store : ScopeStore) (decisions : List Decision) :
    (store.replay decisions).size = store.size := by
  induction decisions generalizing store with
  | nil => rfl
  | cons decision rest ih => rw [replay_cons, ih, record, size_markColor]

/-- A decision on another name or in another scope does not change what a scope says. -/
theorem lookup_record_of_ne (other : ¬(decision.scope = id ∧ decision.name = name))
    (store : ScopeStore) :
    (((store.record decision).get? id).bind fun scope => scope.colors.lookup name) =
      (store.get? id).bind fun scope => scope.colors.lookup name := by
  rw [record, markColor, get?_modify]
  by_cases sameScope : decision.scope = id
  · have different : name ≠ decision.name := fun same => other ⟨sameScope, same.symm⟩
    rw [if_pos sameScope]
    cases store.get? id with
    | none => rfl
    | some scope => exact Scope.lookup_put_of_ne different _ _
  · rw [if_neg sameScope]

/-- The last decision on a name in the innermost scope of a stack is the one that is found. -/
theorem findColor?_replay_last (inside : decision.scope < store.size) (earlier : List Decision)
    {later : List Decision} (last : ∀ other ∈ later,
      ¬(other.scope = decision.scope ∧ other.name = decision.name)) (outer : ScopeStack) :
    (store.replay (earlier ++ decision :: later)).findColor? (decision.scope :: outer)
      decision.name = decision.color := by
  have kept : ∀ base : ScopeStore,
      (((base.replay later).get? decision.scope).bind
          fun scope => scope.colors.lookup decision.name) =
        (base.get? decision.scope).bind fun scope => scope.colors.lookup decision.name := by
    induction later with
    | nil => exact fun base => rfl
    | cons other rest ih =>
      intro base
      obtain ⟨here, others⟩ := List.forall_mem_cons.mp last
      rw [replay_cons, ih others, lookup_record_of_ne here]
  have recorded : decision.scope < (store.replay earlier).size := by rwa [size_replay]
  obtain ⟨scope, found⟩ := get?_isSome_of_lt recorded
  rw [replay_append, replay_cons, findColor?_cons, kept, record, markColor, get?_modify,
    if_pos rfl, found]
  simp

/-! ## Agreement below a floor -/

/-- Two stores have the same scopes below a floor. -/
def AgreeBelow (floor : Nat) (first second : ScopeStore) : Prop :=
  ∀ id < floor, first.get? id = second.get? id

namespace AgreeBelow

variable {floor : Nat} {first second third : ScopeStore} {stack : ScopeStack}

theorem refl (store : ScopeStore) : AgreeBelow floor store store :=
  fun _ _ => rfl

theorem trans (one : AgreeBelow floor first second) (two : AgreeBelow floor second third) :
    AgreeBelow floor first third :=
  fun id below => (one id below).trans (two id below)

theorem mono {lower : Nat} (le : lower ≤ floor) (agree : AgreeBelow floor first second) :
    AgreeBelow lower first second :=
  fun id below => agree id (Nat.lt_of_lt_of_le below le)

section

variable (agree : AgreeBelow floor first second)
include agree

/-- Recording the same decision keeps the agreement. -/
theorem markColor (id : ScopeId) (name : String) (color : Option Color) :
    AgreeBelow floor (first.markColor id name color) (second.markColor id name color) := by
  intro other below
  simp only [ScopeStore.markColor, get?_modify, agree other below]

theorem replay (decisions : List Decision) :
    AgreeBelow floor (first.replay decisions) (second.replay decisions) := by
  induction decisions generalizing first second with
  | nil => exact agree
  | cons decision rest ih => exact ih (agree.markColor _ _ _)

omit agree in
/-- A change at or above the floor is not seen below it. -/
theorem modify_above {id : ScopeId} (above : floor ≤ id) (store : ScopeStore)
    (change : Scope → Scope) : AgreeBelow floor (store.modify id change) store := by
  intro other below
  exact get?_modify_of_ne (Nat.ne_of_gt (Nat.lt_of_lt_of_le below above)) store change

omit agree in
theorem alloc {store : ScopeStore} (inside : floor ≤ store.size) :
    AgreeBelow floor store.alloc store := by
  intro id below
  exact get?_alloc_of_lt (Nat.lt_of_lt_of_le below inside)

/-- Stacks below the floor see the same colors. -/
theorem findColor? (below : ∀ id ∈ stack, id < floor) (name : String) :
    first.findColor? stack name = second.findColor? stack name := by
  induction stack with
  | nil => rfl
  | cons id outer ih =>
    obtain ⟨idBelow, outerBelow⟩ := List.forall_mem_cons.mp below
    rw [findColor?_cons, findColor?_cons, agree id idBelow, ih outerBelow]

/-- Stacks below the floor see the same macros. -/
theorem findMacro? (below : ∀ id ∈ stack, id < floor) (name : String) :
    first.findMacro? stack name = second.findMacro? stack name := by
  induction stack with
  | nil => rfl
  | cons id outer ih =>
    obtain ⟨idBelow, outerBelow⟩ := List.forall_mem_cons.mp below
    have rest := ih outerBelow
    simp only [ScopeStore.findMacro?] at rest ⊢
    rw [List.findSome?_cons, List.findSome?_cons, agree id idBelow, rest]

end

end AgreeBelow

end ScopeStore

end MacroScript
