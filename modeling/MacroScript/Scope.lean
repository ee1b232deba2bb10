import MacroScript.Token

/-!
# Scopes

A scope records two things about names: which macro a name calls, and which
color an expansion decided for a name bound there.  Scopes live in a store and
are addressed by number, so a scope stack is a list of numbers that stays valid
while the scopes it mentions gain entries.

Look-ups walk a stack from its innermost scope outwards and stop at the first
scope that has an entry.  A color entry may record that a name keeps its
spelling; such an entry hides the colors further out.
-/

namespace MacroScript

/-- The number of a scope in its store. -/
abbrev ScopeId := Nat

/-- The number of a macro in its registry. -/
abbrev MacroId := Nat

/-- Open scopes, innermost first. -/
abbrev ScopeStack := List ScopeId

/-- What a scope says about the names bound in it. -/
structure Scope where
  macros : List (String × MacroId) := []
  colors : List (String × Option Color) := []
deriving DecidableEq, Repr, Inhabited

namespace Scope

/-- Set the entry for a key, dropping an earlier one. -/
def put {α : Type} (key : String) (value : α) (entries : List (String × α)) :
    List (String × α) :=
  (key, value) :: entries.filter (·.1 != key)

@[simp]
theorem lookup_put_self {α : Type} (key : String) (value : α) (entries : List (String × α)) :
    (put key value entries).lookup key = some value := by
  simp [put]

theorem lookup_put_of_ne {α : Type} {key other : String} (different : other ≠ key)
    (value : α) (entries : List (String × α)) :
    (put key value entries).lookup other = entries.lookup other := by
  have notKey : (other == key) = false := by simpa using different
  simp only [put, List.lookup_cons, notKey]
  induction entries with
  | nil => rfl
  | cons entry rest ih =>
    rcases entry with ⟨name, stored⟩
    by_cases same : name = key
    · subst same
      simpa [List.lookup_cons, notKey] using ih
    · by_cases found : other = name
      · subst found
        simp [same]
      · have notName : (other == name) = false := by simpa using found
        simpa [List.lookup_cons, same, notName] using ih

end Scope

/-- All scopes of a session, addressed by number. -/
structure ScopeStore where
  scopes : Array Scope := #[]
deriving Inhabited

namespace ScopeStore

def size (store : ScopeStore) : Nat :=
  store.scopes.size

def get? (store : ScopeStore) (id : ScopeId) : Option Scope :=
  store.scopes[id]?

/-- Add an empty scope; its number is the former size. -/
def alloc (store : ScopeStore) : ScopeStore :=
  ⟨store.scopes.push {}⟩

/-- Change one scope; a number without a scope changes nothing. -/
def modify (store : ScopeStore) (id : ScopeId) (change : Scope → Scope) : ScopeStore :=
  ⟨store.scopes.modify id change⟩

/-- Let a name call a macro in the given scope. -/
def bindMacro (store : ScopeStore) (id : ScopeId) (name : String) (target : MacroId) :
    ScopeStore :=
  store.modify id fun scope => { scope with macros := Scope.put name target scope.macros }

/-- Record the color decided for a name in the given scope. -/
def markColor (store : ScopeStore) (id : ScopeId) (name : String) (color : Option Color) :
    ScopeStore :=
  store.modify id fun scope => { scope with colors := Scope.put name color scope.colors }

/-- The macro that a name calls, seen from a stack. -/
def findMacro? (store : ScopeStore) (stack : ScopeStack) (name : String) : Option MacroId :=
  stack.findSome? fun id => (store.get? id).bind fun scope => scope.macros.lookup name

/-- The color of a name, seen from a stack. -/
def findColor? (store : ScopeStore) (stack : ScopeStack) (name : String) : Option Color :=
  (stack.findSome? fun id => (store.get? id).bind fun scope => scope.colors.lookup name).join

@[simp]
theorem size_alloc (store : ScopeStore) : store.alloc.size = store.size + 1 := by
  simp [alloc, size]

@[simp]
theorem size_modify (store : ScopeStore) (id : ScopeId) (change : Scope → Scope) :
    (store.modify id change).size = store.size := by
  simp [modify, size]

end ScopeStore

end MacroScript
