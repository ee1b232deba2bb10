import MacroScript.Tree

/-!
# The leaves of a tree

The leaves of a tree are what hygiene and expansion are about: the names that
introduce bindings, the names that refer to them, the macro calls and the macro
declarations.  They are listed from left to right, which is the order in which a
parser meets them and in which splicing visits the calls.

Member names, property keys and literals are no leaves: nothing ever renames or
replaces them.
-/

namespace MacroScript

deriving instance DecidableEq for MacroStmt, Invocation

/-- What hygiene and expansion see of a tree. -/
inductive Leaf where
  /-- A name that introduces a binding. -/
  | binding (identifier : Identifier)
  /-- A name that refers to a binding. -/
  | reference (identifier : Identifier)
  /-- A macro call. -/
  | call (invocation : Invocation)
  /-- A macro declaration. -/
  | declaration (declaration : MacroStmt)
deriving DecidableEq

namespace Leaf

/-- Whether a leaf stands for a node that expansion removes. -/
def isMacro : Leaf → Bool
  | .call _ | .declaration _ => true
  | .binding _ | .reference _ => false

/-- The name that a leaf stands for. -/
def name? : Leaf → Option Identifier
  | .binding identifier => some identifier
  | .reference identifier => some identifier
  | .call _ => none
  | .declaration _ => none

/-- The call that a leaf stands for. -/
def call? : Leaf → Option Invocation
  | .call invocation => some invocation
  | _ => none

/-- The calls among leaves. -/
def calls (leaves : List Leaf) : List Invocation :=
  leaves.filterMap call?

/-- Names are no calls. -/
theorem calls_cons_of_not_macro {leaf : Leaf} (isName : leaf.isMacro = false)
    (leaves : List Leaf) : calls (leaf :: leaves) = calls leaves := by
  cases leaf with
  | call invocation => cases isName
  | binding identifier
  | reference identifier => rfl
  | declaration declared => cases isName

theorem mem_calls {leaves : List Leaf} {invocation : Invocation} :
    invocation ∈ calls leaves ↔ .call invocation ∈ leaves := by
  unfold calls
  rw [List.mem_filterMap]
  constructor
  · rintro ⟨leaf, mem, found⟩
    cases leaf with
    | call other => exact Option.some.inj found ▸ mem
    | binding identifier
    | reference identifier
    | declaration declared => cases found
  · intro mem
    exact ⟨.call invocation, mem, rfl⟩

end Leaf

/-! ## Trees without macro nodes -/

/-- No leaf of the list stands for a macro declaration or a macro call. -/
def MacroFree (leaves : List Leaf) : Prop :=
  ∀ leaf ∈ leaves, leaf.isMacro = false

namespace MacroFree

@[simp]
theorem nil : MacroFree [] := by
  simp [MacroFree]

@[simp]
theorem cons_iff (leaf : Leaf) (rest : List Leaf) :
    MacroFree (leaf :: rest) ↔ leaf.isMacro = false ∧ MacroFree rest := by
  simp [MacroFree]

@[simp]
theorem append_iff (first second : List Leaf) :
    MacroFree (first ++ second) ↔ MacroFree first ∧ MacroFree second := by
  simp [MacroFree, or_imp, forall_and]

end MacroFree

end MacroScript
