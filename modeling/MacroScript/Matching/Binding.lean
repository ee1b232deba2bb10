import MacroScript.Token

/-!
# Bindings

A match binds the variables of a pattern to fragments of the arguments.  A
fragment has one level for every repetition group around its variable: the
outermost level lists the occurrences of the outermost group, and the leaves hold
the captured tokens.

A path of occurrence numbers, outermost first, leads from a fragment to one of
its parts.
-/

namespace MacroScript

/-- Captured tokens, with one level for every repetition. -/
inductive Fragment where
  | tokens (tokens : List Token)
  | repeated (occurrences : List Fragment)
deriving Repr

namespace Fragment

/-- The part of a fragment at the end of a path. -/
def follow? : (path : List Nat) → Fragment → Option Fragment
  | [], fragment => some fragment
  | _ :: _, .tokens _ => none
  | number :: rest, .repeated occurrences => occurrences[number]?.bind (follow? rest)

/-- The number of occurrences at the outermost level. -/
def occurrences? : Fragment → Option Nat
  | .tokens _ => none
  | .repeated occurrences => some occurrences.length

def tokens? : Fragment → Option (List Token)
  | .tokens captured => some captured
  | .repeated _ => none

end Fragment

/-- What a variable is bound to, and the number of groups around it. -/
structure Binding where
  depth : Nat
  fragment : Fragment
deriving Repr

/-- The variables bound by a match, in the order in which they were bound. -/
abbrev Bindings := List (String × Binding)

namespace Bindings

def get? (bindings : Bindings) (name : String) : Option Binding :=
  bindings.lookup name

/-- Bind a variable; a variable is bound only once. -/
def bind? (bindings : Bindings) (name : String) (binding : Binding) : Option Bindings :=
  if (bindings.get? name).isSome then none else some (bindings ++ [(name, binding)])

/-- What a variable is bound to in every round of a group. -/
def rounds (iterations : List Bindings) (name : String) : List Fragment :=
  iterations.map fun iteration =>
    ((iteration.get? name).map Binding.fragment).getD (.repeated [])

end Bindings

end MacroScript
