import MacroScript.Fault
import MacroScript.Scope

/-!
# Hygiene of one expansion

The tokens that replace a macro call come from two places: the macro's own body
and the arguments of the call.  An expansion is read with a record of the origin
of every token, and each name is resolved against the scopes of the place its
token came from.

Only names bound by the body are renamed.  They all receive the color of the
expansion, which is chosen when the first of them is met.
-/

namespace MacroScript

/-- Where a token of an expansion was written. -/
inductive Origin where
  | body
  | invocation
deriving DecidableEq, Repr

/-- The origins of an expansion's tokens, the scopes of both places, and the
color of the expansion once it has one. -/
structure Hygiene where
  origins : Array Origin
  declarationScopes : ScopeStack
  invocationScopes : ScopeStack
  color : Option Color := none

namespace Hygiene

def origin (hygiene : Hygiene) (index : Nat) : Except Fault Origin :=
  match hygiene.origins[index]? with
  | some origin => .ok origin
  | none => .error { cause := .internal (.untraced index) }

def scopes (hygiene : Hygiene) : Origin → ScopeStack
  | .body => hygiene.declarationScopes
  | .invocation => hygiene.invocationScopes

end Hygiene

end MacroScript
