import MacroScript.Hygiene
import MacroScript.MacroDef
import MacroScript.Tree

/-!
# Sessions

A session is the state that the units compiled in it share: all scopes, all
declared macros, the last color that was given out, and the trace of expansions.
Colors are numbered from one.
-/

namespace MacroScript

/-- One expansion in a trace.  Color and result are filled in when the
expansion, with everything nested in it, is done. -/
structure TraceStep where
  macroName : String
  span : Span
  input : String
  color : Option Color := none
  expansion : Option Program := none

/-- The state that units compiled together share. -/
structure Session where
  scopes : ScopeStore := {}
  macros : Registry := {}
  lastColor : Color := 0
  trace : Array TraceStep := #[]
deriving Inhabited

namespace Session

/-- Allocate an empty scope; its number is the former number of scopes. -/
def allocScope (session : Session) : Session :=
  { session with scopes := session.scopes.alloc }

/-- Give out the next color, which becomes the last one. -/
def nextColor (session : Session) : Session :=
  { session with lastColor := session.lastColor + 1 }

/-- The color of an expansion, given out on first use. -/
def claimColor (session : Session) (hygiene : Hygiene) : Color × Hygiene × Session :=
  match hygiene.color with
  | some color => (color, hygiene, session)
  | none =>
    let color := session.nextColor.lastColor
    (color, { hygiene with color := some color }, session.nextColor)

/-- Record a color decision for a name in a scope. -/
def markColor (session : Session) (scope : ScopeId) (name : String) (color : Option Color) :
    Session :=
  { session with scopes := session.scopes.markColor scope name color }

/-- Add a macro to the registry and let its name call it in a scope. -/
def declareMacro (session : Session) (scope : ScopeId) (definition : MacroDef) : Session :=
  { session with
    macros := session.macros.add definition
    scopes := session.scopes.bindMacro scope definition.name session.macros.size }

/-- Open a step of the trace; its index is the former length. -/
def beginStep (session : Session) (step : TraceStep) : Session :=
  { session with trace := session.trace.push step }

def finishStep (session : Session) (index : Nat) (color : Option Color) (expansion : Program) :
    Session :=
  { session with
    trace := session.trace.modify index fun step =>
      { step with color, expansion := some expansion } }

end Session

end MacroScript
