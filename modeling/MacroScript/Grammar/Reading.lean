import MacroScript.Grammar.Statement
import MacroScript.Token.Scan

/-!
# Reading programs

`parse` reads a program of the plain language.  `Session.read` runs a parser that
knows macros: it opens a scope of its own on top of the given ones, so nothing it
declares leaks into them, and hands the session back whether it succeeded or
not.
-/

namespace MacroScript

/-- A computation that changes a session and yields a value or a fault. -/
abbrev SessionM := EStateM Fault Session

/-- Read a program of the plain language. -/
def parse (source : String) : Except Fault Program := do
  let tokens ← tokenize source
  match Grammar.program { cursor := .ofTokens tokens } with
  | .ok program _ => .ok program
  | .error fault _ => .error fault

namespace Grammar.State

/-- The session of a parser; the plain language has an empty one. -/
def session (state : State) : Session :=
  (state.context.map Context.session).getD {}

/-- The color that was given to the bindings of an expansion. -/
def assignedColor (state : State) : Option Color :=
  (state.context.bind Context.hygiene).bind Hygiene.color

end Grammar.State

namespace Session

/-- The state in which a parser that knows macros starts. -/
def readerState (session : Session) (tokens : List Token) (outer : ScopeStack)
    (hygiene : Option Hygiene) : Grammar.State :=
  let scope := session.scopes.size
  { cursor := .ofTokens tokens
    context := some { session := session.allocScope, scopes := scope :: outer, hygiene } }

/-- Run a parser on tokens, inside a new scope on top of the given ones.  The
final state is part of the answer. -/
def read {α : Type} (parser : Grammar.Parser α) (tokens : List Token) (outer : ScopeStack)
    (hygiene : Option Hygiene) : SessionM (α × Grammar.State) := fun session =>
  match parser (session.readerState tokens outer hygiene) with
  | .ok value state => .ok (value, state) state.session
  | .error fault state => .error fault state.session

/-- Read a program with macros as a unit of its own. -/
def readProgram (source : String) : SessionM Program := do
  match tokenize source with
  | .error fault => throw fault
  | .ok tokens =>
    let (program, _) ← read Grammar.program tokens [] none
    return program

end Session

end MacroScript
