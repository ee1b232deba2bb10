import MacroScript.Matching
import MacroScript.Transcript

/-!
# Expanding one call

To expand a call, the rules of its macro are matched against the arguments, the
template of the chosen rule is transcribed, and the transcript is read as a
program.  The transcript is read on top of the scopes of the macro's declaration,
and with the origins of its tokens, so that names mean what they meant where they
were written.

Calls in the result are left for later.
-/

namespace MacroScript

/-- The result of expanding one call. -/
structure Expansion where
  program : Program
  /-- The color of the names bound by the template, when it binds any. -/
  color : Option Color
  rule : Nat

namespace Expansion

/-- Read a transcript as a program.  A complaint about it also names the call. -/
def readTranscript (definition : MacroDef) (call : Invocation)
    (transcript : List Transcript.Placed) : SessionM (Program × Option Color) := fun session =>
  let hygiene : Hygiene :=
    { origins := (transcript.map Prod.snd).toArray
      declarationScopes := definition.scopes
      invocationScopes := call.scopes }
  match Session.read Grammar.program (transcript.map Prod.fst) definition.scopes (some hygiene)
      session with
  | .ok (program, state) after => .ok (program, state.assignedColor) after
  | .error fault after => .error (fault.whileExpanding definition.name call.span) after

end Expansion

def definitionOf (call : Invocation) : SessionM MacroDef := do
  match (← get).macros.get? call.macroId with
  | some definition => return definition
  | none => throw (.internal call.span (.unregistered call.name.name))

def Matching.matchCall (call : Invocation) : SessionM (Nat × Rule × Bindings) := do
  let definition ← definitionOf call
  firstMatch call definition.name 0 definition.rules

def expand (call : Invocation) : SessionM Expansion := do
  let definition ← definitionOf call
  let (number, rule, bindings) ← Matching.matchCall call
  match transcribe definition.name bindings rule.template with
  | .error fault => throw fault
  | .ok transcript =>
    let (program, color) ← Expansion.readTranscript definition call transcript
    return { program, color, rule := number }

end MacroScript
