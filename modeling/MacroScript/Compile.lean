import MacroScript.Diagnostic
import MacroScript.Expansion
import MacroScript.Printing
import MacroScript.Splice

/-!
# Compiling

Compiling a unit reads it, expands every macro call and prints what is left.  The
expansion of a call is itself compiled before it is spliced in, so calls that an
expansion produces are expanded too.

A chain of expansions, each produced by the one before, may be endless.  Its
length is bounded by `expansionLimit`, so that compiling is a total function.
-/

namespace MacroScript

structure CompileOptions where
  /-- The name of the source in reports and in the source map. -/
  sourceName : String := "input.js"
  /-- Whether expansions are recorded in the session's trace. -/
  recordTrace : Bool := false
  emitMap : Bool := true
  includeContent : Bool := false

/-- The greatest length of a chain of expansions.  Every expansion of a chain is
held in memory until the ones it produced are done, and no machine holds this
many, so a chain that ends is never cut. -/
def expansionLimit : Nat :=
  4294967296

namespace Compile

/-- Open a step of the trace for a call, if expansions are recorded. -/
def beginStep (recordTrace : Bool) (call : Invocation) : SessionM (Option Nat) := do
  if recordTrace then
    let number := (← get).trace.size
    modify (·.beginStep
      { macroName := call.name.name, span := call.span, input := Token.render call.tokens })
    return some number
  else
    return none

def finishStep (step : Option Nat) (color : Option Color) (program : Program) : SessionM Unit :=
  match step with
  | some number => modify (·.finishStep number color program)
  | none => return ()

/-- Expand a call and everything its expansion calls, to the given depth. -/
def expandWithin (recordTrace : Bool) : (depth : Nat) → Splice.Handler
  | 0, call => throw (.expansion call.name.name call.span .tooDeep)
  | depth + 1, call => do
    let step ← beginStep recordTrace call
    let expansion ← expand call
    let program ← Splice.spliceProgram (expandWithin recordTrace depth) expansion.program
    finishStep step expansion.color program
    return program

end Compile

def compile (options : CompileOptions) (program : Program) : SessionM Program :=
  Splice.spliceProgram (Compile.expandWithin options.recordTrace expansionLimit) program

/-- Read a unit and expand every call in it. -/
def expandSource (options : CompileOptions) (source : String) : SessionM Program := do
  let program ← Session.readProgram source
  compile options program

/-- Print a program as the options say.  The source text is only used for the
source map. -/
def generate (options : CompileOptions) (program : Program) (source : Option String) :
    Except Fault Printed :=
  print program
    { sourceName := options.sourceName
      emitMap := options.emitMap
      sourcesContent := if options.includeContent then source else none }

/-- The text of the expansion in a step of the trace, once the step is done. -/
def TraceStep.code? (step : TraceStep) : Option String :=
  step.expansion.bind fun program => ((print program {}).toOption.map Printed.code)

/-- Read, expand and print a unit in the session. -/
def compileUnit (options : CompileOptions) (source : String) : SessionM Printed := do
  let program ← expandSource options source
  match generate options program (some source) with
  | .ok printed => return printed
  | .error fault => throw fault

/-- Compile a unit on its own.  A fault is reported with the source attached. -/
def compileSource (options : CompileOptions) (source : String) : Except Diagnostic Printed :=
  match compileUnit options source {} with
  | .ok printed _ => .ok printed
  | .error fault _ =>
    .error ((Diagnostic.ofFault fault).attachSource ⟨options.sourceName, source⟩)

end MacroScript
