import MacroScript.Compile
import MacroScript.LineDiff

/-!
# Listings

The texts that the commands print about tokens, macros and expansions.

A trace shows every expansion by its result.  From the second on, the result is
shown as the difference from the one before.
-/

namespace MacroScript.Listing

/-! ## Tokens -/

/-- A text filled up with blanks at its left. -/
def alignRight (width : Nat) (text : String) : String :=
  String.ofList (List.replicate (width - text.length) ' ') ++ text

/-- A text filled up with blanks at its right. -/
def alignLeft (width : Nat) (text : String) : String :=
  text ++ String.ofList (List.replicate (width - text.length) ' ')

/-- A line with the position, kind and text of a token. -/
def tokenLine (token : Token) : String :=
  alignRight 8 token.span.position ++ "  " ++ alignLeft 8 token.kind.label ++ token.display

def tokens (tokens : List Token) : String :=
  Text.unlines (tokens.map tokenLine)

/-! ## Macros -/

mutual

/-- A pattern element as it is written. -/
def element : PatternElement → String
  | .token token => token.text
  | .capture name kind _ => "$" ++ name ++ ":" ++ kind.word
  | .repetition content separator _ =>
    "$(" ++ " ".intercalate (elements content) ++ ")" ++ separator.text

def elements : List PatternElement → List String
  | [] => []
  | first :: rest => element first :: elements rest

end

/-- The name and position of a macro, and a line for each of its patterns. -/
def macroLines (definition : MacroDef) : List String :=
  (definition.name ++ " (" ++ definition.span.position ++ ")") ::
    definition.rules.map fun rule => "    (" ++ " ".intercalate (elements rule.pattern) ++ ")"

def macros (definitions : List MacroDef) : String :=
  Text.unlines (definitions.flatMap macroLines)

/-! ## Traces -/

def stepHeading (number : Nat) (step : TraceStep) : String :=
  let color := match step.color with
    | some color => " [color " ++ toString color ++ "]"
    | none => ""
  "--- Step " ++ toString number ++ ": " ++ step.macroName ++ "(" ++ step.input ++ ") at " ++
    step.span.position ++ color ++ " ---\n"

def difference (last code : String) : String :=
  Text.unlines ((LineDiff.diff last code).map LineDiff.Block.render)

/-- The steps behind a step with the result `last`. -/
def laterSteps (number : Nat) (last : String) : List TraceStep → String
  | [] => ""
  | step :: rest =>
    let code := step.code?.getD ""
    stepHeading number step ++ difference last code ++ "\n" ++
      laterSteps (number + 1) code rest

def trace : List TraceStep → String
  | [] => "No macro expansions.\n"
  | step :: rest =>
    let code := step.code?.getD ""
    stepHeading 0 step ++ code ++ "\n" ++ laterSteps 1 code rest

end MacroScript.Listing
