import MacroScript.Grammar.Reading
import MacroScript.Matching.Binding

/-!
# Matching arguments against patterns

The rules of a macro are tried in order.  A rule applies when its pattern matches
all argument tokens, and the first rule that applies is chosen.

A group repeats as long as its content matches; between two rounds stands the
separator, and a separator that is not followed by another round is left
unread.  A capture of an expression or a statement runs the parser on the
remaining tokens and takes what the parser read.  Captured expressions are put in
parentheses, so that they stay together wherever they are used.

A variable that occurs twice is a fault of the macro and ends the search.
-/

namespace MacroScript

namespace Matching

/-- The tokens that are left and the variables bound so far. -/
abbrev Progress := List Token × Bindings

/-! ## Captures -/

/-- The parser behind a capture that is read rather than compared. -/
def captureParser : CaptureKind → Grammar.Parser Unit
  | .stmt => Grammar.withRules fun rules => do let _ ← rules.statement
  | _ => Grammar.withRules fun rules => do let _ ← rules.assignment

/-- The tokens that stand for captured ones.  The first of them places the
parentheses around an expression. -/
def wrap (kind : CaptureKind) (first : Token) (tokens : List Token) : List Token :=
  match kind with
  | .expr => .synthetic "(" first :: tokens ++ [.synthetic ")" first]
  | _ => tokens

/-- Capture what the parser reads from the tokens, if it reads anything.  The
parser sees the macros that are visible from the call; what it leaves in the
session stays there. -/
def captureParsed (call : Invocation) (kind : CaptureKind) (first : Token)
    (tokens : List Token) : SessionM (Option (List Token × List Token)) := fun session =>
  match Session.read (captureParser kind) tokens call.scopes none session with
  | .error _ after => .ok none after
  | .ok (_, state) after =>
    let consumed := state.cursor.index
    if consumed = 0 then .ok none after
    else .ok (some (wrap kind first (tokens.take consumed), tokens.drop consumed)) after

/-- Capture a fragment of the given kind from the front of the tokens.  The
answer holds the captured tokens and the ones that are left. -/
def capture (call : Invocation) (kind : CaptureKind) :
    List Token → SessionM (Option (List Token × List Token))
  | [] => return none
  | first :: rest =>
    match kind with
    | .literal => return if first.isLiteral then some ([first], rest) else none
    | .ident => return if first.isName then some ([first], rest) else none
    | .expr | .stmt => captureParsed call kind first (first :: rest)

/-! ## Repetitions -/

/-- Match rounds of a group, with the separator in between, and answer with the
bindings of every round and the tokens that are left. -/
def iterate (matchRound : List Token → SessionM (Option Progress)) (separator : Token) :
    Nat → List Token → SessionM (List Bindings × List Token)
  | 0, tokens => return ([], tokens)
  | bound + 1, tokens => do
    match ← matchRound tokens with
    | none => return ([], tokens)
    | some ([], bindings) => return ([bindings], [])
    | some (next :: rest, bindings) =>
      if next.sameAs separator then
        match ← iterate matchRound separator bound rest with
        | ([], _) => return ([bindings], next :: rest)
        | (later, left) => return (bindings :: later, left)
      else
        return ([bindings], next :: rest)

def duplicate (macroName name : String) (span : Span) : Fault :=
  .expansion macroName span (.duplicateBinding name)

/-- Bind the variables of a group to what its rounds captured. -/
def bindRounds (macroName : String) (span : Span) (iterations : List Bindings) :
    List (String × Nat) → Bindings → Except Fault Bindings
  | [], bindings => .ok bindings
  | (name, depth) :: rest, bindings =>
    match bindings.bind? name ⟨depth, .repeated (Bindings.rounds iterations name)⟩ with
    | some extended => bindRounds macroName span iterations rest extended
    | none => .error (duplicate macroName name span)

/-! ## Patterns -/

mutual

/-- Match one pattern element that stands inside `depth` groups. -/
def matchElement (call : Invocation) (macroName : String) (depth : Nat) :
    PatternElement → Progress → SessionM (Option Progress)
  | .token expected, (tokens, bindings) =>
    match tokens with
    | [] => return none
    | token :: rest => return if token.sameAs expected then some (rest, bindings) else none
  | .capture name kind span, (tokens, bindings) => do
    match ← capture call kind tokens with
    | none => return none
    | some (captured, rest) =>
      match bindings.bind? name ⟨depth, .tokens captured⟩ with
      | some extended => return some (rest, extended)
      | none => throw (duplicate macroName name span)
  | .repetition content separator span, (tokens, bindings) => do
    let (iterations, rest) ←
      iterate (fun left => matchElements call macroName (depth + 1) content (left, []))
        separator (tokens.length + 1) tokens
    let captures := Pattern.captures (depth + 1) content
    match bindRounds macroName span iterations captures bindings with
    | .ok extended => return some (rest, extended)
    | .error fault => throw fault

/-- Match pattern elements one after the other. -/
def matchElements (call : Invocation) (macroName : String) (depth : Nat) :
    List PatternElement → Progress → SessionM (Option Progress)
  | [], progress => return some progress
  | element :: rest, progress => do
    match ← matchElement call macroName depth element progress with
    | some next => matchElements call macroName depth rest next
    | none => return none

end

/-! ## Rules -/

/-- Match a whole pattern against all argument tokens of a call. -/
def matchPattern (call : Invocation) (macroName : String) (pattern : Pattern) :
    SessionM (Option Bindings) := do
  match ← matchElements call macroName 0 pattern (call.tokens, []) with
  | some ([], bindings) => return some bindings
  | _ => return none

/-- The number of the first rule that applies, counted from `number`, with the
rule and its bindings. -/
def firstMatch (call : Invocation) (macroName : String) :
    (number : Nat) → List Rule → SessionM (Nat × Rule × Bindings)
  | _, [] => throw (.expansion macroName call.span .noMatch)
  | number, rule :: rest => do
    match ← matchPattern call macroName rule.pattern with
    | some bindings => return (number, rule, bindings)
    | none => firstMatch call macroName (number + 1) rest

end Matching

end MacroScript
