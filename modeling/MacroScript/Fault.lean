import MacroScript.Token

/-!
# Faults

A fault says why a compile unit was rejected.  Its cause is one of three
kinds: the source is malformed, an expansion failed, or an invariant of the
compiler was broken.  The cause is data; `Cause.text` is the only place where
it is put into words.

A fault also records the place it points at, when one is known, and further
labelled places collected on the way out, such as the invocation whose
expansion was being read.
-/

namespace MacroScript

inductive FaultKind where
  | malformed
  | expansion
  | internal
deriving DecidableEq, Repr

/-- What can be wrong with source text, before any macro is applied or when an
expansion is read again. -/
inductive SourceProblem where
  | unterminatedComment
  | unterminatedString
  | unterminatedRegex
  | unexpectedCharacter (c : Char)
  | unexpectedEnd
  | unexpectedToken (found : String)
  | expected (wanted found : String)
  | newlineAfterThrow
  | loopTarget
  | missingHandler
  | multipleDefaults
  | assignmentTarget
  | updateTarget
  | endInMacro (name : String)
  | noRules (name : String)
  | endInPattern
  | missingSeparator
  | captureKind (found : String)
  | unclosed (closer : String)
  | unterminatedGroup
deriving DecidableEq, Repr

/-- What can go wrong when a macro is applied. -/
inductive ExpansionProblem where
  | noMatch
  | duplicateBinding (name : String)
  | countMismatch (first : String) (firstCount : Nat) (second : String) (secondCount : Nat)
  | noRepeatedCapture (group : String)
  | unboundCapture (name : String)
  | depthMismatch (name : String) (bound used : Nat)
  | manyStatements
  | nothing
  | statement
  | tooDeep
deriving DecidableEq, Repr

/-- Broken invariants of the compiler. -/
inductive InternalProblem where
  | unexpectedRule (name : String)
  | splicedDeclaration (name : String)
  | untraced (index : Nat)
  | unregistered (name : String)
  | noOccurrences (name : String) (path : List Nat)
  | noTokens (name : String) (path : List Nat)
  | printedDeclaration (name : String)
  | printedInvocation (name : String)
deriving DecidableEq, Repr

inductive Cause where
  | malformed (problem : SourceProblem)
  | expansion (name : String) (problem : ExpansionProblem)
  | internal (problem : InternalProblem)
deriving DecidableEq, Repr

namespace SourceProblem

def text : SourceProblem → String
  | .unterminatedComment => "Unterminated comment"
  | .unterminatedString => "Unterminated string constant"
  | .unterminatedRegex => "Unterminated regular expression"
  | .unexpectedCharacter c => "Unexpected character '" ++ c.toString ++ "'"
  | .unexpectedEnd => "Unexpected end of input"
  | .unexpectedToken found => "Unexpected token " ++ found
  | .expected wanted found => "Expected '" ++ wanted ++ "' but found " ++ found
  | .newlineAfterThrow => "Illegal newline after throw"
  | .loopTarget => "Invalid left-hand side in for loop"
  | .missingHandler => "Missing catch or finally after try"
  | .multipleDefaults => "Multiple default clauses"
  | .assignmentTarget => "Invalid assignment target"
  | .updateTarget => "Invalid update target"
  | .endInMacro name => "Unexpected end of input in macro " ++ name
  | .noRules name => "macro " ++ name ++ " declares no patterns"
  | .endInPattern => "Unexpected end of input in macro pattern"
  | .missingSeparator => "Expected a separator after repetition group"
  | .captureKind found =>
    "Unknown capture kind '" ++ found ++ "', expected literal, ident, expr or stmt"
  | .unclosed closer => "Unexpected end of input, expected '" ++ closer ++ "'"
  | .unterminatedGroup => "Unterminated repetition group in macro body"

end SourceProblem

namespace ExpansionProblem

/-- The wording of a failed application of the macro `name`. -/
def text (name : String) : ExpansionProblem → String
  | .noMatch => "no matches found for macro " ++ name
  | .duplicateBinding variableName => "duplicate binding " ++ variableName
  | .countMismatch first firstCount second secondCount =>
    "repetition count mismatch: " ++ first ++ " has " ++ toString firstCount ++
      " occurrences but " ++ second ++ " has " ++ toString secondCount
  | .noRepeatedCapture group =>
    "repetition group `$( " ++ group ++ " )` references no repeated capture"
  | .unboundCapture variableName => "unbound capture $" ++ variableName
  | .depthMismatch variableName bound used =>
    "capture $" ++ variableName ++ " is bound at repetition depth " ++ toString bound ++
      " but used at depth " ++ toString used
  | .manyStatements =>
    "macro attempted to expand multiple statements into expression position"
  | .nothing => "macro expansion yielded no expressions or statements"
  | .statement => "macro attempted to expand statement into expression position"
  | .tooDeep => "expansions are nested too deeply"

end ExpansionProblem

namespace InternalProblem

/-- A path of iteration numbers in brackets. -/
def pathText (path : List Nat) : String :=
  "[" ++ ", ".intercalate (path.map toString) ++ "]"

def text : InternalProblem → String
  | .unexpectedRule name => "lexer produced unexpected rule " ++ name
  | .splicedDeclaration name => "macro declaration " ++ name ++ " reached statement compilation"
  | .untraced index =>
    "identifier at token " ++ toString index ++
      " cannot be traced to the macro body or the invocation"
  | .unregistered name => "macro " ++ name ++ " resolved to an unregistered declaration"
  | .noOccurrences name path => "capture " ++ name ++ " has no occurrences at " ++ pathText path
  | .noTokens name path => "capture " ++ name ++ " has no tokens at " ++ pathText path
  | .printedDeclaration name => "macro declaration " ++ name ++ " reached code generation"
  | .printedInvocation name => "macro invocation " ++ name ++ " reached code generation"

end InternalProblem

namespace Cause

def kind : Cause → FaultKind
  | .malformed _ => .malformed
  | .expansion _ _ => .expansion
  | .internal _ => .internal

def macroName? : Cause → Option String
  | .expansion name _ => some name
  | _ => none

def text : Cause → String
  | .malformed problem => problem.text
  | .expansion name problem => problem.text name
  | .internal problem => problem.text

end Cause

/-- A further place that helps to understand a fault. -/
structure Note where
  label : String
  span : Span
deriving DecidableEq, Repr

/-- Why a compile unit was rejected, and where. -/
structure Fault where
  cause : Cause
  span : Option Span := none
  notes : List Note := []
deriving DecidableEq, Repr

namespace Fault

def malformed (span : Span) (problem : SourceProblem) : Fault :=
  { cause := .malformed problem, span := some span }

/-- A failed application of the macro `name` at a known place. -/
def expansion (name : String) (span : Span) (problem : ExpansionProblem) : Fault :=
  { cause := .expansion name problem, span := some span }

def internal (span : Span) (problem : InternalProblem) : Fault :=
  { cause := .internal problem, span := some span }

/-- The complaint about a token that cannot stand where it does. -/
def unexpected (token : Token) : Fault :=
  malformed token.span
    (if token.isEnd then .unexpectedEnd else .unexpectedToken token.display)

/-- A problem with source text found while an expansion was read also names the
expansion; other faults are left alone. -/
def whileExpanding (fault : Fault) (name : String) (span : Span) : Fault :=
  match fault.cause with
  | .malformed _ =>
    { fault with notes := fault.notes ++ [⟨"while expanding " ++ name, span⟩] }
  | _ => fault

end Fault

end MacroScript
