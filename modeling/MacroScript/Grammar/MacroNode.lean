import MacroScript.Grammar.Naming

/-!
# Macro declarations and calls

A declaration reads `macro name` followed by rules between braces; a rule is a
pattern in parentheses, an arrow, and a template in braces.  Templates and the
arguments of calls are taken as raw balanced token runs.

The name of a macro counts as a binding of its scope but is never colored.  The
macro becomes visible only after its whole declaration has been read.
-/

namespace MacroScript.Grammar

/-! ## Patterns -/

/-- Read one pattern element that is not a bracket.  The reader of the contents
of a group is passed in. -/
def patternElement (content : Parser Pattern) : Parser PatternElement := do
  let token ← peek
  let following ← peekAt 1
  if token.isWord "$" && following.isPunct "(" then
    let _ ← advance
    let _ ← advance
    let inner ← content
    let _ ← expectPunct ")"
    let separator ← advance
    if separator.isEnd then
      malformed separator.span .missingSeparator
    else
      return .repetition inner separator (← finishSpan token.span)
  else
    match token.captureName? with
    | some name => do
      let _ ← advance
      let _ ← expectPunct ":"
      let word ← advance
      match if word.isName then CaptureKind.ofWord? word.text else none with
      | some kind => return .capture name kind token.span
      | none => malformed word.span (.captureKind word.display)
    | none => return .token (← advance)

/-- Read pattern elements up to `closer`, which is not read.  The brackets of
`inner` are open inside the pattern, innermost first; brackets stand for
themselves and have to be balanced. -/
def patternElements : Nat → (closer : String) → (inner : List String) → Parser Pattern
  | 0, _, _ => do malformed (← peek).span .endInPattern
  | bound + 1, closer, inner => do
    let token ← peek
    if token.isEnd then
      malformed token.span .endInPattern
    else if inner.isEmpty && token.isPunct closer then
      return []
    else if inner.head?.any token.isPunct then
      let _ ← advance
      let rest ← patternElements bound closer inner.tail
      return .token token :: rest
    else
      match token.closer? with
      | some opened => do
        let _ ← advance
        let rest ← patternElements bound closer (opened :: inner)
        return .token token :: rest
      | none =>
        if token.isCloser then
          malformed token.span (.unexpectedToken token.display)
        else
          let first ← patternElement (patternElements bound ")" [])
          let rest ← patternElements bound closer inner
          return first :: rest

/-- Read a pattern up to its closing parenthesis. -/
def pattern : Parser Pattern := do
  patternElements (← remaining) ")" []

/-! ## Declarations -/

def rule : Parser Rule := do
  let start ← expectPunct "("
  let elements ← pattern
  let _ ← expectPunct ")"
  let _ ← expectPunct "=>"
  let _ ← expectPunct "\x7b"
  let template ← takeBalanced "\x7d"
  return { pattern := elements, template, span := ← finishSpan start.span }

/-- Read rules up to the closing brace, which is not read. -/
def rulesOf (name : String) : Nat → Parser (List Rule)
  | 0 => return []
  | bound + 1 => do
    if ← atPunct "\x7d" then
      return []
    else
      let token ← peek
      if token.isEnd then
        malformed token.span (.endInMacro name)
      else
        let first ← rule
        let rest ← rulesOf name bound
        return first :: rest

/-- Whether a macro declaration is next.  The plain language has none. -/
def atMacroDeclaration : Parser Bool := fun state =>
  .ok
    (state.context.isSome && state.cursor.peek.isWord "macro" && (state.cursor.peekAt 1).isName)
    state

def changeContext (change : Context → Context) : Parser Unit :=
  modify fun state => { state with context := state.context.map change }

/-- Add a macro to the session and make it visible in the innermost scope. -/
def Context.declare (context : Context) (name : String) (rules : List Rule) (span : Span) :
    Context :=
  { context with
    session :=
      context.session.declareMacro (context.scopes.headD 0)
        { name, rules, scopes := context.scopes, span } }

def macroDeclaration : Parser Stmt := do
  let start ← advance
  let nameToken ← advance
  let name : Identifier := { name := nameToken.text, span := nameToken.span }
  changeContext fun context => context.mark context.scopes name.name none
  let _ ← expectPunct "\x7b"
  let rules ← rulesOf name.name ((← remaining) + 1)
  let _ ← advance
  let span ← finishSpan start.span
  if rules.isEmpty then
    malformed span (.noRules name.name)
  else
    let macroId ← withContext 0 fun context _ => .ok context.session.macros.size
    changeContext fun context => context.declare name.name rules span
    return .macroDeclaration { name, macroId, span }

/-! ## Calls -/

/-- Let the names among captured tokens carry the color that they have here.
The tokens start at the given index. -/
def Context.fixColors (context : Context) (cursor : Cursor) :
    (index : Nat) → List Token → Except Fault (List Token)
  | _, [] => .ok []
  | index, token :: rest => do
    if token.isName && token.captureName?.isNone then
      let color ← context.tokenColor cursor index token.text
      let fixed ← context.fixColors cursor (index + 1) rest
      .ok ({ token with color } :: fixed)
    else
      let fixed ← context.fixColors cursor (index + 1) rest
      .ok (token :: fixed)

/-- Fix the colors of captured tokens; outside of an expansion they have
none to fix. -/
def Context.captureColors (context : Context) (cursor : Cursor) (index : Nat)
    (tokens : List Token) : Except Fault (List Token) :=
  match context.hygiene with
  | none => .ok tokens
  | some _ => context.fixColors cursor index tokens

def macroCall (macroId : MacroId) : Parser Expr := do
  let nameToken ← advance
  let _ ← advance
  let first ← index
  let captured ← takeBalanced ")"
  let tokens ← withContext captured fun context cursor =>
    context.captureColors cursor first captured
  let span ← finishSpan nameToken.span
  let scopes ← withContext [] fun context _ => .ok context.scopes
  return .invocation
    { name := { name := nameToken.text, span := nameToken.span }, macroId, tokens, scopes, span }

/-- Read a name in expression position: a call of a visible macro, or a
reference. -/
def nameExpression : Parser Expr := do
  let place ← index
  let token ← peek
  let following ← peekAt 1
  let callee ←
    if token.isName && following.isPunct "(" then
      withContext none fun context _ => context.findMacro? place token.text
    else
      pure none
  match callee with
  | some macroId => macroCall macroId
  | none => return .identifier (← referenceName)

end MacroScript.Grammar
