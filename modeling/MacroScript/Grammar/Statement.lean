import MacroScript.Grammar.Expression

/-!
# Statements

The rules for statements.  The first token decides which rule applies; a
statement that begins with no word or mark of its own is an expression.
-/

namespace MacroScript.Grammar

def expressionStatement (lower : Rules) : Parser Stmt := do
  let start := (← peek).span
  let value ← expression lower
  endStatement
  return .expression value (← finishSpan start)

/-! ## Declarations -/

/-- Whether the word `let` stands here as the beginning of a declaration: a name
must follow it. -/
def atLetDeclaration (cursor : Cursor) : Bool :=
  cursor.peek.isWord "let" && (cursor.peekAt 1).isName

def declarator (lower : Rules) : Parser (Declarator Expr) := do
  let start := (← peek).span
  let id ← bindingName
  let init ← if ← eatPunct "=" then some <$> lower.assignment else pure none
  return { id, init, span := ← finishSpan start }

def declarationKind (token : Token) : Parser VarKind :=
  match VarKind.ofWord? token.text with
  | some kind => return kind
  | none => malformed token.span (.unexpectedToken token.display)

/-- Read a declaration without the end of its statement. -/
def declaration (lower : Rules) : Parser (Declaration Expr) := do
  let word ← advance
  let kind ← declarationKind word
  let declarators ← commaSequence (declarator lower) ((← remaining) + 1)
  return { kind, declarators, span := ← finishSpan word.span }

def declarationStatement (lower : Rules) : Parser Stmt := do
  let declared ← declaration lower
  endStatement
  return .declaration { declared with span := ← finishSpan declared.span }

/-! ## Simple statements -/

/-- Read a return statement.  Its argument must begin on the same line. -/
def returnStatement (lower : Rules) : Parser Stmt := do
  let start ← advance
  let next ← peek
  let argument ←
    if next.isPunct ";" || next.isPunct "\x7d" || next.isEnd || next.newlineBefore then
      pure none
    else
      some <$> lower.expression
  endStatement
  return .returns argument (← finishSpan start.span)

/-- Read a jump out of or to the next round of a loop. -/
def jumpStatement : Parser Stmt := do
  let word ← advance
  endStatement
  let span ← finishSpan word.span
  return if word.text == "break" then .breaks span else .continues span

/-- Read a throw statement.  Its argument must begin on the same line. -/
def throwStatement (lower : Rules) : Parser Stmt := do
  let start ← advance
  let next ← peek
  if next.newlineBefore then
    malformed next.span .newlineAfterThrow
  else
    let argument ← lower.expression
    endStatement
    return .throws argument (← finishSpan start.span)

/-! ## Branches and loops -/

def ifStatement (lower : Rules) : Parser Stmt := do
  let start ← advance
  let test ← grouped lower
  let consequent ← lower.statement
  let alternate ← if ← eatReserved "else" then some <$> lower.statement else pure none
  return .ifElse test consequent alternate (← finishSpan start.span)

def whileStatement (lower : Rules) : Parser Stmt := do
  let start ← advance
  let test ← grouped lower
  let body ← lower.statement
  return .whileLoop test body (← finishSpan start.span)

/-- Read a loop with its test at the end.  A semicolon may follow. -/
def doWhileStatement (lower : Rules) : Parser Stmt := do
  let start ← advance
  let body ← lower.statement
  let _ ← expectReserved "while"
  let test ← grouped lower
  let _ ← eatPunct ";"
  return .doWhile body test (← finishSpan start.span)

/-- The kind of loop over a collection that a token announces. -/
def forEachKind? (token : Token) : Option ForEachKind :=
  if token.isReserved "in" then some .keys
  else if token.isWord "of" then some .values
  else none

/-- Read the rest of a loop over a collection, from the word between its two
sides. -/
def forEachRest (lower : Rules) (start : Span) (kind : ForEachKind) (left : ForHead Expr) :
    Parser Stmt := do
  let _ ← advance
  let right ← match kind with
    | .keys => lower.expression
    | .values => lower.assignment
  let _ ← expectPunct ")"
  let body ← lower.statement
  return .forEach kind left right body (← finishSpan start)

/-- Read an expression, unless the given token comes first. -/
def optionalExpression (lower : Rules) (closer : String) : Parser (Option Expr) := do
  if ← atPunct closer then return none else some <$> lower.expression

/-- Read the rest of a counting loop, from the first semicolon of its head. -/
def forLoopRest (lower : Rules) (start : Span) (init : Option (ForInit Expr)) : Parser Stmt := do
  let _ ← expectPunct ";"
  let test ← optionalExpression lower ";"
  let _ ← expectPunct ";"
  let update ← optionalExpression lower ")"
  let _ ← expectPunct ")"
  let body ← lower.statement
  return .forLoop init test update body (← finishSpan start)

/-- Whether a loop head begins with a declaration. -/
def atDeclaration (cursor : Cursor) : Bool :=
  cursor.peek.isReserved "var" || cursor.peek.isReserved "const" || atLetDeclaration cursor

def forDeclared (lower : Rules) (start : Span) : Parser Stmt := do
  let head ← peek
  let name ← peekAt 1
  let word ← peekAt 2
  match if name.isName then forEachKind? word else none with
  | some kind => do
    let varKind ← declarationKind head
    let _ ← advance
    let id ← bindingName
    forEachRest lower start kind (.declared varKind id)
  | none => do
    let declared ← forbiddingIn (declaration lower)
    forLoopRest lower start (some (.declaration declared))

def forExpression (lower : Rules) (start : Span) : Parser Stmt := do
  let value ← forbiddingIn lower.expression
  match forEachKind? (← peek) with
  | some kind =>
    if value.isAssignmentTarget then
      forEachRest lower start kind (.target value)
    else
      malformed value.span .loopTarget
  | none => forLoopRest lower start (some (.expression value))

/-- Read a loop behind the opening parenthesis of its head. -/
def forRest (lower : Rules) (start : Span) : Parser Stmt := fun state =>
  if state.cursor.atPunct ";" then
    forLoopRest lower start none state
  else if atDeclaration state.cursor then
    forDeclared lower start state
  else
    forExpression lower start state

/-- Read a loop with a head in a scope of its own. -/
def forStatement (lower : Rules) : Parser Stmt := do
  let start ← advance
  let _ ← expectPunct "("
  inScope (forRest lower start.span)

/-! ## Handlers -/

def catchParameter : Parser (Option Identifier) := do
  if ← eatPunct "(" then
    let param ← bindingName
    let _ ← expectPunct ")"
    return some param
  else
    return none

def catchRest (lower : Rules) (start : Span) : Parser (Catch Stmt) := do
  let param ← catchParameter
  let body ← blockBody lower
  return { param, body, span := ← finishSpan start }

def catchClause (lower : Rules) : Parser (Option (Catch Stmt)) := do
  if ← atReserved "catch" then
    let start ← advance
    some <$> inScope (catchRest lower start.span)
  else
    return none

/-- Read a protected block with its handler and its final block; one of the two
must be there. -/
def tryStatement (lower : Rules) : Parser Stmt := do
  let start ← advance
  let body ← block lower
  let handler ← catchClause lower
  let finalizer ← if ← eatReserved "finally" then some <$> block lower else pure none
  if handler.isNone && finalizer.isNone then
    malformed (← peek).span .missingHandler
  else
    return .tryCatch body handler finalizer (← finishSpan start.span)

/-! ## Switches -/

/-- Whether a token ends the statements of an alternative. -/
def endsCase (token : Token) : Bool :=
  token.isPunct "\x7d" || token.isReserved "case" || token.isReserved "default"

/-- Read the test of an alternative; the default has none and may occur once. -/
def caseTest (lower : Rules) (seenDefault : Bool) : Parser (Option Expr) := do
  if ← eatReserved "case" then
    some <$> lower.expression
  else if ← atReserved "default" then
    if seenDefault then
      malformed (← peek).span .multipleDefaults
    else
      let _ ← advance
      return none
  else
    unexpected

def switchCase (lower : Rules) (seenDefault : Bool) : Parser (Case Expr Stmt) := do
  let start := (← peek).span
  let test ← caseTest lower seenDefault
  let _ ← expectPunct ":"
  let body ← itemsUntil endsCase lower.statement ((← remaining) + 1)
  return { test, body, span := ← finishSpan start }

/-- Read alternatives up to the closing brace, which is not read. -/
def switchCases (lower : Rules) : Nat → (seenDefault : Bool) → Parser (List (Case Expr Stmt))
  | 0, _ => return []
  | bound + 1, seenDefault => do
    if ← atPunct "\x7d" then
      return []
    else
      let first ← switchCase lower seenDefault
      let rest ← switchCases lower bound (seenDefault || first.test.isNone)
      return first :: rest

def switchStatement (lower : Rules) : Parser Stmt := do
  let start ← advance
  let discriminant ← grouped lower
  let _ ← expectPunct "\x7b"
  let bound := (← remaining) + 1
  let cases ← inScope (switchCases lower bound false)
  let _ ← expectPunct "\x7d"
  return .switch discriminant cases (← finishSpan start.span)

/-! ## All statements -/

def reservedStatement (lower : Rules) (word : String) : Parser Stmt :=
  match word with
  | "var" | "const" => declarationStatement lower
  | "function" => .function <$> functionStatement lower
  | "return" => returnStatement lower
  | "if" => ifStatement lower
  | "for" => forStatement lower
  | "while" => whileStatement lower
  | "do" => doWhileStatement lower
  | "break" | "continue" => jumpStatement
  | "throw" => throwStatement lower
  | "try" => tryStatement lower
  | "switch" => switchStatement lower
  | _ => expressionStatement lower

def plainStatement (lower : Rules) : Parser Stmt := fun state =>
  let token := state.cursor.peek
  if token.isPunct "\x7b" then
    (Stmt.block <$> block lower : Parser Stmt) state
  else if token.isPunct ";" then
    (do let _ ← advance; return .empty token.span : Parser Stmt) state
  else if token.kind == .keyword then
    reservedStatement lower token.text state
  else if atLetDeclaration state.cursor then
    declarationStatement lower state
  else
    expressionStatement lower state

def statement (lower : Rules) : Parser Stmt := do
  if ← atMacroDeclaration then macroDeclaration else plainStatement lower

/-! ## Tying the rules together -/

namespace Rules

/-- The rules that call the given ones after they have read a token. -/
def above (lower : Rules) : Rules where
  statement := Grammar.statement lower
  expression := Grammar.expression lower
  assignment := Grammar.assignment lower
  binary := Grammar.binary lower
  unary := Grammar.unary lower
  construct := Grammar.construct lower

/-- The rules of a level.  They are complete for inputs of at most that many
tokens. -/
def level : Nat → Rules
  | 0 => exhausted
  | n + 1 => above (level n)

end Rules

/-- Run a rule that is complete for the tokens that are left. -/
def withRules {α : Type} (rule : Rules → Parser α) : Parser α := fun state =>
  rule (.level state.cursor.remaining) state

def program : Parser Program := withRules fun rules => do
  let start := (← peek).span
  let body ← itemsUntil Token.isEnd rules.statement ((← remaining) + 1)
  return { body, span := ← finishSpan start }

end MacroScript.Grammar
