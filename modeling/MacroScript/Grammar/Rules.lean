import MacroScript.Grammar.MacroNode

/-!
# Recursive rules

The grammar is recursive: statements hold expressions and expressions hold
function bodies.  Each rule is written as an ordinary function of the rules it
may call after it has read at least one token.  These are collected in `Rules`.

The rules of level `n + 1` call the rules of level `n`.  Every call reads a token
first, so a level that is at least the number of tokens left is as good as an
unlimited one.  At level zero no token is left, and every rule complains about
the end of input.
-/

namespace MacroScript.Grammar

structure Rules where
  statement : Parser Stmt
  expression : Parser Expr
  assignment : Parser Expr
  binary : (minimum : Nat) → Parser Expr
  unary : Parser Expr
  construct : Parser Expr

namespace Rules

/-- The rules when no token is left. -/
def exhausted : Rules where
  statement := unexpected
  expression := unexpected
  assignment := unexpected
  binary := fun _ => unexpected
  unary := unexpected
  construct := unexpected

end Rules

/-! ## Blocks and functions -/

/-- Read statements between braces, without a scope of their own. -/
def blockBody (lower : Rules) : Parser (Block Stmt) := do
  let start ← expectPunct "\x7b"
  let body ← itemsUntil (·.isPunct "\x7d") lower.statement ((← remaining) + 1)
  let _ ← advance
  return { body, span := ← finishSpan start.span }

def block (lower : Rules) : Parser (Block Stmt) :=
  inScope (blockBody lower)

def parameters : Parser (List Identifier) := do
  let _ ← expectPunct "("
  let params ← commaItems ")" bindingName ((← remaining) + 1)
  let _ ← expectPunct ")"
  return params

/-- Read the parameters and the body of a function whose name, if it has one,
is bound outside. -/
def functionRest (lower : Rules) : Parser (List Identifier × Block Stmt) := do
  let params ← parameters
  let body ← blockBody lower
  return (params, body)

/-- Read a function statement.  Its name is bound in the scope around it. -/
def functionStatement (lower : Rules) : Parser (Function Stmt) := do
  let start ← expectReserved "function"
  let name ← bindingName
  let (params, body) ← inScope (functionRest lower)
  return { name := some name, params, body, span := ← finishSpan start.span }

/-- Read the optional name, the parameters and the body of a function
expression. -/
def namedFunctionRest (lower : Rules) :
    Parser (Option Identifier × List Identifier × Block Stmt) := do
  if (← peek).isName then
    let name ← bindingName
    let (params, body) ← functionRest lower
    return (some name, params, body)
  else
    let (params, body) ← functionRest lower
    return (none, params, body)

/-- Read a function expression.  Its name is bound in its own scope. -/
def functionExpression (lower : Rules) : Parser (Function Stmt) := do
  let start ← expectReserved "function"
  let (name, params, body) ← inScope (namedFunctionRest lower)
  return { name, params, body, span := ← finishSpan start.span }

end MacroScript.Grammar
