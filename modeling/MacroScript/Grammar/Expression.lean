import MacroScript.Grammar.Rules

/-!
# Expressions

The rules for expressions, from the strongest to the weakest binding: primary
expressions, members and calls, unary and binary operators, conditionals, arrow
functions and assignments, sequences.
-/

namespace MacroScript.Grammar

/-! ## Primary expressions -/

def literalOf (kind : LiteralKind) : Parser Expr := do
  let token ← advance
  return .literal { kind, raw := token.text, span := token.span }

/-- Read assignment expressions with commas in between, up to a closing token
that is not read. -/
def listItems (lower : Rules) (closer : String) : Parser (List Expr) := do
  commaItems closer lower.assignment ((← remaining) + 1)

def callArguments (lower : Rules) : Parser (List Expr) := do
  let _ ← expectPunct "("
  let items ← allowingIn (listItems lower ")")
  let _ ← expectPunct ")"
  return items

/-- Read the key of a property that is not abbreviated. -/
def propertyKey (lower : Rules) : Parser (PropertyKey Expr) := do
  let token ← peek
  match token.kind with
  | .name | .keyword => return .identifier (← advance).text
  | .string => return .string (← advance).text
  | .number => return .number (← advance).text
  | _ =>
    if token.isPunct "[" then
      let _ ← advance
      let key ← lower.assignment
      let _ ← expectPunct "]"
      return .computed key
    else
      unexpected

/-- Read a property.  A name before a comma or the closing brace is both key and
value. -/
def property (lower : Rules) : Parser (Property Expr) := do
  let token ← peek
  let following ← peekAt 1
  if token.isName && (following.isPunct "," || following.isPunct "\x7d") then
    let value ← referenceName
    return ⟨.identifier token.text, .identifier value, true, token.span⟩
  else
    let key ← propertyKey lower
    let _ ← expectPunct ":"
    let value ← lower.assignment
    return { key, value, shorthand := false, span := ← finishSpan token.span }

/-- Read properties up to the closing brace, which is not read. -/
def properties (lower : Rules) : Parser (List (Property Expr)) := do
  commaItems "\x7d" (property lower) ((← remaining) + 1)

def objectLiteral (lower : Rules) : Parser Expr := do
  let start ← expectPunct "\x7b"
  let members ← allowingIn (properties lower)
  let _ ← expectPunct "\x7d"
  return .object members (← finishSpan start.span)

def arrayLiteral (lower : Rules) : Parser Expr := do
  let start ← advance
  let elements ← allowingIn (listItems lower "]")
  let _ ← expectPunct "]"
  return .array elements (← finishSpan start.span)

/-- Read an expression in parentheses, which leave no trace in the tree. -/
def grouped (lower : Rules) : Parser Expr := do
  let _ ← expectPunct "("
  let inner ← allowingIn lower.expression
  let _ ← expectPunct ")"
  return inner

/-- Read a primary expression that begins with a reserved word. -/
def reservedPrimary (lower : Rules) (token : Token) : Parser Expr := do
  if token.text == "true" || token.text == "false" then
    literalOf .boolean
  else if token.text == "null" then
    literalOf .null
  else if token.text == "this" then
    let _ ← advance
    return .this token.span
  else if token.text == "function" then
    return .function (← functionExpression lower)
  else
    unexpected

/-- Read a primary expression that begins with a punctuator. -/
def punctPrimary (lower : Rules) (token : Token) : Parser Expr := do
  if token.text == "(" then
    grouped lower
  else if token.text == "[" then
    arrayLiteral lower
  else if token.text == "\x7b" then
    objectLiteral lower
  else
    unexpected

def primary (lower : Rules) : Parser Expr := do
  let token ← peek
  match token.kind with
  | .name => nameExpression
  | .number => literalOf .number
  | .bigint => literalOf .bigint
  | .string => literalOf .string
  | .regex => literalOf .regex
  | .keyword => reservedPrimary lower token
  | .punct => punctPrimary lower token
  | .eof => unexpected

/-! ## Members and calls -/

/-- Read the name of a member, which may be a reserved word. -/
def memberName : Parser String := do
  let token ← peek
  if token.kind == .name || token.kind == .keyword then
    return (← advance).text
  else
    unexpected

/-- Read a computed member behind its opening bracket. -/
def computedMember (lower : Rules) : Parser (MemberKey Expr) := do
  let value ← allowingIn lower.expression
  let _ ← expectPunct "]"
  return .computed value

/-- Read what follows the mark of an optional member. -/
def optionalSuffix (lower : Rules) (start : Span) (base : Expr) : Parser Expr := do
  if ← atPunct "(" then
    let arguments ← callArguments lower
    return .call base arguments true (← finishSpan start)
  else if ← eatPunct "[" then
    let key ← computedMember lower
    return .member base key true (← finishSpan start)
  else
    let name ← memberName
    return .member base (.named name) true (← finishSpan start)

/-- Read one member or call behind an expression, if there is one.  Calls and
optional members are read only where `calls` allows them. -/
def suffix? (lower : Rules) (calls : Bool) (start : Span) (base : Expr) :
    Parser (Option Expr) := do
  if ← eatPunct "." then
    let name ← memberName
    return some (.member base (.named name) false (← finishSpan start))
  else if calls && (← atPunct "?.") then
    let _ ← advance
    return some (← optionalSuffix lower start base)
  else if ← eatPunct "[" then
    let key ← computedMember lower
    return some (.member base key false (← finishSpan start))
  else if calls && (← atPunct "(") then
    let arguments ← callArguments lower
    return some (.call base arguments false (← finishSpan start))
  else
    return none

/-- Read the members and calls behind an expression. -/
def suffixes (lower : Rules) (calls : Bool) (start : Span) : Nat → Expr → Parser Expr
  | 0, base => return base
  | bound + 1, base => do
    match ← suffix? lower calls start base with
    | some longer => suffixes lower calls start bound longer
    | none => return base

/-- Read the members and calls behind an expression, as many as there are. -/
def withSuffixes (lower : Rules) (calls : Bool) (base : Expr) : Parser Expr := do
  suffixes lower calls base.span ((← remaining) + 1) base

def construct (lower : Rules) : Parser Expr := do
  let start ← advance
  let head ← if ← atReserved "new" then lower.construct else primary lower
  let callee ← withSuffixes lower false head
  let arguments ← if ← atPunct "(" then callArguments lower else pure []
  return .construct callee arguments (← finishSpan start.span)

/-- Read a construction or a primary expression with its members and calls. -/
def leftHandSide (lower : Rules) : Parser Expr := do
  let base ← if ← atReserved "new" then construct lower else primary lower
  withSuffixes lower true base

/-! ## Operators -/

/-- Read the operand of an update operator that stands before it. -/
def updateBefore (lower : Rules) (op : UpdateOp) (start : Span) : Parser Expr := do
  let _ ← advance
  let argument ← lower.unary
  if argument.isAssignmentTarget then
    return .update op true argument (← finishSpan start)
  else
    malformed argument.span .updateTarget

/-- Read an operand, possibly with an update operator behind it on the same
line. -/
def updateAfter (lower : Rules) (start : Span) : Parser Expr := do
  let argument ← leftHandSide lower
  let next ← peek
  match UpdateOp.ofToken? next with
  | some op =>
    if next.newlineBefore then
      return argument
    else if argument.isAssignmentTarget then
      let _ ← advance
      return .update op false argument (← finishSpan start)
    else
      malformed argument.span .updateTarget
  | none => return argument

def unary (lower : Rules) : Parser Expr := do
  let token ← peek
  match UnaryOp.ofToken? token with
  | some op => do
    let _ ← advance
    let argument ← lower.unary
    return .unary op argument (← finishSpan token.span)
  | none =>
    match UpdateOp.ofToken? token with
    | some op => updateBefore lower op token.span
    | none => updateAfter lower token.span

/-- The binary operator that comes next, if it binds at least as strongly as
`minimum` and is allowed here. -/
def nextBinaryOp? (minimum : Nat) : Parser (Option BinaryOp) := fun state =>
  let found := (BinaryOp.ofToken? state.cursor.peek).filter fun op =>
    !(op == .inside && !state.cursor.allowIn) && minimum ≤ op.precedence
  .ok found state

/-- The weakest operator allowed in the right operand of an operator. -/
def rightMinimum (op : BinaryOp) : Nat :=
  if op.isRightAssociative then op.precedence else op.precedence + 1

/-- Read operators and right operands behind a left operand. -/
def binaryTail (lower : Rules) (minimum : Nat) (start : Span) : Nat → Expr → Parser Expr
  | 0, left => return left
  | bound + 1, left => do
    match ← nextBinaryOp? minimum with
    | some op => do
      let _ ← advance
      let right ← lower.binary (rightMinimum op)
      let span ← finishSpan start
      binaryTail lower minimum start bound (.binary op left right span)
    | none => return left

/-- Read an expression of binary operators that bind at least as strongly as
`minimum`. -/
def binary (lower : Rules) (minimum : Nat) : Parser Expr := do
  let start := (← peek).span
  let left ← unary lower
  binaryTail lower minimum start ((← remaining) + 1) left

def conditional (lower : Rules) : Parser Expr := do
  let start := (← peek).span
  let test ← binary lower 1
  if ← eatPunct "?" then
    let consequent ← allowingIn lower.assignment
    let _ ← expectPunct ":"
    let alternate ← lower.assignment
    return .conditional test consequent alternate (← finishSpan start)
  else
    return test

/-! ## Arrow functions and assignments -/

/-- The two ways in which an arrow function may begin. -/
inductive ArrowHead where
  | name
  | parenthesized
deriving DecidableEq, Repr

/-- Whether an arrow on the same line stands at an index. -/
def arrowAt (cursor : Cursor) (index : Nat) : Bool :=
  (cursor.tokenAt index).isPunct "=>" && !(cursor.tokenAt index).newlineBefore

/-- Whether an arrow function is next: a single name or a balanced parameter
list in front of an arrow. -/
def arrowHead? (cursor : Cursor) : Option ArrowHead :=
  if cursor.peek.isName && arrowAt cursor (cursor.index + 1) then
    some .name
  else if cursor.peek.isPunct "(" then
    match cursor.closeIndex? cursor.index with
    | some close => if arrowAt cursor (close + 1) then some .parenthesized else none
    | none => none
  else
    none

def arrowParameters : ArrowHead → Parser (List Identifier)
  | .name => do return [← bindingName]
  | .parenthesized => parameters

def arrowBody (lower : Rules) : Parser (ArrowBody Expr Stmt) := do
  if ← atPunct "\x7b" then
    return .block (← blockBody lower)
  else
    return .expression (← lower.assignment)

/-- Read an arrow function, in a scope that is open already. -/
def arrowFunction (lower : Rules) (head : ArrowHead) (start : Span) : Parser Expr := do
  let params ← arrowParameters head
  let _ ← expectPunct "=>"
  let body ← arrowBody lower
  return .arrow { params, body, span := ← finishSpan start }

/-- Read an assignment, or the conditional expression that it could have
started with. -/
def assignmentFrom (lower : Rules) (start : Span) : Parser Expr := do
  let target ← conditional lower
  match AssignOp.ofToken? (← peek) with
  | some op =>
    if target.isAssignmentTarget then
      let _ ← advance
      let value ← lower.assignment
      return .assign op target value (← finishSpan start)
    else
      malformed target.span .assignmentTarget
  | none => return target

def assignment (lower : Rules) : Parser Expr := fun state =>
  let start := state.cursor.peek.span
  match arrowHead? state.cursor with
  | some head => inScope (arrowFunction lower head start) state
  | none => assignmentFrom lower start state

/-! ## Sequences -/

def expression (lower : Rules) : Parser Expr := do
  let start := (← peek).span
  let first ← assignment lower
  if ← eatPunct "," then
    let rest ← commaSequence lower.assignment ((← remaining) + 1)
    return .sequence (first :: rest) (← finishSpan start)
  else
    return first

end MacroScript.Grammar
