import MacroScript.Grammar.Reading

/-!
# Splicing expansions into a tree

Splicing walks a tree from left to right, drops macro declarations and replaces
every macro call by its expansion.  How a call is expanded is a parameter.

A call that is a statement of its own is replaced by all statements of its
expansion.  Anywhere else a call stands for an expression, and its expansion must
be a single expression statement.  Where the grammar has room for one statement
only, several become a block and none becomes the empty statement.
-/

namespace MacroScript.Splice

/-- How a call is replaced by a program. -/
abbrev Handler := Invocation → SessionM Program

/-- The single statement that stands for a list of statements. -/
def asBody (span : Span) : List Stmt → Stmt
  | [] => .empty span
  | [stmt] => stmt
  | stmts => .block ⟨stmts, span⟩

/-- The expression that an expansion stands for. -/
def asExpression (call : Invocation) : List Stmt → Except Fault Expr
  | [] => .error (.expansion call.name.name call.span .nothing)
  | [.expression value _] => .ok value
  | [_] => .error (.expansion call.name.name call.span .statement)
  | _ => .error (.expansion call.name.name call.span .manyStatements)

/-- Replace a call in the place of an expression. -/
def callExpression (handler : Handler) (call : Invocation) : SessionM Expr := do
  let program ← handler call
  match asExpression call program.body with
  | .ok value => return value
  | .error fault => throw fault

/-- Replace a statement by statements.  A macro declaration is dropped and a call
is replaced by its expansion; any other statement stays one, which `single` makes
of it. -/
def spliceInto (handler : Handler) (stmt : Stmt) (single : SessionM Stmt) :
    SessionM (List Stmt) :=
  match stmt with
  | .macroDeclaration _ => return []
  | .expression (.invocation call) _ => return (← handler call).body
  | _ => return [← single]

mutual

def spliceExpr (handler : Handler) : Expr → SessionM Expr
  | .invocation call => callExpression handler call
  | .identifier identifier => return .identifier identifier
  | .literal literal => return .literal literal
  | .this span => return .this span
  | .array elements span => return .array (← spliceExprs handler elements) span
  | .object properties span => return .object (← spliceProperties handler properties) span
  | .function function => return .function (← spliceFunction handler function)
  | .arrow arrow => return .arrow (← spliceArrow handler arrow)
  | .unary op argument span => return .unary op (← spliceExpr handler argument) span
  | .update op before argument span =>
    return .update op before (← spliceExpr handler argument) span
  | .binary op left right span => do
    let left ← spliceExpr handler left
    let right ← spliceExpr handler right
    return .binary op left right span
  | .assign op target value span => do
    let target ← spliceExpr handler target
    let value ← spliceExpr handler value
    return .assign op target value span
  | .conditional test consequent alternate span => do
    let test ← spliceExpr handler test
    let consequent ← spliceExpr handler consequent
    let alternate ← spliceExpr handler alternate
    return .conditional test consequent alternate span
  | .call callee arguments isOptional span => do
    let callee ← spliceExpr handler callee
    let arguments ← spliceExprs handler arguments
    return .call callee arguments isOptional span
  | .construct callee arguments span => do
    let callee ← spliceExpr handler callee
    let arguments ← spliceExprs handler arguments
    return .construct callee arguments span
  | .member object key isOptional span => do
    let object ← spliceExpr handler object
    let key ← spliceMemberKey handler key
    return .member object key isOptional span
  | .sequence expressions span => return .sequence (← spliceExprs handler expressions) span

def spliceExprs (handler : Handler) : List Expr → SessionM (List Expr)
  | [] => return []
  | expr :: rest => do
    let expr ← spliceExpr handler expr
    let rest ← spliceExprs handler rest
    return expr :: rest

def spliceExpr? (handler : Handler) : Option Expr → SessionM (Option Expr)
  | none => return none
  | some expr => return some (← spliceExpr handler expr)

def spliceMemberKey (handler : Handler) : MemberKey Expr → SessionM (MemberKey Expr)
  | .named name => return .named name
  | .computed value => return .computed (← spliceExpr handler value)

def splicePropertyKey (handler : Handler) : PropertyKey Expr → SessionM (PropertyKey Expr)
  | .identifier name => return .identifier name
  | .string raw => return .string raw
  | .number raw => return .number raw
  | .computed value => return .computed (← spliceExpr handler value)

def spliceProperty (handler : Handler) : Property Expr → SessionM (Property Expr)
  | ⟨key, value, shorthand, span⟩ => do
    let key ← splicePropertyKey handler key
    let value ← spliceExpr handler value
    return ⟨key, value, shorthand, span⟩

def spliceProperties (handler : Handler) :
    List (Property Expr) → SessionM (List (Property Expr))
  | [] => return []
  | property :: rest => do
    let property ← spliceProperty handler property
    let rest ← spliceProperties handler rest
    return property :: rest

def spliceFunction (handler : Handler) : Function Stmt → SessionM (Function Stmt)
  | ⟨name, params, body, span⟩ => return ⟨name, params, ← spliceBlock handler body, span⟩

def spliceArrow (handler : Handler) : Arrow Expr Stmt → SessionM (Arrow Expr Stmt)
  | ⟨params, body, span⟩ => return ⟨params, ← spliceArrowBody handler body, span⟩

def spliceArrowBody (handler : Handler) :
    ArrowBody Expr Stmt → SessionM (ArrowBody Expr Stmt)
  | .expression value => return .expression (← spliceExpr handler value)
  | .block block => return .block (← spliceBlock handler block)

def spliceBlock (handler : Handler) : Block Stmt → SessionM (Block Stmt)
  | ⟨body, span⟩ => return ⟨← spliceStmts handler body, span⟩

def spliceBlock? (handler : Handler) : Option (Block Stmt) → SessionM (Option (Block Stmt))
  | none => return none
  | some block => return some (← spliceBlock handler block)

def spliceDeclarator (handler : Handler) : Declarator Expr → SessionM (Declarator Expr)
  | ⟨id, init, span⟩ => return ⟨id, ← spliceExpr? handler init, span⟩

def spliceDeclarators (handler : Handler) :
    List (Declarator Expr) → SessionM (List (Declarator Expr))
  | [] => return []
  | declarator :: rest => do
    let declarator ← spliceDeclarator handler declarator
    let rest ← spliceDeclarators handler rest
    return declarator :: rest

def spliceDeclaration (handler : Handler) : Declaration Expr → SessionM (Declaration Expr)
  | ⟨kind, declarators, span⟩ =>
    return ⟨kind, ← spliceDeclarators handler declarators, span⟩

def spliceForInit (handler : Handler) : ForInit Expr → SessionM (ForInit Expr)
  | .declaration declaration => return .declaration (← spliceDeclaration handler declaration)
  | .expression value => return .expression (← spliceExpr handler value)

def spliceForInit? (handler : Handler) :
    Option (ForInit Expr) → SessionM (Option (ForInit Expr))
  | none => return none
  | some init => return some (← spliceForInit handler init)

def spliceForHead (handler : Handler) : ForHead Expr → SessionM (ForHead Expr)
  | .declared kind id => return .declared kind id
  | .target target => return .target (← spliceExpr handler target)

def spliceCatch (handler : Handler) : Catch Stmt → SessionM (Catch Stmt)
  | ⟨param, body, span⟩ => return ⟨param, ← spliceBlock handler body, span⟩

def spliceCatch? (handler : Handler) : Option (Catch Stmt) → SessionM (Option (Catch Stmt))
  | none => return none
  | some clause => return some (← spliceCatch handler clause)

def spliceCase (handler : Handler) : Case Expr Stmt → SessionM (Case Expr Stmt)
  | ⟨test, body, span⟩ => do
    let test ← spliceExpr? handler test
    let body ← spliceStmts handler body
    return ⟨test, body, span⟩

def spliceCases (handler : Handler) :
    List (Case Expr Stmt) → SessionM (List (Case Expr Stmt))
  | [] => return []
  | case :: rest => do
    let case ← spliceCase handler case
    let rest ← spliceCases handler rest
    return case :: rest

/-- Splice the calls of a statement that stays one statement, as macro
declarations do not. -/
def spliceSingle (handler : Handler) : Stmt → SessionM Stmt
  | .macroDeclaration declared =>
    throw (.internal declared.span (.splicedDeclaration declared.name.name))
  | .expression value span => return .expression (← spliceExpr handler value) span
  | .declaration declaration => return .declaration (← spliceDeclaration handler declaration)
  | .function function => return .function (← spliceFunction handler function)
  | .returns argument span => return .returns (← spliceExpr? handler argument) span
  | .ifElse test consequent alternate span => do
    let test ← spliceExpr handler test
    let body ← spliceInto handler consequent (spliceSingle handler consequent)
    let alternate ← spliceBody? handler alternate
    return .ifElse test (asBody consequent.span body) alternate span
  | .forLoop init test update body span => do
    let init ← spliceForInit? handler init
    let test ← spliceExpr? handler test
    let update ← spliceExpr? handler update
    let stmts ← spliceInto handler body (spliceSingle handler body)
    return .forLoop init test update (asBody body.span stmts) span
  | .forEach kind left right body span => do
    let left ← spliceForHead handler left
    let right ← spliceExpr handler right
    let stmts ← spliceInto handler body (spliceSingle handler body)
    return .forEach kind left right (asBody body.span stmts) span
  | .whileLoop test body span => do
    let test ← spliceExpr handler test
    let stmts ← spliceInto handler body (spliceSingle handler body)
    return .whileLoop test (asBody body.span stmts) span
  | .doWhile body test span => do
    let stmts ← spliceInto handler body (spliceSingle handler body)
    let test ← spliceExpr handler test
    return .doWhile (asBody body.span stmts) test span
  | .breaks span => return .breaks span
  | .continues span => return .continues span
  | .throws argument span => return .throws (← spliceExpr handler argument) span
  | .tryCatch block clause finalizer span => do
    let block ← spliceBlock handler block
    let clause ← spliceCatch? handler clause
    let finalizer ← spliceBlock? handler finalizer
    return .tryCatch block clause finalizer span
  | .switch discriminant cases span => do
    let discriminant ← spliceExpr handler discriminant
    let cases ← spliceCases handler cases
    return .switch discriminant cases span
  | .block block => return .block (← spliceBlock handler block)
  | .empty span => return .empty span

/-- Splice the calls of a statement in a place for one, when it may be
missing. -/
def spliceBody? (handler : Handler) : Option Stmt → SessionM (Option Stmt)
  | none => return none
  | some stmt => do
    let stmts ← spliceInto handler stmt (spliceSingle handler stmt)
    return some (asBody stmt.span stmts)

def spliceStmts (handler : Handler) : List Stmt → SessionM (List Stmt)
  | [] => return []
  | stmt :: rest => do
    let stmts ← spliceInto handler stmt (spliceSingle handler stmt)
    let later ← spliceStmts handler rest
    return stmts ++ later

end

/-- Splice the calls of a statement, which may become any number of
statements. -/
def spliceStmt (handler : Handler) (stmt : Stmt) : SessionM (List Stmt) :=
  spliceInto handler stmt (spliceSingle handler stmt)

def spliceProgram (handler : Handler) (program : Program) : SessionM Program :=
  spliceBlock handler program

end MacroScript.Splice
