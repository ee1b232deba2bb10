import MacroScript.Layout.Item
import MacroScript.Layout.Strength

/-!
# The layout of a tree

Every statement stands on a line of its own; a block opens on the line of what
it belongs to and its statements are indented by one level.  A statement that is
the body of a branch or a loop follows on the same line.

The functions take the depth of the current line, because a function inside an
expression continues at the depth of the statement around it.  Every node begins
with a mark for its span.
-/

namespace MacroScript.Layout

open MacroScript.Item (parens parensIf commaJoin)

/-! ## Pieces -/

/-- A name, marked with its spelling in the source. -/
def identifierItems (identifier : Identifier) : List Item :=
  [.mark identifier.span (some identifier.originalName), .token identifier.name]

/-- The items of an expression in a place that requires the given strength. -/
def slot (required : Nat) (expr : Expr) (items : List Item) : List Item :=
  parensIf (expr.strength < required) items

def operand (op : BinaryOp) (required : Nat) (expr : Expr) (items : List Item) : List Item :=
  if expr.mixesNullish op then parens items else slot required expr items

/-- The items of an expression where a statement or an arrow body begins. -/
def guarded (expr : Expr) (required : Nat) (items : List Item) : List Item :=
  if expr.startsAmbiguously then parens items else slot required expr items

/-- The items of an object whose member is selected. -/
def memberObject (object : Expr) (items : List Item) : List Item :=
  if object.isBareInteger then parens items else slot Strength.call object items

def constructCallee (callee : Expr) (items : List Item) : List Item :=
  if callee.containsCall then parens items else slot Strength.call callee items

/-- The items of the body of a branch or a loop, behind its head. -/
def bodyItems (stmt : Stmt) (items : List Item) : List Item :=
  match stmt with
  | .empty _ => [.token ";"]
  | _ => .space :: items

/-- The items of the alternative of a branch, behind its word.  A further branch
continues the line. -/
def alternateItems (stmt : Stmt) (items : List Item) : List Item :=
  match stmt with
  | .ifElse .. => .space :: items
  | _ => bodyItems stmt items

def abbreviates (property : Property Expr) : Option Identifier :=
  match property.shorthand, property.key, property.value with
  | true, .identifier key, .identifier value => if key == value.name then some value else none
  | _, _, _ => none

def arrowParameterItems (params : List Identifier) : List Item :=
  match params with
  | [param] => identifierItems param
  | _ => parens (commaJoin (params.map identifierItems))

/-- The items of a block with the given inner lines. -/
def braced (depth : Nat) (lines : List Item) : List Item :=
  if lines.isEmpty then [.token "\x7b", .token "\x7d"]
  else .token "\x7b" :: .newline :: lines ++ [.indent depth, .token "\x7d"]

/-! ## The tree -/

mutual

/-- The items of an expression without parentheses of its own. -/
def exprItems (depth : Nat) : Expr → List Item
  | .identifier identifier => .mark identifier.span none :: identifierItems identifier
  | .literal literal => [.mark literal.span none, .token literal.raw]
  | .this span => [.mark span none, .token "this"]
  | .array elements span =>
    .mark span none :: .token "[" :: commaJoin (exprSlots depth elements) ++ [.token "]"]
  | .object properties span =>
    .mark span none ::
      (if properties.isEmpty then [.token "\x7b", .token "\x7d"]
      else
        .token "\x7b" :: .space :: commaJoin (propertyGroups depth properties) ++
          [.space, .token "\x7d"])
  | .function function => .mark function.span none :: functionItems depth function
  | .arrow arrow => .mark arrow.span none :: arrowItems depth arrow
  | .unary op argument span =>
    .mark span none :: .token op.symbol ::
      (if argument.needsSpaceAfter op then [.space] else []) ++
      slot Strength.unary argument (exprItems depth argument)
  | .update op before argument span =>
    .mark span none ::
      (if before then
        .token op.symbol :: slot Strength.postfixed argument (exprItems depth argument)
      else
        slot Strength.call argument (exprItems depth argument) ++ [.token op.symbol])
  | .binary op left right span =>
    .mark span none :: operand op (Strength.leftOperand op) left (exprItems depth left) ++
      .space :: .token op.symbol :: .space ::
      operand op (Strength.rightOperand op) right (exprItems depth right)
  | .assign op target value span =>
    .mark span none :: slot Strength.call target (exprItems depth target) ++
      .space :: .token op.symbol :: .space ::
      slot Strength.assignment value (exprItems depth value)
  | .conditional test consequent alternate span =>
    .mark span none :: slot (Strength.conditional + 1) test (exprItems depth test) ++
      .space :: .token "?" :: .space ::
      slot Strength.assignment consequent (exprItems depth consequent) ++
      .space :: .token ":" :: .space ::
      slot Strength.assignment alternate (exprItems depth alternate)
  | .call callee arguments isOptional span =>
    .mark span none :: slot Strength.call callee (exprItems depth callee) ++
      (if isOptional then [.token "?."] else []) ++
      parens (commaJoin (exprSlots depth arguments))
  | .construct callee arguments span =>
    .mark span none :: .token "new" :: .space ::
      constructCallee callee (exprItems depth callee) ++
      parens (commaJoin (exprSlots depth arguments))
  | .member object key isOptional span =>
    .mark span none :: memberObject object (exprItems depth object) ++
      memberKeyItems depth isOptional key
  | .sequence expressions span => .mark span none :: commaJoin (exprSlots depth expressions)
  | .invocation invocation =>
    [ .mark invocation.span none,
      .stray (.internal invocation.span (.printedInvocation invocation.name.name)) ]

def exprSlots (depth : Nat) : List Expr → List (List Item)
  | [] => []
  | expr :: rest =>
    slot Strength.assignment expr (exprItems depth expr) :: exprSlots depth rest

/-- The items of an expression that may be missing, with a blank before it. -/
def spacedItems (depth : Nat) : Option Expr → List Item
  | none => []
  | some expr => .space :: slot Strength.sequence expr (exprItems depth expr)

def memberKeyItems (depth : Nat) (isOptional : Bool) : MemberKey Expr → List Item
  | .named name => [.token (if isOptional then "?." else "."), .token name]
  | .computed value =>
    (if isOptional then [.token "?."] else []) ++
      .token "[" :: slot Strength.sequence value (exprItems depth value) ++ [.token "]"]

def propertyKeyItems (depth : Nat) : PropertyKey Expr → List Item
  | .identifier name | .string name | .number name => [.token name]
  | .computed value =>
    .token "[" :: slot Strength.assignment value (exprItems depth value) ++ [.token "]"]

def propertyItems (depth : Nat) : Property Expr → List Item
  | ⟨key, value, shorthand, span⟩ =>
    .mark span none ::
      match abbreviates ⟨key, value, shorthand, span⟩ with
      | some identifier => identifierItems identifier
      | none =>
        propertyKeyItems depth key ++ .token ":" :: .space ::
          slot Strength.assignment value (exprItems depth value)

def propertyGroups (depth : Nat) : List (Property Expr) → List (List Item)
  | [] => []
  | property :: rest => propertyItems depth property :: propertyGroups depth rest

def functionItems (depth : Nat) : Function Stmt → List Item
  | ⟨name, params, body, _⟩ =>
    .token "function" ::
      (match name with
      | some identifier => .space :: identifierItems identifier
      | none => []) ++
      parens (commaJoin (params.map identifierItems)) ++ .space :: blockItems depth body

def arrowItems (depth : Nat) : Arrow Expr Stmt → List Item
  | ⟨params, body, _⟩ =>
    arrowParameterItems params ++ .space :: .token "=>" :: .space :: arrowBodyItems depth body

def arrowBodyItems (depth : Nat) : ArrowBody Expr Stmt → List Item
  | .expression value => guarded value Strength.assignment (exprItems depth value)
  | .block block => blockItems depth block

def blockItems (depth : Nat) : Block Stmt → List Item
  | ⟨body, span⟩ => .mark span none :: braced depth (stmtLines (depth + 1) body)

def declaratorItems (depth : Nat) : Declarator Expr → List Item
  | ⟨id, init, _⟩ => identifierItems id ++ initItems depth init

def initItems (depth : Nat) : Option Expr → List Item
  | none => []
  | some value =>
    .space :: .token "=" :: .space :: slot Strength.assignment value (exprItems depth value)

def declaratorGroups (depth : Nat) : List (Declarator Expr) → List (List Item)
  | [] => []
  | declarator :: rest => declaratorItems depth declarator :: declaratorGroups depth rest

def declarationItems (depth : Nat) : Declaration Expr → List Item
  | ⟨kind, declarators, _⟩ =>
    .token kind.keyword :: .space :: commaJoin (declaratorGroups depth declarators)

def forInitItems (depth : Nat) : ForInit Expr → List Item
  | .declaration declaration => declarationItems depth declaration
  | .expression value => slot Strength.sequence value (exprItems depth value)

def optionalForInitItems (depth : Nat) : Option (ForInit Expr) → List Item
  | none => []
  | some init => forInitItems depth init

def forHeadItems (depth : Nat) : ForHead Expr → List Item
  | .declared kind id => .token kind.keyword :: .space :: identifierItems id
  | .target target => slot Strength.call target (exprItems depth target)

/-- The items of a handler, with a blank before it. -/
def catchItems (depth : Nat) : Catch Stmt → List Item
  | ⟨param, body, _⟩ =>
    .space :: .token "catch" :: .space ::
      (match param with
      | some identifier => parens (identifierItems identifier) ++ [.space]
      | none => []) ++
      blockItems depth body

def optionalCatchItems (depth : Nat) : Option (Catch Stmt) → List Item
  | none => []
  | some handler => catchItems depth handler

/-- The items of a final block, when there is one. -/
def finalizerItems (depth : Nat) : Option (Block Stmt) → List Item
  | none => []
  | some block => .space :: .token "finally" :: .space :: blockItems depth block

/-- The items of the test of an alternative, with the colon behind it. -/
def caseTestItems (depth : Nat) : Option Expr → List Item
  | none => [.token "default", .token ":"]
  | some test =>
    .token "case" :: .space :: slot Strength.sequence test (exprItems depth test) ++
      [.token ":"]

def caseLines (depth : Nat) : Case Expr Stmt → List Item
  | ⟨test, body, _⟩ =>
    .indent depth :: caseTestItems depth test ++ .newline :: stmtLines (depth + 1) body

def switchLines (depth : Nat) : List (Case Expr Stmt) → List Item
  | [] => []
  | case :: rest => caseLines depth case ++ switchLines depth rest

/-- The items of a statement, without its indentation and line end. -/
def stmtItems (depth : Nat) : Stmt → List Item
  | .expression value span =>
    .mark span none :: guarded value Strength.sequence (exprItems depth value) ++ [.token ";"]
  | .declaration declaration =>
    .mark declaration.span none :: declarationItems depth declaration ++ [.token ";"]
  | .function function => .mark function.span none :: functionItems depth function
  | .returns argument span =>
    .mark span none :: .token "return" :: spacedItems depth argument ++ [.token ";"]
  | .ifElse test consequent alternate span =>
    .mark span none :: .token "if" :: .space ::
      parens (slot Strength.sequence test (exprItems depth test)) ++
      bodyItems consequent (stmtItems depth consequent) ++
      elseItems depth alternate
  | .forLoop init test update body span =>
    .mark span none :: .token "for" :: .space ::
      parens
        (optionalForInitItems depth init ++ .token ";" :: spacedItems depth test ++
          .token ";" :: spacedItems depth update) ++
      bodyItems body (stmtItems depth body)
  | .forEach kind left right body span =>
    .mark span none :: .token "for" :: .space ::
      parens
        (forHeadItems depth left ++ .space :: .token kind.keyword :: .space ::
          slot Strength.assignment right (exprItems depth right)) ++
      bodyItems body (stmtItems depth body)
  | .whileLoop test body span =>
    .mark span none :: .token "while" :: .space ::
      parens (slot Strength.sequence test (exprItems depth test)) ++
      bodyItems body (stmtItems depth body)
  | .doWhile body test span =>
    .mark span none :: .token "do" :: bodyItems body (stmtItems depth body) ++
      .space :: .token "while" :: .space ::
      parens (slot Strength.sequence test (exprItems depth test)) ++ [.token ";"]
  | .breaks span => [.mark span none, .token "break", .token ";"]
  | .continues span => [.mark span none, .token "continue", .token ";"]
  | .throws argument span =>
    .mark span none :: .token "throw" :: .space ::
      slot Strength.sequence argument (exprItems depth argument) ++ [.token ";"]
  | .tryCatch block handler finalizer span =>
    .mark span none :: .token "try" :: .space :: blockItems depth block ++
      optionalCatchItems depth handler ++ finalizerItems depth finalizer
  | .switch discriminant cases span =>
    .mark span none :: .token "switch" :: .space ::
      parens (slot Strength.sequence discriminant (exprItems depth discriminant)) ++
      .space :: .token "\x7b" :: .newline :: switchLines (depth + 1) cases ++
      [.indent depth, .token "\x7d"]
  | .block block => .mark block.span none :: blockItems depth block
  | .empty span => [.mark span none, .token ";"]
  | .macroDeclaration declaration =>
    [ .mark declaration.span none,
      .stray (.internal declaration.span (.printedDeclaration declaration.name.name)) ]

def elseItems (depth : Nat) : Option Stmt → List Item
  | none => []
  | some stmt =>
    .space :: .token "else" :: alternateItems stmt (stmtItems depth stmt)

def stmtLines (depth : Nat) : List Stmt → List Item
  | [] => []
  | stmt :: rest =>
    .indent depth :: stmtItems depth stmt ++ .newline :: stmtLines depth rest

end

def programItems (program : Program) : List Item :=
  stmtLines 0 program.body

end MacroScript.Layout
