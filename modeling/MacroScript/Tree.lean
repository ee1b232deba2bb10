import MacroScript.Operator
import MacroScript.Scope

/-!
# Syntax trees

A program is a list of statements.  Every node carries the span of the source
text it was read from.  Two kinds of node exist only before expansion: the
statement that declares a macro and the expression that calls one.

The containers (blocks, functions, properties and so on) are parametric in the
statements and expressions they hold, and the two recursive types are tied
together at the end.
-/

namespace MacroScript

/-! ## Names and literals -/

/-- A name in the tree.  Renaming keeps the spelling of the source beside the
new one. -/
structure Identifier where
  name : String
  span : Span
  sourceName : Option String := none
deriving DecidableEq, Repr

namespace Identifier

/-- Whether the name was changed by an expansion. -/
def isColored (identifier : Identifier) : Bool :=
  identifier.sourceName.isSome

/-- Append a color to a name.  A name is colored at most once. -/
def applyColor (identifier : Identifier) (color : Color) : Identifier :=
  match identifier.sourceName with
  | some _ => identifier
  | none =>
    { identifier with
      name := identifier.name ++ "_" ++ toString color
      sourceName := some identifier.name }

/-- Append a color to a name, if there is one. -/
def applyColor? (identifier : Identifier) : Option Color → Identifier
  | some color => identifier.applyColor color
  | none => identifier

def originalName (identifier : Identifier) : String :=
  identifier.sourceName.getD identifier.name

end Identifier

inductive LiteralKind where
  | number
  | bigint
  | string
  | boolean
  | null
  | regex
deriving DecidableEq, Repr

namespace LiteralKind

def label : LiteralKind → String
  | .number => "Number"
  | .bigint => "BigInt"
  | .string => "String"
  | .boolean => "Boolean"
  | .null => "Null"
  | .regex => "Regex"

end LiteralKind

/-- A literal, kept as its source text. -/
structure Literal where
  kind : LiteralKind
  raw : String
  span : Span
deriving DecidableEq, Repr

/-- The words that introduce variables. -/
inductive VarKind where
  | var
  | let
  | const
deriving DecidableEq, Repr

namespace VarKind

def keyword : VarKind → String
  | .var => "var"
  | .let => "let"
  | .const => "const"

/-- The kind of declaration that a word introduces. -/
def ofWord? (word : String) : Option VarKind :=
  [.var, .let, .const].find? (·.keyword == word)

def label : VarKind → String
  | .var => "Var"
  | .let => "Let"
  | .const => "Const"

end VarKind

/-- The two loops over a collection: its keys and its values. -/
inductive ForEachKind where
  | keys
  | values
deriving DecidableEq, Repr

namespace ForEachKind

def keyword : ForEachKind → String
  | .keys => "in"
  | .values => "of"

def label : ForEachKind → String
  | .keys => "In"
  | .values => "Of"

end ForEachKind

/-! ## Containers -/

/-- Statements between braces. -/
structure Block (S : Type) where
  body : List S
  span : Span

structure Function (S : Type) where
  name : Option Identifier
  params : List Identifier
  body : Block S
  span : Span

inductive ArrowBody (E S : Type) where
  | expression (value : E)
  | block (block : Block S)

structure Arrow (E S : Type) where
  params : List Identifier
  body : ArrowBody E S
  span : Span

structure Declarator (E : Type) where
  id : Identifier
  init : Option E
  span : Span

structure Declaration (E : Type) where
  kind : VarKind
  declarators : List (Declarator E)
  span : Span

/-- The first part of a counting loop's head. -/
inductive ForInit (E : Type) where
  | declaration (declaration : Declaration E)
  | expression (value : E)

/-- The left side of a loop over a collection. -/
inductive ForHead (E : Type) where
  | declared (kind : VarKind) (id : Identifier)
  | target (target : E)

/-- A handler of thrown values. -/
structure Catch (S : Type) where
  param : Option Identifier
  body : Block S
  span : Span

/-- One alternative of a switch; the default has no test. -/
structure Case (E S : Type) where
  test : Option E
  body : List S
  span : Span

/-- The key of an object property.  String and number keys keep their source
text. -/
inductive PropertyKey (E : Type) where
  | identifier (name : String)
  | string (raw : String)
  | number (raw : String)
  | computed (value : E)

structure Property (E : Type) where
  key : PropertyKey E
  value : E
  shorthand : Bool
  span : Span

inductive MemberKey (E : Type) where
  | named (name : String)
  | computed (value : E)

/-! ## Macro nodes -/

/-- The statement that a macro declaration leaves in the tree.  The macro
itself is kept in the session's registry. -/
structure MacroStmt where
  name : Identifier
  macroId : MacroId
  span : Span

/-- A call of a macro with its raw argument tokens and the scopes that were
open where it was written. -/
structure Invocation where
  name : Identifier
  macroId : MacroId
  tokens : List Token
  scopes : ScopeStack
  span : Span

/-! ## Expressions and statements -/

mutual

inductive Expr where
  | identifier (identifier : Identifier)
  | literal (literal : Literal)
  | this (span : Span)
  | array (elements : List Expr) (span : Span)
  | object (properties : List (Property Expr)) (span : Span)
  | function (function : Function Stmt)
  | arrow (arrow : Arrow Expr Stmt)
  | unary (op : UnaryOp) (argument : Expr) (span : Span)
  | update (op : UpdateOp) (before : Bool) (argument : Expr) (span : Span)
  | binary (op : BinaryOp) (left right : Expr) (span : Span)
  | assign (op : AssignOp) (target value : Expr) (span : Span)
  | conditional (test consequent alternate : Expr) (span : Span)
  | call (callee : Expr) (arguments : List Expr) (isOptional : Bool) (span : Span)
  | construct (callee : Expr) (arguments : List Expr) (span : Span)
  | member (object : Expr) (key : MemberKey Expr) (isOptional : Bool) (span : Span)
  | sequence (expressions : List Expr) (span : Span)
  | invocation (invocation : Invocation)

inductive Stmt where
  | expression (value : Expr) (span : Span)
  | declaration (declaration : Declaration Expr)
  | function (function : Function Stmt)
  | returns (argument : Option Expr) (span : Span)
  | ifElse (test : Expr) (consequent : Stmt) (alternate : Option Stmt) (span : Span)
  | forLoop (init : Option (ForInit Expr)) (test update : Option Expr) (body : Stmt) (span : Span)
  | forEach (kind : ForEachKind) (left : ForHead Expr) (right : Expr) (body : Stmt) (span : Span)
  | whileLoop (test : Expr) (body : Stmt) (span : Span)
  | doWhile (body : Stmt) (test : Expr) (span : Span)
  | breaks (span : Span)
  | continues (span : Span)
  | throws (argument : Expr) (span : Span)
  | tryCatch (block : Block Stmt) (handler : Option (Catch Stmt))
      (finalizer : Option (Block Stmt)) (span : Span)
  | switch (discriminant : Expr) (cases : List (Case Expr Stmt)) (span : Span)
  | block (block : Block Stmt)
  | empty (span : Span)
  | macroDeclaration (declaration : MacroStmt)

end

abbrev Program := Block Stmt

namespace Expr

def span : Expr → Span
  | .identifier id => id.span
  | .literal value => value.span
  | .function fn => fn.span
  | .arrow fn => fn.span
  | .invocation use => use.span
  | .this span
  | .array _ span
  | .object _ span
  | .unary _ _ span
  | .update _ _ _ span
  | .binary _ _ _ span
  | .assign _ _ _ span
  | .conditional _ _ _ span
  | .call _ _ _ span
  | .construct _ _ span
  | .member _ _ _ span
  | .sequence _ span => span

/-- Whether an expression may be assigned to.  A macro call may turn into such
an expression. -/
def isAssignmentTarget : Expr → Bool
  | .identifier _ | .member .. | .invocation _ => true
  | _ => false

end Expr

namespace Stmt

def span : Stmt → Span
  | .declaration declared => declared.span
  | .function fn => fn.span
  | .block inner => inner.span
  | .macroDeclaration declared => declared.span
  | .expression _ span
  | .returns _ span
  | .ifElse _ _ _ span
  | .forLoop _ _ _ _ span
  | .forEach _ _ _ _ span
  | .whileLoop _ _ span
  | .doWhile _ _ span
  | .breaks span
  | .continues span
  | .throws _ span
  | .tryCatch _ _ _ span
  | .switch _ _ span
  | .empty span => span

end Stmt

end MacroScript
