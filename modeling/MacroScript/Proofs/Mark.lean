import MacroScript.Proofs.Leaf

/-!
# The marks of a tree

The marks of a tree are its leaves together with its literals and the places where
scopes open and close, from left to right.  They are the whole of a tree that decides
what the names in it stand for.

A scope opens for each block statement, for the parts of a protected statement, for
each function, arrow function and loop with a head, and for the alternatives of a
switch.  The name of a function is bound outside of its scope when the function is a
statement, and inside when it is an expression.
-/

namespace MacroScript

/-- What decides the meaning of the names in a tree. -/
inductive Mark where
  /-- A scope opens. -/
  | enter
  /-- The innermost scope closes. -/
  | exit
  | leaf (leaf : Leaf)
  | literal (literal : Literal)
deriving DecidableEq

namespace Mark

/-- The mark of a name that introduces a binding. -/
abbrev binding (identifier : Identifier) : Mark :=
  .leaf (.binding identifier)

/-- The mark of a name that refers to a binding. -/
abbrev reference (identifier : Identifier) : Mark :=
  .leaf (.reference identifier)

/-- The mark of a macro call. -/
abbrev call (invocation : Invocation) : Mark :=
  .leaf (.call invocation)

/-- The mark of a macro declaration. -/
abbrev declaration (declared : MacroStmt) : Mark :=
  .leaf (.declaration declared)

/-- Marks with a scope around them. -/
def enclosed (marks : List Mark) : List Mark :=
  .enter :: (marks ++ [.exit])

/-! ## Collecting marks -/

mutual

/-- The marks of an expression. -/
def ofExpr : Expr → List Mark
  | .invocation use => [.call use]
  | .identifier identifier => [.reference identifier]
  | .literal value => [.literal value]
  | .this _ => []
  | .array elements _ => ofExprs elements
  | .object properties _ => ofProperties properties
  | .function function => enclosed (function.name.toList.map .binding ++ ofFunctionRest function)
  | .arrow arrow => enclosed (ofArrow arrow)
  | .unary _ argument _ => ofExpr argument
  | .update _ _ argument _ => ofExpr argument
  | .binary _ left right _ => ofExpr left ++ ofExpr right
  | .assign _ target value _ => ofExpr target ++ ofExpr value
  | .conditional test consequent alternate _ =>
    ofExpr test ++ ofExpr consequent ++ ofExpr alternate
  | .call callee arguments _ _ => ofExpr callee ++ ofExprs arguments
  | .construct callee arguments _ => ofExpr callee ++ ofExprs arguments
  | .member object key _ _ => ofExpr object ++ ofMemberKey key
  | .sequence expressions _ => ofExprs expressions

def ofExprs : List Expr → List Mark
  | [] => []
  | expr :: rest => ofExpr expr ++ ofExprs rest

def ofExpr? : Option Expr → List Mark
  | none => []
  | some expr => ofExpr expr

def ofMemberKey : MemberKey Expr → List Mark
  | .named _ => []
  | .computed value => ofExpr value

def ofPropertyKey : PropertyKey Expr → List Mark
  | .identifier _ => []
  | .string _ => []
  | .number _ => []
  | .computed value => ofExpr value

def ofProperty : Property Expr → List Mark
  | ⟨key, value, _, _⟩ => ofPropertyKey key ++ ofExpr value

def ofProperties : List (Property Expr) → List Mark
  | [] => []
  | property :: rest => ofProperty property ++ ofProperties rest

/-- The marks of the parameters and the body of a function. -/
def ofFunctionRest : Function Stmt → List Mark
  | ⟨_, params, body, _⟩ => params.map .binding ++ ofBlock body

def ofArrow : Arrow Expr Stmt → List Mark
  | ⟨params, body, _⟩ => params.map .binding ++ ofArrowBody body

def ofArrowBody : ArrowBody Expr Stmt → List Mark
  | .expression value => ofExpr value
  | .block block => ofBlock block

def ofBlock : Block Stmt → List Mark
  | ⟨body, _⟩ => ofStmts body

/-- The marks of a block with a scope of its own that may be missing. -/
def ofBlock? : Option (Block Stmt) → List Mark
  | none => []
  | some block => enclosed (ofBlock block)

def ofDeclarator : Declarator Expr → List Mark
  | ⟨id, init, _⟩ => .binding id :: ofExpr? init

def ofDeclarators : List (Declarator Expr) → List Mark
  | [] => []
  | declarator :: rest => ofDeclarator declarator ++ ofDeclarators rest

def ofDeclaration : Declaration Expr → List Mark
  | ⟨_, declarators, _⟩ => ofDeclarators declarators

def ofForInit : ForInit Expr → List Mark
  | .declaration declared => ofDeclaration declared
  | .expression value => ofExpr value

def ofForInit? : Option (ForInit Expr) → List Mark
  | none => []
  | some init => ofForInit init

def ofForHead : ForHead Expr → List Mark
  | .declared _ id => [.binding id]
  | .target target => ofExpr target

def ofCatch : Catch Stmt → List Mark
  | ⟨param, body, _⟩ => param.toList.map .binding ++ ofBlock body

/-- The marks of a handler with its scope, when it may be missing. -/
def ofCatch? : Option (Catch Stmt) → List Mark
  | none => []
  | some clause => enclosed (ofCatch clause)

def ofCase : Case Expr Stmt → List Mark
  | ⟨test, body, _⟩ => ofExpr? test ++ ofStmts body

def ofCases : List (Case Expr Stmt) → List Mark
  | [] => []
  | case :: rest => ofCase case ++ ofCases rest

/-- The marks of a statement. -/
def ofStmt : Stmt → List Mark
  | .macroDeclaration declared => [.declaration declared]
  | .expression value _ => ofExpr value
  | .declaration declared => ofDeclaration declared
  | .function function =>
    function.name.toList.map .binding ++ enclosed (ofFunctionRest function)
  | .returns argument _ => ofExpr? argument
  | .ifElse test consequent alternate _ =>
    ofExpr test ++ ofStmt consequent ++ ofStmt? alternate
  | .forLoop init test update body _ =>
    enclosed (ofForInit? init ++ ofExpr? test ++ ofExpr? update ++ ofStmt body)
  | .forEach _ left right body _ => enclosed (ofForHead left ++ ofExpr right ++ ofStmt body)
  | .whileLoop test body _ => ofExpr test ++ ofStmt body
  | .doWhile body test _ => ofStmt body ++ ofExpr test
  | .breaks _ => []
  | .continues _ => []
  | .throws argument _ => ofExpr argument
  | .tryCatch block clause finalizer _ =>
    enclosed (ofBlock block) ++ ofCatch? clause ++ ofBlock? finalizer
  | .switch discriminant cases _ => ofExpr discriminant ++ enclosed (ofCases cases)
  | .block block => enclosed (ofBlock block)
  | .empty _ => []

def ofStmt? : Option Stmt → List Mark
  | none => []
  | some stmt => ofStmt stmt

def ofStmts : List Stmt → List Mark
  | [] => []
  | stmt :: rest => ofStmt stmt ++ ofStmts rest

end

/-- The marks of a program. -/
def ofProgram (program : Program) : List Mark :=
  ofBlock program

theorem ofExprs_eq_flatMap (exprs : List Expr) : ofExprs exprs = exprs.flatMap ofExpr := by
  induction exprs with
  | nil => simp [ofExprs]
  | cons expr rest ih => simp [ofExprs, ih]

theorem ofProperties_eq_flatMap (properties : List (Property Expr)) :
    ofProperties properties = properties.flatMap ofProperty := by
  induction properties with
  | nil => simp [ofProperties]
  | cons property rest ih => simp [ofProperties, ih]

theorem ofDeclarators_eq_flatMap (declarators : List (Declarator Expr)) :
    ofDeclarators declarators = declarators.flatMap ofDeclarator := by
  induction declarators with
  | nil => simp [ofDeclarators]
  | cons declarator rest ih => simp [ofDeclarators, ih]

theorem ofStmts_eq_flatMap (stmts : List Stmt) : ofStmts stmts = stmts.flatMap ofStmt := by
  induction stmts with
  | nil => simp [ofStmts]
  | cons stmt rest ih => simp [ofStmts, ih]

/-! ## The leaves among marks -/

/-- The leaf at a mark. -/
def leaf? : Mark → Option Leaf
  | .leaf held => some held
  | _ => none

/-- The leaves among marks. -/
def leaves (marks : List Mark) : List Leaf :=
  marks.filterMap leaf?

@[simp]
theorem leaves_nil : leaves [] = [] :=
  rfl

@[simp]
theorem leaves_cons_leaf (leaf : Leaf) (rest : List Mark) :
    leaves (.leaf leaf :: rest) = leaf :: leaves rest :=
  rfl

@[simp]
theorem leaves_append (first second : List Mark) :
    leaves (first ++ second) = leaves first ++ leaves second :=
  List.filterMap_append

@[simp]
theorem leaves_enclosed (marks : List Mark) : leaves (enclosed marks) = leaves marks := by
  rw [enclosed, leaves, List.filterMap_cons_none rfl, List.filterMap_append]
  exact List.append_nil _

@[simp]
theorem leaves_map_binding (names : List Identifier) :
    leaves (names.map .binding) = names.map .binding := by
  induction names with
  | nil => rfl
  | cons name rest ih => simp [ih]

theorem mem_leaves {marks : List Mark} {leaf : Leaf} :
    leaf ∈ leaves marks ↔ .leaf leaf ∈ marks := by
  unfold leaves
  rw [List.mem_filterMap]
  constructor
  · rintro ⟨mark, mem, found⟩
    cases mark with
    | leaf other => exact Option.some.inj found ▸ mem
    | enter
    | exit
    | literal value => cases found
  · intro mem
    exact ⟨.leaf leaf, mem, rfl⟩

end Mark

namespace Leaf

/-- The leaves of an expression. -/
def ofExpr (expr : Expr) : List Leaf :=
  Mark.leaves (Mark.ofExpr expr)

/-- The leaves of a statement. -/
def ofStmt (stmt : Stmt) : List Leaf :=
  Mark.leaves (Mark.ofStmt stmt)

/-- The leaves of a program. -/
def ofProgram (program : Program) : List Leaf :=
  Mark.leaves (Mark.ofProgram program)

theorem mem_ofProgram {program : Program} {leaf : Leaf} :
    leaf ∈ ofProgram program ↔ .leaf leaf ∈ Mark.ofProgram program :=
  Mark.mem_leaves

theorem ofProgram_eq (program : Program) :
    ofProgram program = Mark.leaves (Mark.ofStmts program.body) := by
  cases program
  rfl

end Leaf

end MacroScript
