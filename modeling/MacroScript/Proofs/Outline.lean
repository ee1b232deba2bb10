import MacroScript.Proofs.Leaf

/-!
# Outlines

The outline of a tree keeps of every node its span and its parts, in the order of the source.
Names are nodes too, and so are the pieces of a node that have a span of their own: functions,
properties, declared variables, handlers and alternatives.

So the outline of a tree shows all spans and all leaves in it.
-/

namespace MacroScript

/-- The source text of a leaf. -/
def Leaf.span : Leaf → Span
  | .binding identifier => identifier.span
  | .reference identifier => identifier.span
  | .call invocation => invocation.span
  | .declaration declared => declared.span

/-- The nodes of a tree by their spans. -/
inductive Outline where
  | leaf (leaf : Leaf)
  | node (span : Span) (parts : List Outline)

namespace Outline

/-- The source text of a node. -/
def span : Outline → Span
  | .leaf name => name.span
  | .node span _ => span

/-- The nodes directly inside a node, in the order of the source. -/
def parts : Outline → List Outline
  | .leaf _ => []
  | .node _ parts => parts

/-- A name that introduces a binding. -/
abbrev ofName (name : Identifier) : Outline :=
  .leaf (.binding name)

/-! ## The outlines of trees -/

mutual

def ofExpr : Expr → Outline
  | .identifier identifier => .leaf (.reference identifier)
  | .literal literal => .node literal.span []
  | .this span => .node span []
  | .array elements span => .node span (ofExprs elements)
  | .object properties span => .node span (ofProperties properties)
  | .function function => ofFunction function
  | .arrow ⟨params, body, span⟩ => .node span (params.map ofName ++ [ofArrowBody body])
  | .unary _ argument span => .node span [ofExpr argument]
  | .update _ _ argument span => .node span [ofExpr argument]
  | .binary _ left right span => .node span [ofExpr left, ofExpr right]
  | .assign _ target value span => .node span [ofExpr target, ofExpr value]
  | .conditional test consequent alternate span =>
    .node span [ofExpr test, ofExpr consequent, ofExpr alternate]
  | .call callee arguments _ span => .node span (ofExpr callee :: ofExprs arguments)
  | .construct callee arguments span => .node span (ofExpr callee :: ofExprs arguments)
  | .member object key _ span => .node span (ofExpr object :: ofMemberKey key)
  | .sequence expressions span => .node span (ofExprs expressions)
  | .invocation invocation => .leaf (.call invocation)

def ofExprs : List Expr → List Outline
  | [] => []
  | expr :: rest => ofExpr expr :: ofExprs rest

def ofExpr? : Option Expr → List Outline
  | none => []
  | some expr => [ofExpr expr]

def ofMemberKey : MemberKey Expr → List Outline
  | .named _ => []
  | .computed value => [ofExpr value]

def ofPropertyKey : PropertyKey Expr → List Outline
  | .identifier _ => []
  | .string _ => []
  | .number _ => []
  | .computed value => [ofExpr value]

def ofProperty : Property Expr → Outline
  | ⟨key, value, _, span⟩ => .node span (ofPropertyKey key ++ [ofExpr value])

def ofProperties : List (Property Expr) → List Outline
  | [] => []
  | property :: rest => ofProperty property :: ofProperties rest

def ofFunction : Function Stmt → Outline
  | ⟨name, params, body, span⟩ =>
    .node span (name.toList.map ofName ++ (params.map ofName ++ [ofBlock body]))

def ofArrowBody : ArrowBody Expr Stmt → Outline
  | .expression value => ofExpr value
  | .block block => ofBlock block

def ofBlock : Block Stmt → Outline
  | ⟨body, span⟩ => .node span (ofStmts body)

def ofBlock? : Option (Block Stmt) → List Outline
  | none => []
  | some block => [ofBlock block]

def ofDeclarator : Declarator Expr → Outline
  | ⟨id, init, span⟩ => .node span (ofName id :: ofExpr? init)

def ofDeclarators : List (Declarator Expr) → List Outline
  | [] => []
  | declarator :: rest => ofDeclarator declarator :: ofDeclarators rest

def ofDeclaration : Declaration Expr → Outline
  | ⟨_, declarators, span⟩ => .node span (ofDeclarators declarators)

def ofForInit? : Option (ForInit Expr) → List Outline
  | none => []
  | some (.declaration declared) => [ofDeclaration declared]
  | some (.expression value) => [ofExpr value]

def ofForHead : ForHead Expr → Outline
  | .declared _ id => ofName id
  | .target target => ofExpr target

def ofCatch? : Option (Catch Stmt) → List Outline
  | none => []
  | some ⟨param, body, span⟩ => [.node span (param.toList.map ofName ++ [ofBlock body])]

def ofCase : Case Expr Stmt → Outline
  | ⟨test, body, span⟩ => .node span (ofExpr? test ++ ofStmts body)

def ofCases : List (Case Expr Stmt) → List Outline
  | [] => []
  | case :: rest => ofCase case :: ofCases rest

def ofStmt : Stmt → Outline
  | .expression value span => .node span [ofExpr value]
  | .declaration declared => ofDeclaration declared
  | .function function => ofFunction function
  | .returns argument span => .node span (ofExpr? argument)
  | .ifElse test consequent alternate span =>
    .node span (ofExpr test :: ofStmt consequent :: ofStmt? alternate)
  | .forLoop init test update body span =>
    .node span (ofForInit? init ++ ofExpr? test ++ ofExpr? update ++ [ofStmt body])
  | .forEach _ left right body span => .node span [ofForHead left, ofExpr right, ofStmt body]
  | .whileLoop test body span => .node span [ofExpr test, ofStmt body]
  | .doWhile body test span => .node span [ofStmt body, ofExpr test]
  | .breaks span => .node span []
  | .continues span => .node span []
  | .throws argument span => .node span [ofExpr argument]
  | .tryCatch block clause finalizer span =>
    .node span (ofBlock block :: ofCatch? clause ++ ofBlock? finalizer)
  | .switch discriminant cases span => .node span (ofExpr discriminant :: ofCases cases)
  | .block block => ofBlock block
  | .empty span => .node span []
  | .macroDeclaration declaration => .leaf (.declaration declaration)

def ofStmt? : Option Stmt → List Outline
  | none => []
  | some stmt => [ofStmt stmt]

def ofStmts : List Stmt → List Outline
  | [] => []
  | stmt :: rest => ofStmt stmt :: ofStmts rest

end

theorem ofExprs_eq_map (exprs : List Expr) : ofExprs exprs = exprs.map ofExpr := by
  induction exprs with
  | nil => rfl
  | cons expr rest ih => rw [ofExprs, ih, List.map_cons]

theorem ofProperties_eq_map (properties : List (Property Expr)) :
    ofProperties properties = properties.map ofProperty := by
  induction properties with
  | nil => rfl
  | cons property rest ih => rw [ofProperties, ih, List.map_cons]

theorem ofDeclarators_eq_map (declarators : List (Declarator Expr)) :
    ofDeclarators declarators = declarators.map ofDeclarator := by
  induction declarators with
  | nil => rfl
  | cons declarator rest ih => rw [ofDeclarators, ih, List.map_cons]

theorem ofStmts_eq_map (stmts : List Stmt) : ofStmts stmts = stmts.map ofStmt := by
  induction stmts with
  | nil => rfl
  | cons stmt rest ih => rw [ofStmts, ih, List.map_cons]

/-- An expression is a node with its span. -/
theorem ofExpr_span (expr : Expr) : (ofExpr expr).span = expr.span := by
  cases expr with
  | function inner => cases inner; rfl
  | _ => rfl

theorem ofStmt_span (stmt : Stmt) : (ofStmt stmt).span = stmt.span := by
  cases stmt with
  | declaration inner
  | function inner
  | block inner => cases inner; rfl
  | _ => rfl

/-! ## What an outline shows -/

mutual

/-- The spans of all nodes. -/
def spans : Outline → List Span
  | .leaf name => [name.span]
  | .node span parts => span :: spansAll parts

def spansAll : List Outline → List Span
  | [] => []
  | outline :: rest => spans outline ++ spansAll rest

end

mutual

/-- The leaves among all nodes. -/
def leaves : Outline → List Leaf
  | .leaf name => [name]
  | .node _ parts => leavesAll parts

def leavesAll : List Outline → List Leaf
  | [] => []
  | outline :: rest => leaves outline ++ leavesAll rest

end

theorem spansAll_append (first second : List Outline) :
    spansAll (first ++ second) = spansAll first ++ spansAll second := by
  induction first with
  | nil => rfl
  | cons outline rest ih => simp [spansAll, ih]

theorem leavesAll_append (first second : List Outline) :
    leavesAll (first ++ second) = leavesAll first ++ leavesAll second := by
  induction first with
  | nil => rfl
  | cons outline rest ih => simp [leavesAll, ih]

theorem span_mem_spansAll (outline : Outline) : outline.span ∈ spansAll [outline] := by
  cases outline <;> simp [spansAll, spans, span]

theorem span_mem_ofExpr (expr : Expr) : expr.span ∈ spansAll [ofExpr expr] :=
  ofExpr_span expr ▸ span_mem_spansAll (ofExpr expr)

theorem span_mem_ofStmt (stmt : Stmt) : stmt.span ∈ spansAll [ofStmt stmt] :=
  ofStmt_span stmt ▸ span_mem_spansAll (ofStmt stmt)

end Outline

end MacroScript
