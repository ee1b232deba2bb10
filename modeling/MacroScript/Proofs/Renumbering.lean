import MacroScript.Hygiene
import MacroScript.MacroDef
import MacroScript.Proofs.Mark
import MacroScript.Token.Balanced
import MacroScript.Tree
import Mathlib.Tactic.Common

/-!
# Renumbering

Scopes, macros and colors are known by their numbers, and a session gives out its
numbers in the order in which it needs them.  Sessions that do the same work from
different beginnings come to the same trees up to these numbers.

A `Renumbering` says how the numbers of one session are found in another.  It acts on
everything that holds such numbers: tokens, names, trees, macros and cursors.  Nothing
else about them changes, so no test that a parser makes can tell the difference.
-/

namespace MacroScript

/-! ## The color of a name -/

namespace Identifier

/-- The color behind the spelling of the source, in a name that was colored. -/
def colorBehind (identifier : Identifier) (source : String) : Color :=
  Nat.ofDigitChars 10 (identifier.name.toList.drop (source.toList.length + 1)) 0

/-- Exchange the color of a name that has one. -/
def recolor (change : Color → Color) (identifier : Identifier) : Identifier :=
  match identifier.sourceName with
  | none => identifier
  | some source =>
    { identifier with
      name := source ++ "_" ++ toString (change (identifier.colorBehind source)) }

variable {identifier : Identifier}

theorem colorBehind_applyColor (plain : identifier.sourceName = none) (color : Color) :
    (identifier.applyColor color).colorBehind identifier.name = color := by
  have digits : (identifier.applyColor color).name.toList =
      (identifier.name.toList ++ ['_']) ++ Nat.toDigits 10 color := by
    simp [applyColor, plain]
  have length : (identifier.name.toList ++ ['_']).length = identifier.name.toList.length + 1 :=
    List.length_append
  rw [colorBehind, digits, ← length, List.drop_left, Nat.ofDigitChars_ten_toDigits]

theorem recolor_applyColor? (plain : identifier.sourceName = none) (change : Color → Color)
    (color : Option Color) :
    (identifier.applyColor? color).recolor change = identifier.applyColor? (color.map change) := by
  cases color with
  | none => simp [applyColor?, recolor, plain]
  | some color =>
    have behind := colorBehind_applyColor plain color
    have source : (identifier.applyColor color).sourceName = some identifier.name := by
      simp [applyColor, plain]
    simp only [applyColor?, Option.map_some, recolor, source, behind]
    simp [applyColor, plain]

@[simp]
theorem recolor_span (identifier : Identifier) (change : Color → Color) :
    (identifier.recolor change).span = identifier.span := by
  unfold recolor
  split <;> rfl

end Identifier

/-! ## Numbers -/

/-- How the numbers of one session are found in another: what is added to scopes and to
macros from a first one on, and to colors. -/
structure Renumbering where
  scopes : Nat := 0
  /-- The first scope whose number changes. -/
  base : Nat := 0
  macros : Nat := 0
  /-- The first macro whose number changes. -/
  floor : Nat := 0
  colors : Nat := 0

namespace Renumbering

variable (r : Renumbering)

/-- The number of a scope. -/
def scope (id : Nat) : Nat :=
  if id < r.base then id else id + r.scopes

/-- The number of a macro. -/
def macroId (id : Nat) : Nat :=
  if id < r.floor then id else id + r.macros

/-- The color for a color. -/
def color (color : Nat) : Nat :=
  color + r.colors

/-! ## What holds numbers -/

/-- A token with the color it has under the new numbers. -/
def token (token : Token) : Token :=
  { token with color := token.color.map r.color }

/-- A name with the color it has under the new numbers. -/
def identifier (identifier : Identifier) : Identifier :=
  identifier.recolor r.color

/-- A call under the new numbers.  The name of a macro has no color. -/
def call (call : Invocation) : Invocation :=
  { call with
    macroId := r.macroId call.macroId
    tokens := call.tokens.map r.token
    scopes := call.scopes.map r.scope }

/-- A macro declaration under the new numbers. -/
def declared (declared : MacroStmt) : MacroStmt :=
  { declared with macroId := r.macroId declared.macroId }

/-- A leaf under the new numbers. -/
def leaf : Leaf → Leaf
  | .binding name => .binding (r.identifier name)
  | .reference name => .reference (r.identifier name)
  | .call use => .call (r.call use)
  | .declaration macroStmt => .declaration (r.declared macroStmt)

mutual

/-- A pattern element under the new numbers. -/
def element : PatternElement → PatternElement
  | .token expected => .token (r.token expected)
  | .capture name kind span => .capture name kind span
  | .repetition content separator span =>
    .repetition (elements content) (r.token separator) span

/-- Pattern elements under the new numbers. -/
def elements : List PatternElement → List PatternElement
  | [] => []
  | first :: rest => element first :: elements rest

end

/-- A rule under the new numbers. -/
def rule (rule : Rule) : Rule :=
  { rule with pattern := r.elements rule.pattern, template := rule.template.map r.token }

/-- A macro under the new numbers. -/
def definition (definition : MacroDef) : MacroDef :=
  { definition with
    rules := definition.rules.map r.rule
    scopes := definition.scopes.map r.scope }

/-- The hygiene of an expansion under the new numbers. -/
def hygiene (hygiene : Hygiene) : Hygiene :=
  { hygiene with
    declarationScopes := hygiene.declarationScopes.map r.scope
    invocationScopes := hygiene.invocationScopes.map r.scope
    color := hygiene.color.map r.color }

/-! ## Trees -/

mutual

/-- An expression under the new numbers. -/
def expr : Expr → Expr
  | .invocation use => .invocation (r.call use)
  | .identifier name => .identifier (r.identifier name)
  | .literal literal => .literal literal
  | .this span => .this span
  | .array elements span => .array (exprs elements) span
  | .object properties span => .object (propertyList properties) span
  | .function inner => .function (function inner)
  | .arrow inner => .arrow (arrow inner)
  | .unary op argument span => .unary op (expr argument) span
  | .update op before argument span => .update op before (expr argument) span
  | .binary op left right span => .binary op (expr left) (expr right) span
  | .assign op target value span => .assign op (expr target) (expr value) span
  | .conditional test consequent alternate span =>
    .conditional (expr test) (expr consequent) (expr alternate) span
  | .call callee arguments isOptional span => .call (expr callee) (exprs arguments) isOptional span
  | .construct callee arguments span => .construct (expr callee) (exprs arguments) span
  | .member object key isOptional span => .member (expr object) (memberKey key) isOptional span
  | .sequence expressions span => .sequence (exprs expressions) span

def exprs : List Expr → List Expr
  | [] => []
  | first :: rest => expr first :: exprs rest

def expr? : Option Expr → Option Expr
  | none => none
  | some value => some (expr value)

def memberKey : MemberKey Expr → MemberKey Expr
  | .named name => .named name
  | .computed value => .computed (expr value)

def propertyKey : PropertyKey Expr → PropertyKey Expr
  | .identifier name => .identifier name
  | .string raw => .string raw
  | .number raw => .number raw
  | .computed value => .computed (expr value)

def property : Property Expr → Property Expr
  | ⟨key, value, shorthand, span⟩ => ⟨propertyKey key, expr value, shorthand, span⟩

def propertyList : List (Property Expr) → List (Property Expr)
  | [] => []
  | first :: rest => property first :: propertyList rest

def function : Function Stmt → Function Stmt
  | ⟨name, params, body, span⟩ =>
    ⟨name.map r.identifier, params.map r.identifier, block body, span⟩

def arrow : Arrow Expr Stmt → Arrow Expr Stmt
  | ⟨params, body, span⟩ => ⟨params.map r.identifier, arrowBody body, span⟩

def arrowBody : ArrowBody Expr Stmt → ArrowBody Expr Stmt
  | .expression value => .expression (expr value)
  | .block inner => .block (block inner)

def block : Block Stmt → Block Stmt
  | ⟨body, span⟩ => ⟨stmts body, span⟩

def block? : Option (Block Stmt) → Option (Block Stmt)
  | none => none
  | some inner => some (block inner)

def declarator : Declarator Expr → Declarator Expr
  | ⟨id, init, span⟩ => ⟨r.identifier id, expr? init, span⟩

def declaratorList : List (Declarator Expr) → List (Declarator Expr)
  | [] => []
  | first :: rest => declarator first :: declaratorList rest

def declaration : Declaration Expr → Declaration Expr
  | ⟨kind, declarators, span⟩ => ⟨kind, declaratorList declarators, span⟩

def forInit : ForInit Expr → ForInit Expr
  | .declaration inner => .declaration (declaration inner)
  | .expression value => .expression (expr value)

def forInit? : Option (ForInit Expr) → Option (ForInit Expr)
  | none => none
  | some init => some (forInit init)

def forHead : ForHead Expr → ForHead Expr
  | .declared kind id => .declared kind (r.identifier id)
  | .target target => .target (expr target)

def handler : Catch Stmt → Catch Stmt
  | ⟨param, body, span⟩ => ⟨param.map r.identifier, block body, span⟩

def handler? : Option (Catch Stmt) → Option (Catch Stmt)
  | none => none
  | some clause => some (handler clause)

def alternative : Case Expr Stmt → Case Expr Stmt
  | ⟨test, body, span⟩ => ⟨expr? test, stmts body, span⟩

def alternatives : List (Case Expr Stmt) → List (Case Expr Stmt)
  | [] => []
  | first :: rest => alternative first :: alternatives rest

/-- A statement under the new numbers. -/
def stmt : Stmt → Stmt
  | .macroDeclaration macroStmt => .macroDeclaration (r.declared macroStmt)
  | .expression value span => .expression (expr value) span
  | .declaration inner => .declaration (declaration inner)
  | .function inner => .function (function inner)
  | .returns argument span => .returns (expr? argument) span
  | .ifElse test consequent alternate span =>
    .ifElse (expr test) (stmt consequent) (stmt? alternate) span
  | .forLoop init test update body span =>
    .forLoop (forInit? init) (expr? test) (expr? update) (stmt body) span
  | .forEach kind left right body span =>
    .forEach kind (forHead left) (expr right) (stmt body) span
  | .whileLoop test body span => .whileLoop (expr test) (stmt body) span
  | .doWhile body test span => .doWhile (stmt body) (expr test) span
  | .breaks span => .breaks span
  | .continues span => .continues span
  | .throws argument span => .throws (expr argument) span
  | .tryCatch inner clause finalizer span =>
    .tryCatch (block inner) (handler? clause) (block? finalizer) span
  | .switch discriminant cases span => .switch (expr discriminant) (alternatives cases) span
  | .block inner => .block (block inner)
  | .empty span => .empty span

def stmt? : Option Stmt → Option Stmt
  | none => none
  | some inner => some (stmt inner)

def stmts : List Stmt → List Stmt
  | [] => []
  | first :: rest => stmt first :: stmts rest

end

/-- A program under the new numbers. -/
def program (program : Program) : Program :=
  r.block program

theorem exprs_eq_map (list : List Expr) : r.exprs list = list.map r.expr := by
  induction list with
  | nil => simp [exprs]
  | cons first rest ih => simp [exprs, ih]

theorem propertyList_eq_map (list : List (Property Expr)) :
    r.propertyList list = list.map r.property := by
  induction list with
  | nil => simp [propertyList]
  | cons first rest ih => simp [propertyList, ih]

theorem declaratorList_eq_map (list : List (Declarator Expr)) :
    r.declaratorList list = list.map r.declarator := by
  induction list with
  | nil => simp [declaratorList]
  | cons first rest ih => simp [declaratorList, ih]

theorem stmts_eq_map (list : List Stmt) : r.stmts list = list.map r.stmt := by
  induction list with
  | nil => simp [stmts]
  | cons first rest ih => simp [stmts, ih]

/-! ## What stays -/

@[simp]
theorem function_span (inner : Function Stmt) : (r.function inner).span = inner.span := by
  cases inner
  rfl

@[simp]
theorem declaration_span (inner : Declaration Expr) :
    (r.declaration inner).span = inner.span := by
  cases inner
  rfl

@[simp]
theorem expr_span (value : Expr) : (r.expr value).span = value.span := by
  cases value with
  | identifier name => exact Identifier.recolor_span name _
  | function inner => exact r.function_span inner
  | arrow inner => cases inner; rfl
  | _ => rfl

@[simp]
theorem expr_isAssignmentTarget (value : Expr) :
    (r.expr value).isAssignmentTarget = value.isAssignmentTarget := by
  cases value <;> rfl

@[simp]
theorem stmt_span (value : Stmt) : (r.stmt value).span = value.span := by
  cases value with
  | declaration inner => exact r.declaration_span inner
  | function inner => exact r.function_span inner
  | block inner => cases inner; rfl
  | _ => rfl

/-! ## Trees whose numbers stay -/

/-- The leaves among the marks keep their numbers. -/
def Fixes (marks : List Mark) : Prop :=
  ∀ leaf, .leaf leaf ∈ marks → r.leaf leaf = leaf

section Fixes

variable {r} {first second : List Mark}

theorem Fixes.left (fixed : r.Fixes (first ++ second)) : r.Fixes first :=
  fun leaf mem => fixed leaf (List.mem_append_left _ mem)

theorem Fixes.right (fixed : r.Fixes (first ++ second)) : r.Fixes second :=
  fun leaf mem => fixed leaf (List.mem_append_right _ mem)

theorem Fixes.behind {mark : Mark} (fixed : r.Fixes (mark :: second)) : r.Fixes second :=
  fun other mem => fixed other (List.mem_cons_of_mem _ mem)

theorem Fixes.enclosed (fixed : r.Fixes (Mark.enclosed first)) : r.Fixes first :=
  fixed.behind.left

theorem Fixes.binding {name : Identifier} (fixed : r.Fixes (.binding name :: second)) :
    r.identifier name = name :=
  Leaf.binding.inj (fixed _ List.mem_cons_self)

theorem Fixes.names {names : List Identifier} (fixed : r.Fixes (names.map .binding)) :
    names.map r.identifier = names := by
  induction names with
  | nil => rfl
  | cons name rest ih =>
    rw [List.map_cons, ih (Fixes.behind fixed), Fixes.binding fixed]

theorem Fixes.name {name : Option Identifier} (fixed : r.Fixes (name.toList.map .binding)) :
    name.map r.identifier = name := by
  cases name with
  | none => rfl
  | some name => rw [Option.map_some, Fixes.binding fixed]

end Fixes

mutual

theorem expr_of_fixes : ∀ expr, r.Fixes (Mark.ofExpr expr) → r.expr expr = expr
  | .invocation _, fixed => congrArg Expr.invocation (Leaf.call.inj (fixed _ List.mem_cons_self))
  | .identifier _, fixed =>
    congrArg Expr.identifier (Leaf.reference.inj (fixed _ List.mem_cons_self))
  | .literal _, _
  | .this _, _ => rfl
  | .array elements _, fixed => by rw [expr, exprs_of_fixes elements fixed]
  | .object properties _, fixed => by rw [expr, properties_of_fixes properties fixed]
  | .function function, fixed => by
    rw [expr, function_of_fixes function fixed.enclosed.left fixed.enclosed.right]
  | .arrow arrow, fixed => by rw [expr, arrow_of_fixes arrow fixed.enclosed]
  | .unary _ argument _, fixed
  | .update _ _ argument _, fixed => by rw [expr, expr_of_fixes argument fixed]
  | .binary _ left right _, fixed => by
    rw [expr, expr_of_fixes left fixed.left, expr_of_fixes right fixed.right]
  | .assign _ target value _, fixed => by
    rw [expr, expr_of_fixes target fixed.left, expr_of_fixes value fixed.right]
  | .conditional test consequent alternate _, fixed => by
    rw [expr, expr_of_fixes test fixed.left.left, expr_of_fixes consequent fixed.left.right,
      expr_of_fixes alternate fixed.right]
  | .call callee arguments _ _, fixed
  | .construct callee arguments _, fixed => by
    rw [expr, expr_of_fixes callee fixed.left, exprs_of_fixes arguments fixed.right]
  | .member object key _ _, fixed => by
    rw [expr, expr_of_fixes object fixed.left, memberKey_of_fixes key fixed.right]
  | .sequence expressions _, fixed => by rw [expr, exprs_of_fixes expressions fixed]

theorem exprs_of_fixes : ∀ list, r.Fixes (Mark.ofExprs list) → r.exprs list = list
  | [], _ => rfl
  | expr :: rest, fixed => by
    rw [exprs, expr_of_fixes expr fixed.left, exprs_of_fixes rest fixed.right]

theorem expr?_of_fixes : ∀ optional, r.Fixes (Mark.ofExpr? optional) → r.expr? optional = optional
  | none, _ => rfl
  | some expr, fixed => by rw [expr?, expr_of_fixes expr fixed]

theorem memberKey_of_fixes : ∀ key, r.Fixes (Mark.ofMemberKey key) → r.memberKey key = key
  | .named _, _ => rfl
  | .computed value, fixed => by rw [memberKey, expr_of_fixes value fixed]

theorem propertyKey_of_fixes : ∀ key, r.Fixes (Mark.ofPropertyKey key) → r.propertyKey key = key
  | .identifier _, _
  | .string _, _
  | .number _, _ => rfl
  | .computed value, fixed => by rw [propertyKey, expr_of_fixes value fixed]

theorem properties_of_fixes :
    ∀ list, r.Fixes (Mark.ofProperties list) → r.propertyList list = list
  | [], _ => rfl
  | ⟨key, value, _, _⟩ :: rest, fixed => by
    rw [propertyList, property, propertyKey_of_fixes key fixed.left.left,
      expr_of_fixes value fixed.left.right, properties_of_fixes rest fixed.right]

theorem function_of_fixes : ∀ inner, r.Fixes (inner.name.toList.map .binding) →
    r.Fixes (Mark.ofFunctionRest inner) → r.function inner = inner
  | ⟨_, _, body, _⟩, named, fixed => by
    rw [function, named.name, fixed.left.names, block_of_fixes body fixed.right]

theorem arrow_of_fixes : ∀ inner, r.Fixes (Mark.ofArrow inner) → r.arrow inner = inner
  | ⟨_, .expression value, _⟩, fixed => by
    rw [arrow, arrowBody, fixed.left.names, expr_of_fixes value fixed.right]
  | ⟨_, .block body, _⟩, fixed => by
    rw [arrow, arrowBody, fixed.left.names, block_of_fixes body fixed.right]

theorem block_of_fixes : ∀ inner, r.Fixes (Mark.ofBlock inner) → r.block inner = inner
  | ⟨body, _⟩, fixed => by rw [block, stmts_of_fixes body fixed]

theorem block?_of_fixes : ∀ inner, r.Fixes (Mark.ofBlock? inner) → r.block? inner = inner
  | none, _ => rfl
  | some inner, fixed => by rw [block?, block_of_fixes inner fixed.enclosed]

theorem declarators_of_fixes :
    ∀ list, r.Fixes (Mark.ofDeclarators list) → r.declaratorList list = list
  | [], _ => rfl
  | ⟨id, init, _⟩ :: rest, fixed => by
    have here : r.Fixes (.binding id :: Mark.ofExpr? init) := fixed.left
    rw [declaratorList, declarator, here.binding, expr?_of_fixes init here.behind,
      declarators_of_fixes rest fixed.right]

theorem declaration_of_fixes :
    ∀ inner, r.Fixes (Mark.ofDeclaration inner) → r.declaration inner = inner
  | ⟨_, declarators, _⟩, fixed => by rw [declaration, declarators_of_fixes declarators fixed]

theorem forInit?_of_fixes : ∀ init, r.Fixes (Mark.ofForInit? init) → r.forInit? init = init
  | none, _ => rfl
  | some (.declaration inner), fixed => by
    rw [forInit?, forInit, declaration_of_fixes inner fixed]
  | some (.expression value), fixed => by rw [forInit?, forInit, expr_of_fixes value fixed]

theorem forHead_of_fixes : ∀ head, r.Fixes (Mark.ofForHead head) → r.forHead head = head
  | .declared _ _, fixed => by rw [forHead, fixed.binding]
  | .target target, fixed => by rw [forHead, expr_of_fixes target fixed]

theorem handler?_of_fixes : ∀ clause, r.Fixes (Mark.ofCatch? clause) → r.handler? clause = clause
  | none, _ => rfl
  | some ⟨_, body, _⟩, fixed => by
    rw [handler?, handler, fixed.enclosed.left.name, block_of_fixes body fixed.enclosed.right]

theorem alternatives_of_fixes :
    ∀ list, r.Fixes (Mark.ofCases list) → r.alternatives list = list
  | [], _ => rfl
  | ⟨test, body, _⟩ :: rest, fixed => by
    rw [alternatives, alternative, expr?_of_fixes test fixed.left.left,
      stmts_of_fixes body fixed.left.right, alternatives_of_fixes rest fixed.right]

theorem stmt_of_fixes : ∀ stmt, r.Fixes (Mark.ofStmt stmt) → r.stmt stmt = stmt
  | .macroDeclaration _, fixed =>
    congrArg Stmt.macroDeclaration (Leaf.declaration.inj (fixed _ List.mem_cons_self))
  | .expression value _, fixed => by rw [stmt, expr_of_fixes value fixed]
  | .declaration inner, fixed => by rw [stmt, declaration_of_fixes inner fixed]
  | .function inner, fixed => by
    rw [stmt, function_of_fixes inner fixed.left fixed.right.enclosed]
  | .returns argument _, fixed => by rw [stmt, expr?_of_fixes argument fixed]
  | .ifElse test consequent alternate _, fixed => by
    rw [stmt, expr_of_fixes test fixed.left.left, stmt_of_fixes consequent fixed.left.right,
      stmt?_of_fixes alternate fixed.right]
  | .forLoop init test update body _, fixed => by
    have inner := fixed.enclosed
    rw [stmt, forInit?_of_fixes init inner.left.left.left,
      expr?_of_fixes test inner.left.left.right, expr?_of_fixes update inner.left.right,
      stmt_of_fixes body inner.right]
  | .forEach _ left right body _, fixed => by
    have inner := fixed.enclosed
    rw [stmt, forHead_of_fixes left inner.left.left, expr_of_fixes right inner.left.right,
      stmt_of_fixes body inner.right]
  | .whileLoop test body _, fixed => by
    rw [stmt, expr_of_fixes test fixed.left, stmt_of_fixes body fixed.right]
  | .doWhile body test _, fixed => by
    rw [stmt, stmt_of_fixes body fixed.left, expr_of_fixes test fixed.right]
  | .breaks _, _
  | .continues _, _ => rfl
  | .throws argument _, fixed => by rw [stmt, expr_of_fixes argument fixed]
  | .tryCatch inner clause finalizer _, fixed => by
    rw [stmt, block_of_fixes inner fixed.left.left.enclosed,
      handler?_of_fixes clause fixed.left.right, block?_of_fixes finalizer fixed.right]
  | .switch discriminant cases _, fixed => by
    rw [stmt, expr_of_fixes discriminant fixed.left,
      alternatives_of_fixes cases fixed.right.enclosed]
  | .block inner, fixed => by rw [stmt, block_of_fixes inner fixed.enclosed]
  | .empty _, _ => rfl

theorem stmt?_of_fixes : ∀ optional, r.Fixes (Mark.ofStmt? optional) → r.stmt? optional = optional
  | none, _ => rfl
  | some stmt, fixed => by rw [stmt?, stmt_of_fixes stmt fixed]

theorem stmts_of_fixes : ∀ list, r.Fixes (Mark.ofStmts list) → r.stmts list = list
  | [], _ => rfl
  | stmt :: rest, fixed => by
    rw [stmts, stmt_of_fixes stmt fixed.left, stmts_of_fixes rest fixed.right]

end

/-- A program whose leaves keep their numbers stays as it is. -/
theorem program_of_fixes (program : Program) (fixed : r.Fixes (Mark.ofProgram program)) :
    r.program program = program :=
  r.block_of_fixes program fixed

/-! ## Balanced runs -/

@[simp]
theorem token_isEnd (token : Token) : (r.token token).isEnd = token.isEnd :=
  rfl

/-- How reading a balanced run ended, under the new numbers. -/
def outcome : Balanced.Outcome → Balanced.Outcome
  | .closed tree rest => .closed (tree.map r.token) (rest.map r.token)
  | .mismatched found rest => .mismatched (r.token found) (rest.map r.token)
  | .unfinished rest => .unfinished (rest.map r.token)

theorem outcome_cons (token : Token) (outcome : Balanced.Outcome) :
    r.outcome (outcome.cons token) = (r.outcome outcome).cons (r.token token) := by
  cases outcome <;> rfl

theorem takeWithin_map (closer : String) (inner : List String) (tokens : List Token) :
    Balanced.takeWithin closer inner (tokens.map r.token) =
      r.outcome (Balanced.takeWithin closer inner tokens) := by
  induction tokens generalizing inner with
  | nil => rfl
  | cons token rest ih =>
    have isEnd : (r.token token).isEnd = token.isEnd := rfl
    have isPunct (text : String) : (r.token token).isPunct text = token.isPunct text := rfl
    have isCloser : (r.token token).isCloser = token.isCloser := rfl
    have closer? : (r.token token).closer? = token.closer? := rfl
    simp only [List.map_cons, Balanced.takeWithin, isEnd, isPunct, isCloser, closer?, ih]
    repeat' split
    all_goals first | rfl | rw [outcome_cons]

theorem take_map (closer : String) (tokens : List Token) :
    Balanced.take closer (tokens.map r.token) = r.outcome (Balanced.take closer tokens) :=
  r.takeWithin_map closer [] tokens

theorem closeOffsetWithin?_map (stack : List String) (tokens : List Token) :
    Balanced.closeOffsetWithin? stack (tokens.map r.token) =
      Balanced.closeOffsetWithin? stack tokens := by
  induction tokens generalizing stack with
  | nil => rfl
  | cons token rest ih =>
    have isCloser : (r.token token).isCloser = token.isCloser := rfl
    have closer? : (r.token token).closer? = token.closer? := rfl
    have text : (r.token token).text = token.text := rfl
    simp only [List.map_cons, Balanced.closeOffsetWithin?, isCloser, closer?, text, ih]

/-! ## Cursors -/

/-- A cursor over tokens under the new numbers. -/
def cursor (cursor : Cursor) : Cursor :=
  { cursor with tokens := cursor.tokens.map r.token, finish := r.token cursor.finish }

variable (cursor : Cursor)

@[simp]
theorem cursor_tokenAt (index : Nat) :
    (r.cursor cursor).tokenAt index = r.token (cursor.tokenAt index) := by
  simp only [Renumbering.cursor, Cursor.tokenAt, Array.getElem?_map]
  cases cursor.tokens[index]? <;> rfl

@[simp]
theorem cursor_peek : (r.cursor cursor).peek = r.token cursor.peek :=
  r.cursor_tokenAt cursor cursor.index

@[simp]
theorem cursor_peekAt (offset : Nat) :
    (r.cursor cursor).peekAt offset = r.token (cursor.peekAt offset) :=
  r.cursor_tokenAt cursor (cursor.index + offset)

@[simp]
theorem cursor_remaining : (r.cursor cursor).remaining = cursor.remaining := by
  simp [Renumbering.cursor, Cursor.remaining]

@[simp]
theorem cursor_rest : (r.cursor cursor).rest = cursor.rest.map r.token := by
  simp [Renumbering.cursor, Cursor.rest, List.map_drop]

@[simp]
theorem cursor_previousSpan : (r.cursor cursor).previousSpan = cursor.previousSpan := by
  rcases cursor with ⟨tokens, finish, index, allowIn⟩
  cases index with
  | zero => rfl
  | succ index =>
    simp only [Renumbering.cursor, Cursor.previousSpan, Cursor.previous?, Array.getElem?_map]
    cases tokens[index]? <;> rfl

theorem cursor_advance : (r.cursor cursor).advance = r.cursor cursor.advance := by
  simp only [Renumbering.cursor, Cursor.advance, Array.size_map]
  split <;> rfl

theorem cursor_eatPunct (text : String) :
    (r.cursor cursor).eatPunct text = (cursor.eatPunct text).map r.cursor := by
  have same : (r.cursor cursor).atPunct text = cursor.atPunct text := by
    rw [Cursor.atPunct, cursor_peek]
    rfl
  simp only [Cursor.eatPunct, same]
  split <;> rfl

theorem cursor_eatReserved (text : String) :
    (r.cursor cursor).eatReserved text = (cursor.eatReserved text).map r.cursor := by
  have same : (r.cursor cursor).atReserved text = cursor.atReserved text := by
    rw [Cursor.atReserved, cursor_peek]
    rfl
  simp only [Cursor.eatReserved, same]
  split <;> rfl

@[simp]
theorem cursor_closeIndex? (start : Nat) :
    (r.cursor cursor).closeIndex? start = cursor.closeIndex? start := by
  simp only [Renumbering.cursor, Cursor.closeIndex?, Array.toList_map, ← List.map_drop,
    closeOffsetWithin?_map]

theorem cursor_ofTokens (tokens : List Token) :
    r.cursor (.ofTokens tokens) = .ofTokens (tokens.map r.token) := by
  unfold Cursor.ofTokens
  rw [List.getLast?_map]
  cases tokens.getLast? with
  | none => simp [Renumbering.cursor, token, Token.endAt]
  | some last =>
    have finish : r.token (Cursor.finishAfter last) = Cursor.finishAfter (r.token last) := rfl
    by_cases isEnd : last.isEnd = true
    · simp [Renumbering.cursor, isEnd, List.map_dropLast]
    · simp [Renumbering.cursor, isEnd, finish]

/-! ## Scopes and colors that stay -/

section

variable {r : Renumbering}

theorem color_of_still (colors : r.colors = 0) : r.color = id := by
  funext color
  simp [Renumbering.color, colors]

theorem scope_of_still (scopes : r.scopes = 0) : r.scope = id := by
  funext id
  simp [Renumbering.scope, scopes]

theorem token_of_still (colors : r.colors = 0) : r.token = id := by
  funext token
  rw [Renumbering.token, color_of_still colors, Option.map_id]
  rfl

theorem cursor_of_still (colors : r.colors = 0) (cursor : Cursor) : r.cursor cursor = cursor := by
  rw [Renumbering.cursor, token_of_still colors, Array.map_id]
  rfl

mutual

theorem element_of_still (colors : r.colors = 0) : ∀ element, r.element element = element
  | .token expected => by
    rw [Renumbering.element, token_of_still colors]
    rfl
  | .capture _ _ _ => rfl
  | .repetition content separator _ => by
    rw [Renumbering.element, elements_of_still colors content, token_of_still colors]
    rfl

theorem elements_of_still (colors : r.colors = 0) : ∀ elements, r.elements elements = elements
  | [] => rfl
  | first :: rest => by
    rw [Renumbering.elements, element_of_still colors first, elements_of_still colors rest]

end

theorem rule_of_still (colors : r.colors = 0) : r.rule = id := by
  funext rule
  rw [Renumbering.rule, elements_of_still colors, token_of_still colors, List.map_id]
  rfl

theorem definition_of_still (colors : r.colors = 0) (scopes : r.scopes = 0)
    (definition : MacroDef) : r.definition definition = definition := by
  rw [Renumbering.definition, rule_of_still colors, scope_of_still scopes, List.map_id, List.map_id]

theorem call_of_still (colors : r.colors = 0) (scopes : r.scopes = 0) {call : Invocation}
    (kept : r.macroId call.macroId = call.macroId) : r.call call = call := by
  rw [Renumbering.call, kept, token_of_still colors, scope_of_still scopes, List.map_id,
    List.map_id]

end

end Renumbering

end MacroScript
