import MacroScript.Proofs.Mark
import MacroScript.Proofs.Outcome
import MacroScript.Proofs.Renumbering
import MacroScript.Splice

/-!
# What splicing does to a tree

Splicing handles the names, literals and macro nodes of a tree one after the other: names
and literals are kept, macro declarations disappear, and every call is replaced by its
expansion.  `Spliced` has one constructor for each of these and for each way to put such
actions together.  It compares two actions that are put together in the same way, where the
second one works on the renumbered tree.

Splicing any tree is an action of this kind.  Every statement about spliced programs follows
from this without looking at the functions again.

`Replaced` says what becomes of the leaves of a tree, together with the session that the
handler of calls changes on the way.
-/

namespace MacroScript

/-! ## Marks without scopes -/

namespace Mark

/-- Whether a scope opens or closes at the mark. -/
def isScope : Mark → Bool
  | .enter => true
  | .exit => true
  | .leaf _ => false
  | .literal _ => false

/-- The marks at which no scope opens or closes. -/
def contents (marks : List Mark) : List Mark :=
  marks.filter fun mark => !mark.isScope

@[simp]
theorem contents_append (first second : List Mark) :
    contents (first ++ second) = contents first ++ contents second :=
  List.filter_append ..

@[simp]
theorem contents_cons_leaf (leaf : Leaf) (rest : List Mark) :
    contents (.leaf leaf :: rest) = .leaf leaf :: contents rest :=
  rfl

@[simp]
theorem contents_enclosed (marks : List Mark) : contents (enclosed marks) = contents marks := by
  simp [contents, enclosed, isScope]

@[simp]
theorem contents_bindings (names : List Identifier) :
    contents (names.map .binding) = names.map .binding := by
  simp [contents, isScope]

theorem leaves_contents (marks : List Mark) : leaves (contents marks) = leaves marks := by
  induction marks with
  | nil => rfl
  | cons mark rest ih =>
    cases mark with
    | enter
    | exit => exact ih
    | leaf held => simp [ih]
    | literal value => exact ih

theorem ofStmts_append (first second : List Stmt) :
    ofStmts (first ++ second) = ofStmts first ++ ofStmts second := by
  simp [ofStmts_eq_flatMap]

/-- What stands for statements in a single place has their marks, and at most a scope more. -/
@[simp]
theorem contents_asBody (span : Span) (stmts : List Stmt) :
    contents (ofStmt (Splice.asBody span stmts)) = contents (ofStmts stmts) := by
  match stmts with
  | [] => rfl
  | [stmt] => simp [Splice.asBody, ofStmts]
  | first :: second :: rest => simp [Splice.asBody, ofStmt, ofBlock]

end Mark

namespace Splice

open MacroScript.Outcome

variable {r : Renumbering} {handler : Handler} {value : Expr} {call : Invocation}
  {program : Program}

/-! ## Statements in single places -/

theorem stmts_append (first second : List Stmt) :
    r.stmts (first ++ second) = r.stmts first ++ r.stmts second := by
  simp [r.stmts_eq_map]

/-- Statements in the place of another take its position. -/
theorem asBody_replacing (stmt : Stmt) (stmts : List Stmt) :
    asBody (r.stmt stmt).span (r.stmts stmts) = r.stmt (asBody stmt.span stmts) := by
  rw [r.stmt_span]
  match stmts with
  | [] => rfl
  | [_] => rfl
  | _ :: _ :: _ => rfl

/-- A statement that is no call and declares no macro stays one. -/
theorem spliceStmt_of_single {stmt : Stmt}
    (own : ∀ call span, stmt ≠ .expression (.invocation call) span)
    (undeclared : ∀ declared, stmt ≠ .macroDeclaration declared) :
    spliceStmt handler stmt = (do return [← spliceSingle handler stmt]) := by
  cases stmt with
  | macroDeclaration declared => exact absurd rfl (undeclared declared)
  | expression value span =>
    cases value with
    | invocation call => exact absurd rfl (own call span)
    | _ => rfl
  | _ => rfl

/-! ## Splicing piece by piece -/

/-- Two actions that handle the marks in the same way.  The marks `done` are those that the
result already has, and the result is `origin` if there are no macro nodes. -/
inductive Spliced (r : Renumbering) (one two : Handler) :
    {α : Type} → (done marks : List Mark) → (origin : α) → SessionM α → SessionM α → (α → α) →
      (α → List Mark) → Prop
  | pure {α : Type} {done : List Mark} {value other : α} {map : α → α} {view : α → List Mark}
      (same : other = map value) (seen : view value = done) :
      Spliced r one two done [] value (pure value) (pure other) map view
  | keep {α : Type} {done marks : List Mark} {origin : α} {first second : SessionM α}
      {map : α → α} {view : α → List Mark} {mark : Mark}
      (kept : ∀ leaf, mark = .leaf leaf → leaf.isMacro = false)
      (rest : Spliced r one two (done ++ [mark]) marks origin first second map view) :
      Spliced r one two done (mark :: marks) origin first second map view
  | drop {α : Type} {done marks : List Mark} {origin other : α} {first second : SessionM α}
      {map : α → α} {view : α → List Mark} {declared : MacroStmt}
      (rest : Spliced r one two done marks other first second map view) :
      Spliced r one two done (.declaration declared :: marks) origin first second map view
  | call (call : Invocation) (origin : Program) :
      Spliced r one two [] [.call call] origin (one call) (two (r.call call)) r.program
        fun program => Mark.contents (Mark.ofProgram program)
  | callExpression (call : Invocation) {origin : Expr} :
      Spliced r one two [] [.call call] origin (callExpression one call)
        (callExpression two (r.call call)) r.expr fun value => Mark.contents (Mark.ofExpr value)
  | bind {α β : Type} {done marks later : List Mark} {origin : α} {whole : β}
      {first second : SessionM α} {map : α → α} {view : α → List Mark}
      {next nextToo : α → SessionM β} {rebuilt : α → β} {resultMap : β → β}
      {result : β → List Mark}
      (front : Spliced r one two done marks origin first second map view)
      (back : ∀ value, Spliced r one two (view value) later (rebuilt value) (next value)
        (nextToo (map value)) resultMap result)
      (unchanged : rebuilt origin = whole) :
      Spliced r one two done (marks ++ later) whole (first >>= next) (second >>= nextToo)
        resultMap result
  /-- What was handled before may be put in front. -/
  | frame {α : Type} {done marks : List Mark} {origin : α} {first second : SessionM α}
      {map : α → α} {view : α → List Mark}
      (inner : Spliced r one two [] marks origin first second map view) :
      Spliced r one two done marks origin first second map fun value => done ++ view value

variable {one two : Handler} {α β : Type} {done marks later : List Mark} {origin : α} {whole : β}
  {first second : SessionM α} {map : α → α} {view : α → List Mark} {resultMap : β → β}
  {result : β → List Mark}

namespace Spliced

/-- Bound names are kept. -/
theorem names (names : List Identifier)
    (rest : Spliced r one two (done ++ names.map .binding) marks origin first second map view) :
    Spliced r one two done (names.map .binding ++ marks) origin first second map view := by
  induction names generalizing done with
  | nil => simpa using rest
  | cons name others ih =>
    refine .keep (fun leaf same => by cases same; rfl) (ih ?_)
    simpa using rest

/-- Handle something and go on. -/
theorem andThen {next nextToo : α → SessionM β} {rebuilt : α → β}
    (front : Spliced r one two [] marks origin first second map view)
    (back : ∀ value, Spliced r one two (done ++ view value) later (rebuilt value) (next value)
      (nextToo (map value)) resultMap result)
    (unchanged : rebuilt origin = whole) :
    Spliced r one two done (marks ++ later) whole (first >>= next) (second >>= nextToo) resultMap
      result :=
  front.frame.bind back unchanged

/-- An action that is followed by a change of its value. -/
theorem returning {change changeToo : α → β}
    (inner : Spliced r one two [] marks origin first second map view)
    (same : ∀ value, changeToo (map value) = resultMap (change value))
    (seen : ∀ value, result (change value) = done ++ view value)
    (unchanged : change origin = whole) :
    Spliced r one two done marks whole (do return change (← first))
      (do return changeToo (← second)) resultMap result := by
  rw [← List.append_nil marks]
  exact inner.andThen (fun value => .pure (same value) (seen value)) unchanged

/-- Handle two things one after the other. -/
theorem pair {γ : Type} {front back : List Mark} {originToo : β} {third fourth : SessionM β}
    {mapToo : β → β} {seenFirst : α → List Mark} {seenSecond : β → List Mark}
    {build buildToo : α → β → γ} {wholeMap : γ → γ} {seenWhole : γ → List Mark} {all : γ}
    (inner : Spliced r one two [] (Mark.contents front) origin first second map fun value =>
      Mark.contents (seenFirst value))
    (outer : Spliced r one two [] (Mark.contents back) originToo third fourth mapToo fun value =>
      Mark.contents (seenSecond value))
    (same : ∀ value other, buildToo (map value) (mapToo other) = wholeMap (build value other))
    (seen : ∀ value other,
      seenWhole (build value other) = Mark.contents (seenFirst value ++ seenSecond other))
    (unchanged : build origin originToo = all) :
    Spliced r one two [] (Mark.contents (front ++ back)) all
      (do let value ← first; let other ← third; return build value other)
      (do let value ← second; let other ← fourth; return buildToo value other) wholeMap
      seenWhole := by
  rw [Mark.contents_append]
  exact inner.bind (fun value => outer.returning (same value)
    (fun other => (seen value other).trans (Mark.contents_append _ _)) rfl) unchanged

end Spliced

/-- Splicing a part of a tree that has the given marks. -/
abbrev SplicedPart (r : Renumbering) (one two : Handler) {α : Type} (marks : α → List Mark)
    (splice : Handler → α → SessionM α) (map : α → α) (part : α) : Prop :=
  Spliced r one two [] (Mark.contents (marks part)) part (splice one part)
    (splice two (map part)) map fun part => Mark.contents (marks part)

/-- Splicing a statement that stays one.  A macro declaration does not get here. -/
abbrev SplicedSingle (r : Renumbering) (one two : Handler) (stmt : Stmt) : Prop :=
  (∀ declared, stmt ≠ .macroDeclaration declared) →
    SplicedPart r one two Mark.ofStmt spliceSingle r.stmt stmt

/-- A statement is spliced piece by piece if it is when it stays one: a macro declaration is
dropped, and a call that is a whole statement is replaced by all statements of its expansion. -/
theorem SplicedSingle.stmt {stmt : Stmt} (single : SplicedSingle r one two stmt) :
    Spliced r one two [] (Mark.contents (Mark.ofStmt stmt)) [stmt] (spliceStmt one stmt)
      (spliceStmt two (r.stmt stmt)) r.stmts fun stmts => Mark.contents (Mark.ofStmts stmts) := by
  have seen (stmt : Stmt) :
      Mark.contents (Mark.ofStmts [stmt]) = Mark.contents (Mark.ofStmt stmt) := by
    rw [Mark.ofStmts, Mark.ofStmts, List.append_nil]
  cases stmt with
  | macroDeclaration declared => exact .drop (.pure rfl rfl)
  | expression value span =>
    cases value with
    | invocation call =>
      refine (Spliced.call call ⟨[_], span⟩).returning (fun program => ?_) (fun program => ?_) rfl
      · cases program; rfl
      · cases program; rfl
    | _ => exact (single (by simp)).returning (fun _ => rfl) seen rfl
  | _ => exact (single (by simp)).returning (fun _ => rfl) seen rfl

/-! ## The tree -/

/-- The marks of a function, its name included. -/
def functionMarks (function : Function Stmt) : List Mark :=
  function.name.toList.map .binding ++ Mark.ofFunctionRest function

mutual

/-- Expressions are spliced piece by piece. -/
theorem spliced_expr : ∀ expr, SplicedPart r one two Mark.ofExpr spliceExpr r.expr expr
  | .identifier _ => .keep (fun _ same => by cases same; rfl) (.pure rfl rfl)
  | .literal _ => .keep (fun _ same => by cases same) (.pure rfl rfl)
  | .this _ => .pure rfl rfl
  | .array elements _ => (spliced_exprs elements).returning (fun _ => rfl) (fun _ => rfl) rfl
  | .object properties _ =>
    (spliced_properties properties).returning (fun _ => rfl) (fun _ => rfl) rfl
  | .function inner => by
    have contents (function : Function Stmt) : Mark.contents (Mark.ofExpr (.function function)) =
        Mark.contents (functionMarks function) := by
      simp [Mark.ofExpr, functionMarks]
    rw [SplicedPart, contents]
    exact (spliced_function inner).returning (fun _ => rfl) contents rfl
  | .arrow inner => by
    rw [SplicedPart, Mark.ofExpr, Mark.contents_enclosed]
    exact (spliced_arrow inner).returning (fun _ => rfl) (fun _ => Mark.contents_enclosed _) rfl
  | .unary _ argument _
  | .update _ _ argument _ => (spliced_expr argument).returning (fun _ => rfl) (fun _ => rfl) rfl
  | .binary _ left right _ =>
    (spliced_expr left).pair (spliced_expr right) (fun _ _ => rfl) (fun _ _ => rfl) rfl
  | .assign _ target value _ =>
    (spliced_expr target).pair (spliced_expr value) (fun _ _ => rfl) (fun _ _ => rfl) rfl
  | .conditional test consequent alternate _ => by
    simp only [SplicedPart, Mark.ofExpr, Mark.contents_append, List.append_assoc]
    exact (spliced_expr test).bind (fun _ => (spliced_expr consequent).andThen (fun _ =>
      (spliced_expr alternate).returning (fun _ => rfl) (fun _ => by simp [Mark.ofExpr]) rfl)
        rfl) rfl
  | .call callee arguments _ _
  | .construct callee arguments _ =>
    (spliced_expr callee).pair (spliced_exprs arguments) (fun _ _ => rfl) (fun _ _ => rfl) rfl
  | .member object key _ _ =>
    (spliced_expr object).pair (spliced_memberKey key) (fun _ _ => rfl) (fun _ _ => rfl) rfl
  | .sequence expressions _ =>
    (spliced_exprs expressions).returning (fun _ => rfl) (fun _ => rfl) rfl
  | .invocation call => .callExpression call

theorem spliced_exprs : ∀ exprs, SplicedPart r one two Mark.ofExprs spliceExprs r.exprs exprs
  | [] => .pure rfl rfl
  | expr :: rest =>
    (spliced_expr expr).pair (spliced_exprs rest) (fun _ _ => rfl) (fun _ _ => rfl) rfl

theorem spliced_expr? : ∀ expr, SplicedPart r one two Mark.ofExpr? spliceExpr? r.expr? expr
  | none => .pure rfl rfl
  | some value => (spliced_expr value).returning (fun _ => rfl) (fun _ => rfl) rfl

theorem spliced_memberKey :
    ∀ key, SplicedPart r one two Mark.ofMemberKey spliceMemberKey r.memberKey key
  | .named _ => .pure rfl rfl
  | .computed value => (spliced_expr value).returning (fun _ => rfl) (fun _ => rfl) rfl

theorem spliced_propertyKey :
    ∀ key, SplicedPart r one two Mark.ofPropertyKey splicePropertyKey r.propertyKey key
  | .identifier _
  | .string _
  | .number _ => .pure rfl rfl
  | .computed value => (spliced_expr value).returning (fun _ => rfl) (fun _ => rfl) rfl

theorem spliced_property :
    ∀ property, SplicedPart r one two Mark.ofProperty spliceProperty r.property property
  | ⟨key, value, _, _⟩ =>
    (spliced_propertyKey key).pair (spliced_expr value) (fun _ _ => rfl) (fun _ _ => rfl) rfl

theorem spliced_properties :
    ∀ properties, SplicedPart r one two Mark.ofProperties spliceProperties r.propertyList properties
  | [] => .pure rfl rfl
  | property :: rest =>
    (spliced_property property).pair (spliced_properties rest) (fun _ _ => rfl) (fun _ _ => rfl)
      rfl

theorem spliced_stmts : ∀ stmts, SplicedPart r one two Mark.ofStmts spliceStmts r.stmts stmts
  | [] => .pure rfl rfl
  | stmt :: rest =>
    (spliced_single stmt).stmt.pair (spliced_stmts rest)
      (fun here later => (stmts_append here later).symm)
      (fun here later => by rw [Mark.ofStmts_append]) rfl

theorem spliced_block : ∀ block, SplicedPart r one two Mark.ofBlock spliceBlock r.block block
  | ⟨body, _⟩ => (spliced_stmts body).returning (fun _ => rfl) (fun _ => rfl) rfl

theorem spliced_block? : ∀ block, SplicedPart r one two Mark.ofBlock? spliceBlock? r.block? block
  | none => .pure rfl rfl
  | some inner => by
    rw [SplicedPart, Mark.ofBlock?, Mark.contents_enclosed]
    exact (spliced_block inner).returning (fun _ => rfl) (fun _ => Mark.contents_enclosed _) rfl

theorem spliced_function :
    ∀ function, SplicedPart r one two functionMarks spliceFunction r.function function
  | ⟨name, params, body, _⟩ => by
    have contents (body : Block Stmt) (span : Span) :
        Mark.contents (functionMarks ⟨name, params, body, span⟩) =
          name.toList.map .binding ++
            (params.map .binding ++ Mark.contents (Mark.ofBlock body)) := by
      simp [functionMarks, Mark.ofFunctionRest]
    rw [SplicedPart, contents]
    exact .names _ (.names _ ((spliced_block body).returning (fun _ => rfl)
      (fun _ => (contents _ _).trans (List.append_assoc _ _ _).symm) rfl))

theorem spliced_arrow : ∀ arrow, SplicedPart r one two Mark.ofArrow spliceArrow r.arrow arrow
  | ⟨_, body, _⟩ => by
    rw [SplicedPart, Mark.ofArrow, Mark.contents_append, Mark.contents_bindings]
    refine .names _ ((spliced_arrowBody body).returning (fun _ => rfl) ?_ rfl)
    intro body
    simp [Mark.ofArrow]

theorem spliced_arrowBody :
    ∀ body, SplicedPart r one two Mark.ofArrowBody spliceArrowBody r.arrowBody body
  | .expression value => (spliced_expr value).returning (fun _ => rfl) (fun _ => rfl) rfl
  | .block inner => (spliced_block inner).returning (fun _ => rfl) (fun _ => rfl) rfl

theorem spliced_declarator :
    ∀ declarator, SplicedPart r one two Mark.ofDeclarator spliceDeclarator r.declarator declarator
  | ⟨id, init, _⟩ =>
    .names [id] ((spliced_expr? init).returning (fun _ => rfl) (fun _ => rfl) rfl)

theorem spliced_declarators : ∀ declarators,
    SplicedPart r one two Mark.ofDeclarators spliceDeclarators r.declaratorList declarators
  | [] => .pure rfl rfl
  | declarator :: rest =>
    (spliced_declarator declarator).pair (spliced_declarators rest) (fun _ _ => rfl)
      (fun _ _ => rfl) rfl

theorem spliced_declaration : ∀ declaration,
    SplicedPart r one two Mark.ofDeclaration spliceDeclaration r.declaration declaration
  | ⟨_, declarators, _⟩ =>
    (spliced_declarators declarators).returning (fun _ => rfl) (fun _ => rfl) rfl

theorem spliced_forInit? :
    ∀ init, SplicedPart r one two Mark.ofForInit? spliceForInit? r.forInit? init
  | none => .pure rfl rfl
  | some head =>
    (spliced_forInit head).returning (fun _ => rfl) (fun _ => rfl) rfl

theorem spliced_forInit : ∀ head, SplicedPart r one two Mark.ofForInit spliceForInit r.forInit head
  | .declaration declared =>
    (spliced_declaration declared).returning (fun _ => rfl) (fun _ => rfl) rfl
  | .expression value => (spliced_expr value).returning (fun _ => rfl) (fun _ => rfl) rfl

theorem spliced_forHead : ∀ head, SplicedPart r one two Mark.ofForHead spliceForHead r.forHead head
  | .declared _ id => .names [id] (.pure rfl rfl)
  | .target target => (spliced_expr target).returning (fun _ => rfl) (fun _ => rfl) rfl

theorem spliced_catch : ∀ clause, SplicedPart r one two Mark.ofCatch spliceCatch r.handler clause
  | ⟨_, body, _⟩ => by
    rw [SplicedPart, Mark.ofCatch, Mark.contents_append, Mark.contents_bindings]
    refine .names _ ((spliced_block body).returning (fun _ => rfl) ?_ rfl)
    intro body
    simp [Mark.ofCatch]

theorem spliced_catch? :
    ∀ clause, SplicedPart r one two Mark.ofCatch? spliceCatch? r.handler? clause
  | none => .pure rfl rfl
  | some inner => by
    rw [SplicedPart, Mark.ofCatch?, Mark.contents_enclosed]
    exact (spliced_catch inner).returning (fun _ => rfl) (fun _ => Mark.contents_enclosed _) rfl

theorem spliced_case : ∀ case, SplicedPart r one two Mark.ofCase spliceCase r.alternative case
  | ⟨test, body, _⟩ =>
    (spliced_expr? test).pair (spliced_stmts body) (fun _ _ => rfl) (fun _ _ => rfl) rfl

theorem spliced_cases :
    ∀ cases, SplicedPart r one two Mark.ofCases spliceCases r.alternatives cases
  | [] => .pure rfl rfl
  | case :: rest =>
    (spliced_case case).pair (spliced_cases rest) (fun _ _ => rfl) (fun _ _ => rfl) rfl

/-- Statements are spliced piece by piece. -/
theorem spliced_single : ∀ stmt, SplicedSingle r one two stmt
  | .expression value _, _ => (spliced_expr value).returning (fun _ => rfl) (fun _ => rfl) rfl
  | .declaration declared, _ =>
    (spliced_declaration declared).returning (fun _ => rfl) (fun _ => rfl) rfl
  | .function inner, _ => by
    have contents (function : Function Stmt) : Mark.contents (Mark.ofStmt (.function function)) =
        Mark.contents (functionMarks function) := by
      simp [Mark.ofStmt, functionMarks]
    rw [SplicedPart, contents]
    exact (spliced_function inner).returning (fun _ => rfl) contents rfl
  | .returns argument _, _ =>
    (spliced_expr? argument).returning (fun _ => rfl) (fun _ => rfl) rfl
  | .ifElse test consequent alternate _, _ => by
    simp only [SplicedPart, Mark.ofStmt, Mark.contents_append, List.append_assoc]
    refine (spliced_expr test).bind (fun test => (spliced_single consequent).stmt.andThen
      (fun body => (spliced_body? alternate).returning (fun alternate => ?_)
        (fun alternate => ?_) rfl) rfl) rfl
    · rw [asBody_replacing]
      rfl
    · simp [Mark.ofStmt]
  | .forLoop init test update body _, _ => by
    simp only [SplicedPart, Mark.ofStmt, Mark.contents_enclosed, Mark.contents_append,
      List.append_assoc]
    refine (spliced_forInit? init).bind (fun init => (spliced_expr? test).andThen (fun test =>
      (spliced_expr? update).andThen (fun update => (spliced_single body).stmt.returning
        (fun stmts => ?_) (fun stmts => ?_) rfl) rfl) rfl) rfl
    · rw [asBody_replacing]
      rfl
    · simp [Mark.ofStmt]
  | .forEach _ left right body _, _ => by
    simp only [SplicedPart, Mark.ofStmt, Mark.contents_enclosed, Mark.contents_append,
      List.append_assoc]
    refine (spliced_forHead left).bind (fun left => (spliced_expr right).andThen (fun right =>
      (spliced_single body).stmt.returning (fun stmts => ?_) (fun stmts => ?_) rfl) rfl) rfl
    · rw [asBody_replacing]
      rfl
    · simp [Mark.ofStmt]
  | .whileLoop test body _, _ => by
    refine (spliced_expr test).pair (spliced_single body).stmt (fun test stmts => ?_)
      (fun test stmts => ?_) rfl
    · rw [asBody_replacing]
      rfl
    · simp [Mark.ofStmt]
  | .doWhile body test _, _ => by
    refine (spliced_single body).stmt.pair (spliced_expr test) (fun stmts test => ?_)
      (fun stmts test => ?_) rfl
    · rw [asBody_replacing]
      rfl
    · simp [Mark.ofStmt]
  | .breaks _, _
  | .continues _, _ => .pure rfl rfl
  | .throws argument _, _ => (spliced_expr argument).returning (fun _ => rfl) (fun _ => rfl) rfl
  | .tryCatch inner clause finalizer _, _ => by
    simp only [SplicedPart, Mark.ofStmt, Mark.contents_enclosed, Mark.contents_append,
      List.append_assoc]
    exact (spliced_block inner).bind (fun _ => (spliced_catch? clause).andThen (fun _ =>
      (spliced_block? finalizer).returning (fun _ => rfl)
        (fun _ => by simp [Mark.ofStmt]) rfl) rfl) rfl
  | .switch discriminant cases _, _ => by
    simp only [SplicedPart, Mark.ofStmt, Mark.contents_enclosed, Mark.contents_append]
    exact (spliced_expr discriminant).bind (fun _ => (spliced_cases cases).returning
      (fun _ => rfl) (fun _ => by simp [Mark.ofStmt]) rfl) rfl
  | .block inner, _ => by
    rw [SplicedPart, Mark.ofStmt, Mark.contents_enclosed]
    exact (spliced_block inner).returning (fun _ => rfl) (fun _ => Mark.contents_enclosed _) rfl
  | .empty _, _ => .pure rfl rfl
  | .macroDeclaration declared, undeclared => absurd rfl (undeclared declared)

theorem spliced_body? : ∀ stmt, SplicedPart r one two Mark.ofStmt? spliceBody? r.stmt? stmt
  | none => .pure rfl rfl
  | some inner =>
    (spliced_single inner).stmt.returning (fun body => congrArg some (asBody_replacing inner body))
      (fun body => Mark.contents_asBody _ body) rfl

end

/-- Programs are spliced piece by piece. -/
theorem spliced_spliceProgram (r : Renumbering) (one two : Handler) (program : Program) :
    SplicedPart r one two Mark.ofProgram spliceProgram r.program program :=
  spliced_block program

/-! ## Leaves -/

/-- The second list of leaves is the first one with declarations dropped and with
every call replaced by the leaves of its expansion.  The session runs through the
expansions from left to right. -/
inductive Replaced (handler : Handler) : List Leaf → Session → List Leaf → Session → Prop where
  | nil (session : Session) : Replaced handler [] session [] session
  | keep {leaf : Leaf} {leaves spliced : List Leaf} {session after : Session}
      (kept : leaf.isMacro = false) (rest : Replaced handler leaves session spliced after) :
      Replaced handler (leaf :: leaves) session (leaf :: spliced) after
  | drop {declaration : MacroStmt} {leaves spliced : List Leaf} {session after : Session}
      (rest : Replaced handler leaves session spliced after) :
      Replaced handler (.declaration declaration :: leaves) session spliced after
  | call {invocation : Invocation} {program : Program} {leaves spliced : List Leaf}
      {session middle after : Session} (expanded : handler invocation session = .ok program middle)
      (rest : Replaced handler leaves middle spliced after) :
      Replaced handler (.call invocation :: leaves) session (Leaf.ofProgram program ++ spliced)
        after

variable {session after : Session}

theorem Replaced.append {first second splicedFirst splicedSecond : List Leaf} {middle : Session}
    (front : Replaced one first session splicedFirst middle)
    (back : Replaced one second middle splicedSecond after) :
    Replaced one (first ++ second) session (splicedFirst ++ splicedSecond) after := by
  induction front with
  | nil => exact back
  | keep kept _ ih => exact .keep kept (ih back)
  | drop _ ih => exact .drop (ih back)
  | call expanded _ ih =>
    rw [List.append_assoc]
    exact .call expanded (ih back)

/-- An expression that stands for an expansion has the marks of the expansion. -/
theorem ofExpr_asExpression {stmts : List Stmt} (taken : asExpression call stmts = .ok value) :
    Mark.ofExpr value = Mark.ofStmts stmts := by
  rcases stmts with _ | ⟨stmt, _ | ⟨second, rest⟩⟩
  · simp [asExpression] at taken
  · cases stmt <;> simp_all [asExpression, Mark.ofStmts, Mark.ofStmt]
  · simp [asExpression] at taken

theorem replaced_call (expanded : one call session = .ok program after) :
    Replaced one [.call call] session (Leaf.ofProgram program) after := by
  rw [← List.append_nil (Leaf.ofProgram program)]
  exact .call expanded (.nil after)

theorem replaced_callExpression (run : callExpression one call session = .ok value after) :
    Replaced one [.call call] session (Leaf.ofExpr value) after := by
  simp only [callExpression, bind_eq_ok_iff] at run
  obtain ⟨program, middle, expanded, taken⟩ := run
  cases shape : asExpression call program.body with
  | error fault =>
    rw [shape] at taken
    exact absurd taken throw_ne_ok
  | ok found =>
    rw [shape] at taken
    obtain ⟨rfl, rfl⟩ := pure_eq_ok_iff.mp taken
    have leaves : Leaf.ofExpr found = Leaf.ofProgram program := by
      rw [Leaf.ofExpr, ofExpr_asExpression shape, Leaf.ofProgram_eq]
    rw [leaves]
    exact replaced_call expanded

/-- The leaves of the value are those from before, and then what replaces the leaves at the
marks. -/
theorem Spliced.replaced {value : α}
    (spliced : Spliced r one two done marks origin first second map view)
    (run : first session = .ok value after) :
    ∃ leaves, Mark.leaves (view value) = Mark.leaves done ++ leaves ∧
      Replaced one (Mark.leaves marks) session leaves after := by
  induction spliced generalizing session after with
  | pure same seen =>
    obtain ⟨rfl, rfl⟩ := pure_eq_ok_iff.mp run
    exact ⟨[], by rw [seen, List.append_nil], .nil _⟩
  | @keep _ _ _ _ _ _ _ _ mark kept rest ih =>
    obtain ⟨leaves, shown, replaced⟩ := ih run
    rw [Mark.leaves_append, List.append_assoc] at shown
    cases mark with
    | leaf held => exact ⟨held :: leaves, shown, .keep (kept held rfl) replaced⟩
    | _ => exact ⟨leaves, shown, replaced⟩
  | drop rest ih =>
    obtain ⟨leaves, shown, replaced⟩ := ih run
    exact ⟨leaves, shown, .drop replaced⟩
  | call call origin =>
    refine ⟨_, ?_, replaced_call run⟩
    rw [Mark.leaves_contents]
    rfl
  | callExpression call =>
    refine ⟨_, ?_, replaced_callExpression run⟩
    rw [Mark.leaves_contents]
    rfl
  | bind front back unchanged ih ihBack =>
    obtain ⟨made, middle, frontRun, backRun⟩ := bind_eq_ok_iff.mp run
    obtain ⟨leaves, shown, replaced⟩ := ih frontRun
    obtain ⟨others, shownToo, replacedToo⟩ := ihBack made backRun
    refine ⟨leaves ++ others, ?_, ?_⟩
    · rw [shownToo, shown, List.append_assoc]
    · rw [Mark.leaves_append]
      exact replaced.append replacedToo
  | frame inner ih =>
    obtain ⟨leaves, shown, replaced⟩ := ih run
    refine ⟨leaves, ?_, replaced⟩
    rw [Mark.leaves_append, shown]
    rfl

/-- Splicing a program replaces its leaves. -/
theorem replaced_spliceProgram {spliced : Program}
    (run : spliceProgram handler program session = .ok spliced after) :
    Replaced handler (Leaf.ofProgram program) session (Leaf.ofProgram spliced) after := by
  have pieces := spliced_spliceProgram {} handler handler program
  obtain ⟨leaves, shown, replaced⟩ := pieces.replaced run
  simp only [Mark.leaves_contents] at shown replaced
  rw [Leaf.ofProgram, Leaf.ofProgram, shown]
  exact replaced

end Splice

end MacroScript
