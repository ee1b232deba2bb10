import MacroScript.Matching
import MacroScript.Proofs.Reading.Expression

/-!
# Reading statements

Every rule for statements is put together from the pieces of the grammar, provided the
rules it calls are.  By induction over the levels of the grammar this holds of all rules.

In particular reading a program is a walk whose leaves are those of the program, and
reading a captured fragment is a walk.
-/

namespace MacroScript.Grammar

variable {r : Renumbering} {prior : List Mark} {lower : Rules}

section Rules

variable {reach : Reach} (rules : lower.Composed r)
include rules

theorem composed_expressionStatement : r.Reads (expressionStatement lower) r.stmt Mark.ofStmt := by
  apply tracks_peek.andThen
  intro token
  apply (composed_expression rules).andThen
  intro value
  exact .finishStatement (fun _ => rfl) fun _ => rfl

omit rules in
/-- A part that may be missing. -/
theorem composed_optional {α β : Type} {part : Parser α} {map : α → α} {view : α → List Mark}
    {resultMap : β → β} {result : β → List Mark} {present : Bool}
    {next nextSecond : Option α → Parser β} (optionMap : Option α → Option α)
    (optionView : Option α → List Mark) (reads : r.Reads part map view)
    (someMap : ∀ value, some (map value) = optionMap (some value))
    (noneMap : none = optionMap none)
    (someView : ∀ value, optionView (some value) = view value) (noneView : optionView none = [])
    (later : ∀ value,
      r.Composed (prior ++ optionView value) (next value) (nextSecond (optionMap value)) resultMap
        result) :
    r.Composed prior (if present then (some <$> part) >>= next else pure none >>= next)
      (if present then (some <$> part) >>= nextSecond else pure none >>= nextSecond) resultMap
      result := by
  have someTandem : r.Reads (some <$> part) optionMap optionView := reads.map someMap someView
  apply Renumbering.ComposedWhere.branch rfl someTandem.frame
  · exact .pure noneMap (by rw [noneView, List.append_nil])
  · exact later

/-! ## Declarations -/

theorem composed_declarator : r.Reads (declarator lower) r.declarator Mark.ofDeclarator := by
  apply tracks_peek.andThen
  intro token
  apply composed_bindingName.andThen
  intro id
  apply (tracks_eatPunct _).andThen
  intro initialized
  apply composed_optional r.expr? Mark.ofExpr? rules.assignment (fun _ => rfl) rfl
    (fun _ => rfl) rfl
  intro init
  exact .finish (fun _ => rfl) fun _ => rfl

omit rules in
theorem tracks_declarationKind (token : Token) :
    r.Tracks (declarationKind token) (declarationKind (r.token token)) id := by
  have same : declarationKind (r.token token) = declarationKind token := rfl
  rw [same]
  unfold declarationKind
  split
  · exact tracks_pure rfl
  · exact tracks_malformed _ _

theorem composed_declaration : r.Reads (declaration lower) r.declaration Mark.ofDeclaration := by
  apply tracks_advance.andThen
  intro word
  apply (tracks_declarationKind word).andThen
  intro kind
  apply tracks_remaining.andThen
  intro bound
  apply ((composed_declarator rules).commaSequence _).andThen
  intro declarators
  apply (tracks_finishSpan _).andThen
  intro span
  apply Renumbering.ComposedWhere.pure
  · rw [← r.declaratorList_eq_map]
    rfl
  · exact Mark.ofDeclarators_eq_flatMap declarators

theorem composed_declarationStatement :
    r.Reads (declarationStatement lower) r.stmt Mark.ofStmt := by
  apply (composed_declaration rules).andThen
  rintro ⟨kind, declarators, span⟩
  exact .finishStatement (fun _ => rfl) fun _ => rfl

/-! ## Simple statements -/

theorem composed_returnStatement : r.Reads (returnStatement lower) r.stmt Mark.ofStmt := by
  apply tracks_advance.andThen
  intro start
  apply tracks_peek.andThen
  intro next
  have argument : r.Reads (some <$> lower.expression) r.expr? Mark.ofExpr? :=
    rules.expression.map (fun _ => rfl) fun _ => rfl
  have none : r.Reads (pure none) r.expr? Mark.ofExpr? := .pure rfl rfl
  apply Renumbering.ComposedWhere.branch rfl none argument
  intro argument
  exact .finishStatement (fun _ => rfl) fun _ => rfl

omit rules in
theorem composed_jumpStatement : r.Reads jumpStatement r.stmt Mark.ofStmt := by
  apply tracks_advance.andThen
  intro word
  apply tracks_endStatement.andThen
  intro _
  apply (tracks_finishSpan _).andThen
  intro span
  have text : (r.token word).text = word.text := rfl
  rw [text]
  split
  · exact .pure rfl rfl
  · exact .pure rfl rfl

theorem composed_throwStatement : r.Reads (throwStatement lower) r.stmt Mark.ofStmt := by
  apply tracks_advance.andThen
  intro start
  apply tracks_peek.andThen
  intro next
  refine .ite rfl (.malformed _ _) ?_
  apply rules.expression.andThen
  intro argument
  exact .finishStatement (fun _ => rfl) fun _ => rfl

/-! ## Branches and loops -/

theorem composed_ifStatement : r.Reads (ifStatement lower) r.stmt Mark.ofStmt := by
  apply tracks_advance.andThen
  intro start
  apply (composed_grouped rules).andThen
  intro test
  apply rules.statement.andThen
  intro consequent
  apply (tracks_eatReserved _).andThen
  intro branched
  apply composed_optional r.stmt? Mark.ofStmt? rules.statement (fun _ => rfl) rfl (fun _ => rfl) rfl
  intro alternate
  exact .finish (fun _ => rfl) fun _ => rfl

theorem composed_whileStatement : r.Reads (whileStatement lower) r.stmt Mark.ofStmt := by
  apply tracks_advance.andThen
  intro start
  apply (composed_grouped rules).andThen
  intro test
  apply rules.statement.andThen
  intro body
  exact .finish (fun _ => rfl) fun _ => rfl

theorem composed_doWhileStatement : r.Reads (doWhileStatement lower) r.stmt Mark.ofStmt := by
  apply tracks_advance.andThen
  intro start
  apply rules.statement.andThen
  intro body
  apply (tracks_expectReserved _).andThen
  intro _
  apply (composed_grouped rules).andThen
  intro test
  apply (tracks_eatPunct _).andThen
  intro _
  exact .finish (fun _ => rfl) fun _ => rfl

/-- The marks of a loop with a head, without those of its scope. -/
def loopMarks : Stmt → List Mark
  | .forLoop init test update body _ =>
    Mark.ofForInit? init ++ Mark.ofExpr? test ++ Mark.ofExpr? update ++ Mark.ofStmt body
  | .forEach _ left right body _ => Mark.ofForHead left ++ Mark.ofExpr right ++ Mark.ofStmt body
  | _ => []

/-- The scope of a loop with a head is opened around its rule. -/
def IsLoop (stmt : Stmt) : Prop :=
  Mark.ofStmt stmt = Mark.enclosed (loopMarks stmt)

theorem composed_forEachRest (start : Span) (kind : ForEachKind)
    (left : ForHead Expr) :
    r.Composed (Mark.ofForHead left) (forEachRest lower start kind left)
      (forEachRest lower start kind (r.forHead left)) r.stmt loopMarks := by
  apply tracks_advance.andThen
  intro _
  cases kind with
  | keys =>
    apply rules.expression.andThen
    intro right
    apply (tracks_expectPunct _).andThen
    intro _
    apply rules.statement.andThen
    intro body
    exact .finish (fun _ => rfl) fun _ => rfl
  | values =>
    apply rules.assignment.andThen
    intro right
    apply (tracks_expectPunct _).andThen
    intro _
    apply rules.statement.andThen
    intro body
    exact .finish (fun _ => rfl) fun _ => rfl

theorem composed_optionalExpression (closer : String) :
    r.Reads (optionalExpression lower closer) r.expr? Mark.ofExpr? := by
  apply (tracks_atPunct _).andThen
  intro missing
  exact .ite rfl (.pure rfl rfl) (rules.expression.map (fun _ => rfl) fun _ => rfl)

theorem composed_forLoopRest (start : Span)
    (init : Option (ForInit Expr)) :
    r.Composed (Mark.ofForInit? init) (forLoopRest lower start init)
      (forLoopRest lower start (r.forInit? init)) r.stmt loopMarks := by
  apply (tracks_expectPunct _).andThen
  intro _
  apply (composed_optionalExpression rules _).andThen
  intro test
  apply (tracks_expectPunct _).andThen
  intro _
  apply (composed_optionalExpression rules _).andThen
  intro update
  apply (tracks_expectPunct _).andThen
  intro _
  apply rules.statement.andThen
  intro body
  exact .finish (fun _ => rfl) fun _ => rfl

theorem composed_forDeclared (far : reach.loops = true) (start : Span) :
    r.Reads (forDeclared lower start) r.stmt loopMarks := by
  apply tracks_peek.andThen
  intro head
  apply (tracks_peekAt 1).andThen
  intro name
  apply (tracks_peekAt 2).andThen
  intro word
  have same : (if (r.token name).isName then forEachKind? (r.token word) else none) =
      if name.isName then forEachKind? word else none := rfl
  rw [same]
  split
  · apply (tracks_declarationKind head).andThen
    intro varKind
    apply tracks_advance.andThen
    intro _
    apply composed_bindingName.andThen
    intro id
    exact composed_forEachRest rules start _ (.declared varKind id)
  · apply ((composed_declaration rules).forbiddingIn far).andThen
    intro declared
    exact composed_forLoopRest rules start (some (.declaration declared))

theorem composed_forExpression (far : reach.loops = true)
    (start : Span) :
    r.Reads (forExpression lower start) r.stmt loopMarks := by
  apply (rules.expression.forbiddingIn far).andThen
  intro value
  apply tracks_peek.andThen
  intro next
  have same : forEachKind? (r.token next) = forEachKind? next := rfl
  rw [same, r.expr_span]
  cases forEachKind? next with
  | none => exact composed_forLoopRest rules start (some (.expression value))
  | some kind =>
    refine .ite (r.expr_isAssignmentTarget value) ?_ (.malformed _ _)
    exact composed_forEachRest rules start kind (.target value)

omit rules in
theorem atDeclaration_cursor (r : Renumbering) (cursor : Cursor) :
    atDeclaration (r.cursor cursor) = atDeclaration cursor := by
  simp only [atDeclaration, atLetDeclaration, r.cursor_peek, r.cursor_peekAt]
  rfl

theorem composed_forRest (far : reach.loops = true) (start : Span) :
    r.Reads (forRest lower start) r.stmt loopMarks := by
  apply Renumbering.ComposedWhere.choose fun cursor =>
    if cursor.atPunct ";" then forLoopRest lower start none
    else if atDeclaration cursor then forDeclared lower start
    else forExpression lower start
  · intro state
    simp only [forRest, ite_run]
  · intro cursor
    have semicolon : (r.cursor cursor).atPunct ";" = cursor.atPunct ";" := by
      simp only [Cursor.atPunct, r.cursor_peek]
      rfl
    rw [semicolon, atDeclaration_cursor]
    refine .anywhere (.ite rfl (composed_forLoopRest rules start none) ?_)
    exact .ite rfl (composed_forDeclared rules far start) (composed_forExpression rules far start)

omit rules in
theorem results_forEachRest (start : Span) (kind : ForEachKind) (left : ForHead Expr) :
    Results IsLoop (forEachRest lower start kind left) := by
  apply Results.bind
  intro _
  cases kind <;> exact .bind fun _ => .bind fun _ => .bind fun _ => .bind fun _ => .pure rfl

omit rules in
theorem results_forLoopRest (start : Span) (init : Option (ForInit Expr)) :
    Results IsLoop (forLoopRest lower start init) :=
  .bind fun _ => .bind fun _ => .bind fun _ => .bind fun _ => .bind fun _ => .bind fun _ =>
    .bind fun _ => .pure rfl

omit rules in
theorem results_forRest (start : Span) : Results IsLoop (forRest lower start) := by
  have declared : Results IsLoop (forDeclared lower start) := by
    refine .bind fun _ => .bind fun _ => .bind fun _ => ?_
    split
    · exact .bind fun _ => .bind fun _ => .bind fun _ => results_forEachRest _ _ _
    · exact .bind fun _ => results_forLoopRest _ _
  have expression : Results IsLoop (forExpression lower start) := by
    refine .bind fun _ => .bind fun _ => ?_
    split
    · exact .ite (results_forEachRest _ _ _) (.malformed _ _)
    · exact results_forLoopRest _ _
  intro state value after run
  unfold forRest at run
  split at run
  · exact results_forLoopRest _ _ _ _ _ run
  split at run
  · exact declared _ _ _ run
  · exact expression _ _ _ run

theorem composed_forStatement (far : reach.loops = true) :
    r.Reads (forStatement lower) r.stmt Mark.ofStmt := by
  apply tracks_advance.andThen
  intro start
  apply (tracks_expectPunct _).andThen
  intro _
  exact (composed_forRest rules far start.span).inScope.reviewed
    (results_forRest start.span).inScope

/-! ## Handlers -/

omit rules in
theorem composed_catchParameter :
    r.Reads catchParameter (Option.map r.identifier) fun param =>
      param.toList.map .binding := by
  apply (tracks_eatPunct _).andThen
  intro named
  refine .ite rfl ?_ (.pure rfl rfl)
  apply composed_bindingName.andThen
  intro param
  apply (tracks_expectPunct _).andThen
  intro _
  exact .pure rfl rfl

theorem composed_catchRest (start : Span) :
    r.Reads (catchRest lower start) r.handler Mark.ofCatch := by
  apply composed_catchParameter.andThen
  intro param
  apply (composed_blockBody rules).andThen
  intro body
  exact .finish (fun _ => rfl) fun _ => rfl

theorem composed_catchClause : r.Reads (catchClause lower) r.handler? Mark.ofCatch? := by
  apply (tracks_atReserved _).andThen
  intro caught
  refine .ite rfl ?_ (.pure rfl rfl)
  apply tracks_advance.andThen
  intro start
  exact (composed_catchRest rules start.span).inScope.map (fun _ => rfl) fun _ => rfl

theorem composed_tryStatement : r.Reads (tryStatement lower) r.stmt Mark.ofStmt := by
  apply tracks_advance.andThen
  intro start
  apply (composed_block rules).andThen
  intro body
  apply (composed_catchClause rules).andThen
  intro handler
  apply (tracks_eatReserved _).andThen
  intro finished
  apply composed_optional r.block? Mark.ofBlock? (composed_block rules) (fun _ => rfl) rfl
    (fun _ => rfl) rfl
  intro finalizer
  have same : ((r.handler? handler).isNone && (r.block? finalizer).isNone) =
      (handler.isNone && finalizer.isNone) := by
    cases handler <;> cases finalizer <;> rfl
  refine .ite same ?_ ?_
  · apply tracks_peek.andThen
    intro next
    exact .malformed _ _
  · exact .finish (fun _ => rfl) fun _ => rfl

/-! ## Switches -/

theorem composed_caseTest (seenDefault : Bool) :
    r.Reads (caseTest lower seenDefault) r.expr? Mark.ofExpr? := by
  apply (tracks_eatReserved _).andThen
  intro tested
  refine .ite rfl (rules.expression.map (fun _ => rfl) fun _ => rfl) ?_
  apply (tracks_atReserved _).andThen
  intro isDefault
  refine .ite rfl (.ite rfl ?_ ?_) .unexpected
  · apply tracks_peek.andThen
    intro next
    exact .malformed _ _
  · apply tracks_advance.andThen
    intro _
    exact .pure rfl rfl

theorem composed_switchCase (seenDefault : Bool) :
    r.Reads (switchCase lower seenDefault) r.alternative Mark.ofCase := by
  apply tracks_peek.andThen
  intro token
  apply (composed_caseTest rules seenDefault).andThen
  intro test
  apply (tracks_expectPunct _).andThen
  intro _
  apply tracks_remaining.andThen
  intro bound
  apply (rules.statement.itemsUntil (fun _ => rfl) _).andThen
  intro body
  apply (tracks_finishSpan _).andThen
  intro span
  apply Renumbering.ComposedWhere.pure
  · rw [← r.stmts_eq_map]
    rfl
  · simp [Mark.ofCase, Mark.ofStmts_eq_flatMap]

theorem composed_switchCases (bound : Nat) (seenDefault : Bool) :
    r.Reads (switchCases lower bound seenDefault) r.alternatives Mark.ofCases := by
  induction bound generalizing seenDefault with
  | zero => exact .pure rfl rfl
  | succ bound ih =>
    apply (tracks_atPunct _).andThen
    intro closed
    refine .ite rfl (.pure rfl rfl) ?_
    apply (composed_switchCase rules seenDefault).andThen
    rintro ⟨test, body, span⟩
    have same : (r.alternative ⟨test, body, span⟩).test.isNone = test.isNone := by
      cases test <;> rfl
    rw [same]
    apply (ih _).andThen
    intro rest
    exact .pure rfl rfl

theorem composed_switchStatement : r.Reads (switchStatement lower) r.stmt Mark.ofStmt := by
  apply tracks_advance.andThen
  intro start
  apply (composed_grouped rules).andThen
  intro discriminant
  apply (tracks_expectPunct _).andThen
  intro _
  apply tracks_remaining.andThen
  intro bound
  apply (composed_switchCases rules _ false).inScope.andThen
  intro cases
  apply (tracks_expectPunct _).andThen
  intro _
  exact .finish (fun _ => rfl) fun _ => rfl

/-! ## All statements -/

theorem composed_reservedStatement {word : String}
    (far : word = "for" → reach.loops = true) :
    r.Reads (reservedStatement lower word) r.stmt Mark.ofStmt := by
  unfold reservedStatement
  split
  · exact composed_declarationStatement rules
  · exact composed_declarationStatement rules
  · exact (composed_functionStatement rules).map (fun _ => rfl) fun _ => rfl
  · exact composed_returnStatement rules
  · exact composed_ifStatement rules
  · exact composed_forStatement rules (far rfl)
  · exact composed_whileStatement rules
  · exact composed_doWhileStatement rules
  · exact composed_jumpStatement
  · exact composed_jumpStatement
  · exact composed_throwStatement rules
  · exact composed_tryStatement rules
  · exact composed_switchStatement rules
  · exact composed_expressionStatement rules

omit rules in
theorem plainStatement_of_for {state : State}
    (begins : state.cursor.peek.isReserved "for" = true) :
    plainStatement lower state = forStatement lower state := by
  obtain ⟨keyword, word⟩ : state.cursor.peek.kind = .keyword ∧ state.cursor.peek.text = "for" := by
    simpa [Token.isReserved] using begins
  simp [plainStatement, Token.isPunct, keyword, word, reservedStatement]

/-- Every loop is passed that the given rules read. -/
def PassLoops (lower : Rules) : Prop :=
  ∀ state : State, state.cursor.peek.isReserved "for" = true → state.cursor.Ready →
    state.cursor.PassesLoop (Outcome.final (forStatement lower state)).cursor

theorem composed_plainStatement (passed : reach.loops = false → PassLoops lower) :
    r.Reads (plainStatement lower) r.stmt Mark.ofStmt := by
  have block : r.Reads (Stmt.block <$> block lower) r.stmt Mark.ofStmt :=
    (composed_block rules).map (fun _ => rfl) fun _ => rfl
  have empty (span : Span) :
      r.Reads (do let _ ← advance; return .empty span) r.stmt Mark.ofStmt := by
    apply tracks_advance.andThen
    intro _
    exact .pure rfl rfl
  have chosen : ∀ state, plainStatement lower state = (
      if state.cursor.peek.isPunct "\x7b" then Stmt.block <$> Grammar.block lower
      else if state.cursor.peek.isPunct ";" then
        (do let _ ← advance; return .empty state.cursor.peek.span)
      else if state.cursor.peek.kind == .keyword then reservedStatement lower state.cursor.peek.text
      else if atLetDeclaration state.cursor then declarationStatement lower
      else expressionStatement lower) state := by
    intro state
    simp only [plainStatement, ite_run]
  apply Renumbering.ComposedWhere.choose (fun cursor =>
    if cursor.peek.isPunct "\x7b" then Stmt.block <$> Grammar.block lower
    else if cursor.peek.isPunct ";" then (do let _ ← advance; return .empty cursor.peek.span)
    else if cursor.peek.kind == .keyword then reservedStatement lower cursor.peek.text
    else if atLetDeclaration cursor then declarationStatement lower
    else expressionStatement lower) chosen
  · intro cursor
    have declares : atLetDeclaration (r.cursor cursor) = atLetDeclaration cursor := by
      simp only [atLetDeclaration, r.cursor_peek, r.cursor_peekAt]
      rfl
    rw [r.cursor_peek, declares]
    by_cases out : reach.loops = false ∧ cursor.peek.isReserved "for" = true
    · refine .beyond out.1 ?_
      rintro state rfl ready
      rw [← chosen, plainStatement_of_for out.2]
      exact passed out.1 state out.2 ready
    · refine .anywhere (.ite rfl block (.ite rfl (empty _) ?_))
      change r.Composed [] _ (if cursor.peek.kind == .keyword then
        reservedStatement lower cursor.peek.text else _) _ _
      split
      · rename_i reserved
        apply composed_reservedStatement rules
        intro word
        simpa [Token.isReserved, reserved, word] using out
      · exact .ite rfl (composed_declarationStatement rules) (composed_expressionStatement rules)

end Rules

/-! ## Tying the rules together -/

theorem composed_level_of {reach : Reach}
    (passed : reach.loops = false → ∀ n, PassLoops (.level n)) (n : Nat) :
    (Rules.level n).Composed r := by
  induction n with
  | zero =>
    exact ⟨.unexpected, .unexpected, .unexpected, fun _ => .unexpected, .unexpected,
      .unexpected⟩
  | succ n rules =>
    have plain := composed_plainStatement rules fun near => passed near n
    exact ⟨.declaration plain, composed_expression rules, composed_assignment rules,
      composed_binary rules, composed_unary rules, composed_construct rules⟩

/-- The rules of every level are put together from the pieces of the grammar. -/
theorem composed_level (n : Nat) : (Rules.level n).Composed r :=
  composed_level_of (fun near => (Bool.false_ne_true near.symm).elim) n

theorem composed_withRules {α : Type} {map : α → α} {view : α → List Mark}
    {rule : Rules → Parser α} (reads : ∀ n, r.Reads (rule (.level n)) map view) :
    r.Reads (withRules rule) map view := by
  apply Renumbering.ComposedWhere.choose fun cursor => rule (.level cursor.remaining)
  · intro state
    rfl
  · intro cursor
    rw [r.cursor_remaining]
    exact .anywhere (reads _)

/-- Reading a whole program is put together from the pieces of the grammar. -/
theorem composed_program : r.Reads program r.program Mark.ofProgram := by
  apply composed_withRules
  intro n
  apply tracks_peek.andThen
  intro token
  apply tracks_remaining.andThen
  intro bound
  apply ((composed_level n).statement.itemsUntil (fun _ => rfl) _).andThen
  intro body
  apply (tracks_finishSpan _).andThen
  intro span
  exact .pure (by rw [← r.stmts_eq_map]; rfl) (Mark.ofStmts_eq_flatMap body)

/-- Reading a program is a walk whose leaves are those of the program. -/
theorem yields_program : Yields program Leaf.ofProgram :=
  (composed_program (r := {})).follows

theorem Walks.withRules {α : Type} {rule : Rules → Parser α}
    (walks : ∀ n, Walks (rule (.level n))) : Walks (withRules rule) :=
  fun reader ready => walks reader.cursor.remaining reader ready

/-- Reading a captured fragment is a walk. -/
theorem walks_captureParser (kind : CaptureKind) : Walks (Matching.captureParser kind) := by
  have statement : Walks (withRules fun rules => do let _ ← rules.statement) := by
    apply Walks.withRules
    intro n
    exact (composed_level (r := {}) n).statement.follows.walks.discard
  have assignment : Walks (withRules fun rules => do let _ ← rules.assignment) := by
    apply Walks.withRules
    intro n
    exact (composed_level (r := {}) n).assignment.follows.walks.discard
  cases kind with
  | stmt => exact statement
  | expr
  | ident
  | literal => exact assignment

end MacroScript.Grammar
