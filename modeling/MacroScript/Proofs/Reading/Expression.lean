import MacroScript.Proofs.Reading.Composed

/-!
# Reading expressions

Every rule for expressions is put together from the pieces of the grammar, provided the
rules it calls are.  Suffixes and operators are read behind an expression that was read
before, so the two parsers that are compared start from two versions of it.
-/

namespace MacroScript.Grammar

variable {reach : Reach} {r : Renumbering} {prior : List Mark} {cursor : Cursor}

/-- The rules that other rules call are put together from the pieces of the grammar. -/
structure Rules.Composed [Reach] (r : Renumbering) (lower : Rules) : Prop where
  statement : r.Reads lower.statement r.stmt Mark.ofStmt
  expression : r.Reads lower.expression r.expr Mark.ofExpr
  assignment : r.Reads lower.assignment r.expr Mark.ofExpr
  binary (minimum : Nat) : r.Reads (lower.binary minimum) r.expr Mark.ofExpr
  unary : r.Reads lower.unary r.expr Mark.ofExpr
  construct : r.Reads lower.construct r.expr Mark.ofExpr

variable {lower : Rules}

theorem composed_bindingName : r.Reads bindingName r.identifier fun name => [.binding name] :=
  .bindingName

/-! ## Blocks and functions -/

variable (rules : lower.Composed r)
include rules

theorem composed_blockBody : r.Reads (blockBody lower) r.block Mark.ofBlock := by
  apply (tracks_expectPunct _).andThen
  intro start
  apply tracks_remaining.andThen
  intro bound
  apply (rules.statement.itemsUntil (fun _ => rfl) _).andThen
  intro body
  apply tracks_advance.andThen
  intro _
  apply (tracks_finishSpan _).andThen
  intro span
  exact .pure (by rw [← r.stmts_eq_map]; rfl) (Mark.ofStmts_eq_flatMap body)

theorem composed_block :
    r.Reads (block lower) r.block fun block => Mark.enclosed (Mark.ofBlock block) :=
  (composed_blockBody rules).inScope

omit rules in
theorem composed_parameters :
    r.Reads parameters (List.map r.identifier) fun params => params.map .binding := by
  apply (tracks_expectPunct _).andThen
  intro _
  apply tracks_remaining.andThen
  intro bound
  apply (composed_bindingName.commaItems _).andThen
  intro params
  apply (tracks_expectPunct _).andThen
  intro _
  exact .pure rfl List.map_eq_flatMap

/-- The parameters and the body of a function under the new numbers. -/
def renumberRest (r : Renumbering) (rest : List Identifier × Block Stmt) :
    List Identifier × Block Stmt :=
  (rest.1.map r.identifier, r.block rest.2)

theorem composed_functionRest :
    r.Reads (functionRest lower) (renumberRest r) fun rest =>
      rest.1.map .binding ++ Mark.ofBlock rest.2 := by
  apply composed_parameters.andThen
  intro params
  apply (composed_blockBody rules).andThen
  intro body
  exact .pure rfl rfl

theorem composed_functionStatement :
    r.Reads (functionStatement lower) r.function fun function =>
      function.name.toList.map .binding ++ Mark.enclosed (Mark.ofFunctionRest function) := by
  apply (tracks_expectReserved _).andThen
  intro start
  apply composed_bindingName.andThen
  intro name
  apply (composed_functionRest rules).inScope.andThen
  rintro ⟨params, body⟩
  exact .finish (fun _ => rfl) fun _ => rfl

/-- The name, the parameters and the body of a function under the new numbers. -/
def renumberNamedRest (r : Renumbering) (rest : Option Identifier × List Identifier × Block Stmt) :
    Option Identifier × List Identifier × Block Stmt :=
  (rest.1.map r.identifier, renumberRest r rest.2)

theorem composed_namedFunctionRest :
    r.Reads (namedFunctionRest lower) (renumberNamedRest r) fun rest =>
      rest.1.toList.map .binding ++ (rest.2.1.map .binding ++ Mark.ofBlock rest.2.2) := by
  apply tracks_peek.andThen
  intro token
  refine .ite rfl ?_ ?_
  · apply composed_bindingName.andThen
    intro name
    apply (composed_functionRest rules).andThen
    rintro ⟨params, body⟩
    exact .pure rfl rfl
  · apply (composed_functionRest rules).andThen
    rintro ⟨params, body⟩
    exact .pure rfl rfl

theorem composed_functionExpression :
    r.Reads (functionExpression lower) r.function fun function =>
      Mark.ofExpr (.function function) := by
  apply (tracks_expectReserved _).andThen
  intro start
  apply (composed_namedFunctionRest rules).inScope.andThen
  rintro ⟨name, params, body⟩
  exact .finish (fun _ => rfl) fun _ => rfl

/-! ## Primary expressions -/

omit rules in
theorem composed_literalOf (written : cursor.peek.kind ≠ .punct) (inside : cursor.peek.kind ≠ .eof)
    (kind : LiteralKind) :
    r.ComposedWhere (· = cursor) [] (literalOf kind) (literalOf kind) r.expr Mark.ofExpr :=
  .literal kind (fun _ same => same ▸ written) fun _ same => same ▸ inside

theorem composed_listItems (closer : String) :
    r.Reads (listItems lower closer) r.exprs Mark.ofExprs := by
  apply tracks_remaining.andThen
  intro bound
  exact (rules.assignment.commaItems _).congr r.exprs_eq_map Mark.ofExprs_eq_flatMap

theorem composed_callArguments : r.Reads (callArguments lower) r.exprs Mark.ofExprs := by
  apply (tracks_expectPunct _).andThen
  intro _
  apply (composed_listItems rules ")").allowingIn.andThen
  intro items
  apply (tracks_expectPunct _).andThen
  intro _
  exact .pure rfl rfl

theorem composed_propertyKey : r.Reads (propertyKey lower) r.propertyKey Mark.ofPropertyKey := by
  apply tracks_peek.andThen
  intro token
  have kind : (r.token token).kind = token.kind := rfl
  rw [kind]
  split
  · apply tracks_advance.andThen
    intro _
    exact .pure rfl rfl
  · apply tracks_advance.andThen
    intro _
    exact .pure rfl rfl
  · apply tracks_advance.andThen
    intro _
    exact .pure rfl rfl
  · apply tracks_advance.andThen
    intro _
    exact .pure rfl rfl
  · refine .ite rfl ?_ .unexpected
    apply tracks_advance.andThen
    intro _
    apply rules.assignment.andThen
    intro key
    apply (tracks_expectPunct _).andThen
    intro _
    exact .pure rfl rfl

omit rules in
theorem isPunct_of_isPunct {token : Token} {text other : String}
    (isPunct : token.isPunct text = true) (different : text ≠ other) :
    token.isPunct other = false := by
  simp only [Token.isPunct, Bool.and_eq_true, beq_iff_eq] at isPunct
  simp [Token.isPunct, isPunct.2, different]

theorem composed_property : r.Reads (property lower) r.property Mark.ofProperty := by
  have written (start : Span) : r.Reads
      (do
        let key ← propertyKey lower
        let _ ← expectPunct ":"
        let value ← lower.assignment
        return { key, value, shorthand := false, span := ← finishSpan start })
      r.property Mark.ofProperty := by
    apply (composed_propertyKey rules).andThen
    intro key
    apply (tracks_expectPunct _).andThen
    intro _
    apply rules.assignment.andThen
    intro value
    exact .finish (fun _ => rfl) fun _ => rfl
  apply Renumbering.ComposedWhere.choose fun cursor =>
    if cursor.peek.isName &&
        ((cursor.peekAt 1).isPunct "," || (cursor.peekAt 1).isPunct "\x7d") then (do
      let value ← referenceName
      return ⟨.identifier cursor.peek.text, .identifier value, true, cursor.peek.span⟩)
    else (do
      let key ← propertyKey lower
      let _ ← expectPunct ":"
      let value ← lower.assignment
      return { key, value, shorthand := false, span := ← finishSpan cursor.peek.span })
  · intro state
    rfl
  intro cursor
  have isName : (r.token cursor.peek).isName = cursor.peek.isName := rfl
  have isPunct (text : String) : (r.token (cursor.peekAt 1)).isPunct text =
      (cursor.peekAt 1).isPunct text := rfl
  simp only [r.cursor_peek, r.cursor_peekAt, isName, isPunct]
  split
  · rename_i shorthand
    -- The token behind an abbreviated property is a comma or a brace.
    have uncalled : (cursor.peekAt 1).isPunct "(" = false := by
      rw [Bool.and_eq_true, Bool.or_eq_true] at shorthand
      rcases shorthand.2 with comma | brace
      · exact isPunct_of_isPunct comma (by decide)
      · exact isPunct_of_isPunct brace (by decide)
    refine .bind (.referenceName ?_) fun value => .pure rfl rfl
    rintro _ rfl
    exact uncalled
  · exact .anywhere (written _)

theorem composed_properties : r.Reads (properties lower) r.propertyList Mark.ofProperties := by
  apply tracks_remaining.andThen
  intro bound
  exact ((composed_property rules).commaItems _).congr r.propertyList_eq_map
    Mark.ofProperties_eq_flatMap

theorem composed_objectLiteral : r.Reads (objectLiteral lower) r.expr Mark.ofExpr := by
  apply (tracks_expectPunct _).andThen
  intro start
  apply (composed_properties rules).allowingIn.andThen
  intro members
  apply (tracks_expectPunct _).andThen
  intro _
  exact .finish (fun _ => rfl) fun _ => rfl

theorem composed_arrayLiteral : r.Reads (arrayLiteral lower) r.expr Mark.ofExpr := by
  apply tracks_advance.andThen
  intro start
  apply (composed_listItems rules "]").allowingIn.andThen
  intro elements
  apply (tracks_expectPunct _).andThen
  intro _
  exact .finish (fun _ => rfl) fun _ => rfl

theorem composed_grouped : r.Reads (grouped lower) r.expr Mark.ofExpr := by
  apply (tracks_expectPunct _).andThen
  intro _
  apply rules.expression.allowingIn.andThen
  intro inner
  apply (tracks_expectPunct _).andThen
  intro _
  exact .pure rfl rfl

omit rules in
theorem composed_this (span : Span) :
    r.Reads (do let _ ← advance; return .this span) r.expr Mark.ofExpr := by
  apply tracks_advance.andThen
  intro _
  exact .pure rfl rfl

theorem composed_functionPrimary :
    r.Reads (do return .function (← functionExpression lower)) r.expr Mark.ofExpr := by
  apply (composed_functionExpression rules).andThen
  intro function
  exact .pure rfl rfl

/-- A reserved word that is read as a literal is no punctuator, which the rule itself
does not see. -/
theorem composed_reservedPrimary (isKeyword : cursor.peek.kind = .keyword) :
    r.ComposedWhere (· = cursor) [] (reservedPrimary lower cursor.peek)
      (reservedPrimary lower (r.token cursor.peek)) r.expr Mark.ofExpr := by
  have literal (kind : LiteralKind) :
      r.ComposedWhere (· = cursor) [] (literalOf kind) (literalOf kind) r.expr Mark.ofExpr :=
    composed_literalOf (by simp [isKeyword]) (by simp [isKeyword]) kind
  have text : (r.token cursor.peek).text = cursor.peek.text := rfl
  have span : (r.token cursor.peek).span = cursor.peek.span := rfl
  unfold reservedPrimary
  rw [text, span]
  split
  · exact literal _
  split
  · exact literal _
  split
  · exact .anywhere (composed_this _)
  split
  · exact .anywhere (composed_functionPrimary rules)
  · exact .anywhere .unexpected

theorem composed_punctPrimary (token : Token) :
    r.Composed [] (punctPrimary lower token) (punctPrimary lower (r.token token)) r.expr
      Mark.ofExpr := by
  refine .ite rfl (composed_grouped rules) ?_
  refine .ite rfl (composed_arrayLiteral rules) ?_
  exact .ite rfl (composed_objectLiteral rules) .unexpected

theorem composed_primary : r.Reads (primary lower) r.expr Mark.ofExpr := by
  apply Renumbering.ComposedWhere.look
  intro cursor
  have kind : (r.token cursor.peek).kind = cursor.peek.kind := rfl
  rw [kind]
  cases isKind : cursor.peek.kind with
  | name => exact .anywhere .nameExpression
  | number
  | bigint
  | string
  | regex => exact composed_literalOf (by simp [isKind]) (by simp [isKind]) _
  | keyword => exact composed_reservedPrimary rules isKind
  | punct => exact .anywhere (composed_punctPrimary rules _)
  | eof => exact .anywhere .unexpected

/-! ## Members and calls -/

omit rules in
theorem tracks_memberName : r.Tracks memberName memberName id := by
  apply tracks_peek.bind
  intro token
  refine .ite rfl ?_ tracks_unexpected
  apply tracks_advance.bind
  intro name
  exact tracks_pure rfl

theorem composed_computedMember : r.Reads (computedMember lower) r.memberKey Mark.ofMemberKey := by
  apply rules.expression.allowingIn.andThen
  intro value
  apply (tracks_expectPunct _).andThen
  intro _
  exact .pure rfl rfl

omit rules in
/-- The marks of a named member are those of its object. -/
theorem Mark.ofExpr_member_named (object : Expr) (name : String) (isOptional : Bool)
    (span : Span) :
    Mark.ofExpr (.member object (.named name) isOptional span) = Mark.ofExpr object :=
  List.append_nil _

theorem composed_optionalSuffix (start : Span) (base : Expr) :
    r.Composed (Mark.ofExpr base) (optionalSuffix lower start base)
      (optionalSuffix lower start (r.expr base)) r.expr Mark.ofExpr := by
  apply (tracks_atPunct _).andThen
  intro called
  refine .ite rfl ?_ ?_
  · apply (composed_callArguments rules).andThen
    intro arguments
    exact .finish (fun _ => rfl) fun _ => rfl
  apply (tracks_eatPunct _).andThen
  intro computed
  refine .ite rfl ?_ ?_
  · apply (composed_computedMember rules).andThen
    intro key
    exact .finish (fun _ => rfl) fun _ => rfl
  · apply tracks_memberName.andThen
    intro name
    apply (tracks_finishSpan _).andThen
    intro span
    exact .pure rfl (Mark.ofExpr_member_named base name true span)

/-- The marks of an expression, or of the one it was meant to extend. -/
def extendedMarks (base : Expr) (longer : Option Expr) : List Mark :=
  Mark.ofExpr (longer.getD base)

theorem composed_suffix? (calls : Bool) (start : Span) (base : Expr) :
    r.Composed (Mark.ofExpr base) (suffix? lower calls start base)
      (suffix? lower calls start (r.expr base)) (Option.map r.expr) (extendedMarks base) := by
  apply (tracks_eatPunct _).andThen
  intro named
  refine .ite rfl ?_ ?_
  · apply tracks_memberName.andThen
    intro name
    apply (tracks_finishSpan _).andThen
    intro span
    exact .pure rfl (Mark.ofExpr_member_named base name false span)
  apply (tracks_atPunct _).andThen
  intro isOptional
  refine .ite rfl ?_ ?_
  · apply tracks_advance.andThen
    intro _
    apply (composed_optionalSuffix rules start base).bind
    intro longer
    exact .pure rfl rfl
  apply (tracks_eatPunct _).andThen
  intro computed
  refine .ite rfl ?_ ?_
  · apply (composed_computedMember rules).andThen
    intro key
    exact .finish (fun _ => rfl) fun _ => rfl
  apply (tracks_atPunct _).andThen
  intro called
  refine .ite rfl ?_ (.pure rfl rfl)
  apply (composed_callArguments rules).andThen
  intro arguments
  exact .finish (fun _ => rfl) fun _ => rfl

theorem composed_suffixes (calls : Bool) (start : Span) (bound : Nat)
    (base : Expr) :
    r.Composed (Mark.ofExpr base) (suffixes lower calls start bound base)
      (suffixes lower calls start bound (r.expr base)) r.expr Mark.ofExpr := by
  induction bound generalizing base with
  | zero => exact .pure rfl rfl
  | succ bound ih =>
    apply (composed_suffix? rules calls start base).bind
    intro longer
    cases longer with
    | none => exact .pure rfl rfl
    | some longer => exact ih longer

theorem composed_withSuffixes (calls : Bool) (base : Expr) :
    r.Composed (Mark.ofExpr base) (withSuffixes lower calls base)
      (withSuffixes lower calls (r.expr base)) r.expr Mark.ofExpr := by
  apply tracks_remaining.andThen
  intro bound
  rw [r.expr_span]
  exact composed_suffixes rules calls base.span _ base

theorem composed_construct : r.Reads (construct lower) r.expr Mark.ofExpr := by
  apply tracks_advance.andThen
  intro start
  apply (tracks_atReserved _).andThen
  intro nested
  apply Renumbering.ComposedWhere.branch rfl rules.construct (composed_primary rules)
  intro head
  apply (composed_withSuffixes rules false head).bind
  intro callee
  apply (tracks_atPunct _).andThen
  intro called
  have none : r.Reads (pure []) r.exprs Mark.ofExprs := .pure rfl rfl
  apply Renumbering.ComposedWhere.branch rfl (composed_callArguments rules).frame none.frame
  intro arguments
  exact .finish (fun _ => rfl) fun _ => rfl

theorem composed_leftHandSide : r.Reads (leftHandSide lower) r.expr Mark.ofExpr := by
  apply (tracks_atReserved _).andThen
  intro constructed
  apply Renumbering.ComposedWhere.branch rfl (composed_construct rules) (composed_primary rules)
  intro base
  exact composed_withSuffixes rules true base

/-! ## Operators -/

theorem composed_updateBefore (op : UpdateOp) (start : Span) :
    r.Reads (updateBefore lower op start) r.expr Mark.ofExpr := by
  apply tracks_advance.andThen
  intro _
  apply rules.unary.andThen
  intro argument
  rw [r.expr_span]
  refine .ite (r.expr_isAssignmentTarget argument) ?_ (.malformed _ _)
  exact .finish (fun _ => rfl) fun _ => rfl

theorem composed_updateAfter (start : Span) :
    r.Reads (updateAfter lower start) r.expr Mark.ofExpr := by
  apply (composed_leftHandSide rules).andThen
  intro argument
  apply tracks_peek.andThen
  intro next
  have same : UpdateOp.ofToken? (r.token next) = UpdateOp.ofToken? next := rfl
  rw [same, r.expr_span]
  cases UpdateOp.ofToken? next with
  | none => exact .pure rfl rfl
  | some op =>
    refine .ite rfl (.pure rfl rfl) ?_
    refine .ite (r.expr_isAssignmentTarget argument) ?_ (.malformed _ _)
    apply tracks_advance.andThen
    intro _
    exact .finish (fun _ => rfl) fun _ => rfl

theorem composed_unary : r.Reads (unary lower) r.expr Mark.ofExpr := by
  apply tracks_peek.andThen
  intro token
  have sameUnary : UnaryOp.ofToken? (r.token token) = UnaryOp.ofToken? token := rfl
  have sameUpdate : UpdateOp.ofToken? (r.token token) = UpdateOp.ofToken? token := rfl
  rw [sameUnary, sameUpdate]
  cases UnaryOp.ofToken? token with
  | some op =>
    apply tracks_advance.andThen
    intro _
    apply rules.unary.andThen
    intro argument
    exact .finish (fun _ => rfl) fun _ => rfl
  | none =>
    cases UpdateOp.ofToken? token with
    | some op => exact composed_updateBefore rules op _
    | none => exact composed_updateAfter rules _

omit rules in
theorem tracks_nextBinaryOp? (minimum : Nat) :
    r.Tracks (nextBinaryOp? minimum) (nextBinaryOp? minimum) id := by
  apply tracks_look fun cursor => (BinaryOp.ofToken? cursor.peek).filter fun op : BinaryOp =>
    !(op == .inside && !cursor.allowIn) && minimum ≤ op.precedence
  intro cursor
  rw [r.cursor_peek]
  rfl

theorem composed_binaryTail (minimum : Nat) (start : Span)
    (bound : Nat) (left : Expr) :
    r.Composed (Mark.ofExpr left) (binaryTail lower minimum start bound left)
      (binaryTail lower minimum start bound (r.expr left)) r.expr Mark.ofExpr := by
  induction bound generalizing left with
  | zero => exact .pure rfl rfl
  | succ bound ih =>
    apply (tracks_nextBinaryOp? minimum).andThen
    intro found
    cases found with
    | none => exact .pure rfl rfl
    | some op =>
      apply tracks_advance.andThen
      intro _
      apply (rules.binary _).andThen
      intro right
      apply (tracks_finishSpan _).andThen
      intro span
      exact ih (.binary op left right span)

theorem composed_binary (minimum : Nat) : r.Reads (binary lower minimum) r.expr Mark.ofExpr := by
  apply tracks_peek.andThen
  intro token
  apply (composed_unary rules).bind
  intro left
  apply tracks_remaining.andThen
  intro bound
  exact composed_binaryTail rules minimum _ _ left

theorem composed_conditional : r.Reads (conditional lower) r.expr Mark.ofExpr := by
  apply tracks_peek.andThen
  intro token
  apply (composed_binary rules 1).andThen
  intro test
  apply (tracks_eatPunct _).andThen
  intro chosen
  refine .ite rfl ?_ (.pure rfl rfl)
  apply rules.assignment.allowingIn.andThen
  intro consequent
  apply (tracks_expectPunct _).andThen
  intro _
  apply rules.assignment.andThen
  intro alternate
  exact .finish (fun _ => rfl) fun _ => rfl

/-! ## Arrow functions and assignments -/

omit rules in
theorem arrowHead?_cursor (r : Renumbering) (cursor : Cursor) :
    arrowHead? (r.cursor cursor) = arrowHead? cursor := by
  have arrow (index : Nat) : arrowAt (r.cursor cursor) index = arrowAt cursor index := by
    simp only [arrowAt, r.cursor_tokenAt]
    rfl
  simp only [arrowHead?, arrow, r.cursor_peek, r.cursor_closeIndex?]
  rfl

omit rules in
theorem composed_arrowParameters (head : ArrowHead) :
    r.Reads (arrowParameters head) (List.map r.identifier) fun params =>
      params.map .binding := by
  cases head with
  | name =>
    apply composed_bindingName.andThen
    intro name
    exact .pure rfl rfl
  | parenthesized => exact composed_parameters

theorem composed_arrowBody : r.Reads (arrowBody lower) r.arrowBody Mark.ofArrowBody := by
  apply (tracks_atPunct _).andThen
  intro braced
  refine .ite rfl ?_ ?_
  · apply (composed_blockBody rules).andThen
    intro body
    exact .pure rfl rfl
  · apply rules.assignment.andThen
    intro value
    exact .pure rfl rfl

/-- The marks of an arrow function without those of its scope. -/
def arrowMarks : Expr → List Mark
  | .arrow arrow => Mark.ofArrow arrow
  | _ => []

theorem composed_arrowFunction (head : ArrowHead) (start : Span) :
    r.Reads (arrowFunction lower head start) r.expr arrowMarks := by
  apply (composed_arrowParameters head).andThen
  intro params
  apply (tracks_expectPunct _).andThen
  intro _
  apply (composed_arrowBody rules).andThen
  intro body
  exact .finish (fun _ => rfl) fun _ => rfl

omit rules in
/-- The scope of an arrow function is opened around its rule. -/
theorem results_arrowFunction (head : ArrowHead) (start : Span) :
    Results (fun value => Mark.ofExpr value = Mark.enclosed (arrowMarks value))
      (arrowFunction lower head start) :=
  .bind fun _ => .bind fun _ => .bind fun _ => .bind fun _ => .pure rfl

theorem composed_enclosedArrow (head : ArrowHead) (start : Span) :
    r.Reads (inScope (arrowFunction lower head start)) r.expr Mark.ofExpr :=
  (composed_arrowFunction rules head start).inScope.reviewed
    (results_arrowFunction head start).inScope

theorem composed_assignmentFrom (start : Span) :
    r.Reads (assignmentFrom lower start) r.expr Mark.ofExpr := by
  apply (composed_conditional rules).andThen
  intro target
  apply tracks_peek.andThen
  intro next
  have same : AssignOp.ofToken? (r.token next) = AssignOp.ofToken? next := rfl
  rw [same, r.expr_span]
  cases AssignOp.ofToken? next with
  | none => exact .pure rfl rfl
  | some op =>
    refine .ite (r.expr_isAssignmentTarget target) ?_ (.malformed _ _)
    apply tracks_advance.andThen
    intro _
    apply rules.assignment.andThen
    intro value
    exact .finish (fun _ => rfl) fun _ => rfl

theorem composed_assignment : r.Reads (assignment lower) r.expr Mark.ofExpr := by
  apply Renumbering.ComposedWhere.choose fun cursor =>
    (arrowHead? cursor).elim (assignmentFrom lower cursor.peek.span) fun head =>
      inScope (arrowFunction lower head cursor.peek.span)
  · intro state
    simp only [assignment]
    cases arrowHead? state.cursor <;> rfl
  · intro cursor
    have start : (r.token cursor.peek).span = cursor.peek.span := rfl
    rw [arrowHead?_cursor, r.cursor_peek, start]
    cases arrowHead? cursor with
    | none => exact .anywhere (composed_assignmentFrom rules _)
    | some head => exact .anywhere (composed_enclosedArrow rules head _)

/-! ## Sequences -/

theorem composed_expression : r.Reads (expression lower) r.expr Mark.ofExpr := by
  apply tracks_peek.andThen
  intro token
  apply (composed_assignment rules).andThen
  intro first
  apply (tracks_eatPunct _).andThen
  intro more
  refine .ite rfl ?_ (.pure rfl rfl)
  apply tracks_remaining.andThen
  intro bound
  apply (rules.assignment.commaSequence _).andThen
  intro rest
  apply (tracks_finishSpan _).andThen
  intro span
  refine .pure ?_ ?_
  · simp only [Renumbering.expr, Renumbering.exprs, r.exprs_eq_map, id]
  · simp [Mark.ofExpr, Mark.ofExprs, Mark.ofExprs_eq_flatMap]

end MacroScript.Grammar
