import MacroScript.Proofs.Extent.MacroNode
import MacroScript.Proofs.Reading.Composed
import MacroScript.Proofs.Scanning

/-!
# The grammar makes good trees

Every rule of the grammar stays within the extent of its tokens and makes good trees, provided the
rules it calls do.  A node is finished when its parts have been read: it begins with the token that
the rule began with and ends with the token that was read last.  What is assigned to is checked when
it has been read.  An `if` and a loop are followed by what follows the statement they end with, and
an `if` that has no `else` has looked for one in vain.
-/

namespace MacroScript.Grammar

open MacroScript.Extent MacroScript.Extent.Page MacroScript.Outcome

variable {first : Nat} {before : Nat → Prop} {read : Program}

/-- The parser leads to an expression that has been read since `first`. -/
abbrev LeadsExpr {e : Extent} (page : Page e) (first : Nat) (before : Nat → Prop)
    (parser : Parser Expr) : Prop :=
  page.Leads before Expr.Respected (fun expr => page.At first 1 [.ofExpr expr]) parser

/-- The parser adds an expression. -/
abbrev AddsExpr {e : Extent} (page : Page e) (parser : Parser Expr) : Prop :=
  page.Adds 1 (fun expr => [.ofExpr expr]) Expr.Respected parser

/-- The parser leads to a statement that has been read since `first` and declares no macro. -/
abbrev LeadsStmt {e : Extent} (page : Page e) (first : Nat) (before : Nat → Prop)
    (parser : Parser Stmt) : Prop :=
  page.Leads before (fun stmt => stmt.isMacro = true → False)
    (fun stmt => page.Ends first 1 [.ofStmt stmt] stmt) parser

/-- The rules that other rules call stay on the page and make good trees. -/
structure Rules.Bounded {e : Extent} (page : Page e) (lower : Rules) : Prop where
  statement : page.AddsStmt True lower.statement
  expression : AddsExpr page lower.expression
  assignment : AddsExpr page lower.assignment
  binary (minimum : Nat) : AddsExpr page (lower.binary minimum)
  unary : AddsExpr page lower.unary
  construct : AddsExpr page lower.construct

variable {e : Extent} {page : Page e} {lower : Rules} (rules : lower.Bounded page) {α : Type}
  {parts : Option α → List Outline}

/-! ## Blocks and functions -/

theorem adds_parameters :
    page.Adds 1 (fun params => params.map .ofName) (fun _ => True) parameters :=
  fun _ => .opening <| (leads_expectPunct _).bind fun _ _ => leads_remaining.bind fun _ _ =>
    (adds_commaItems adds_bindingName _ _).more.bind fun _ _ => (leads_expectPunct _).bind
      fun _ _ => .done trivial rfl

section Blocks

include rules

theorem adds_statements (stop : Token → Bool) (bound : Nat) :
    page.Adds 0 Outline.ofStmts (fun body => Slot.AllRespected (body.map .ofStmt))
      (itemsUntil stop lower.statement bound) := by
  intro first
  refine (adds_itemsUntil rules.statement.plain stop bound first).mono ?_ ?_
  · intro body each
    simpa using each
  · intro body index _ known
    rw [Outline.ofStmts_eq_map]
    exact known

theorem adds_blockBody :
    page.Adds 1 (fun block => [.ofBlock block]) (fun block => Slot.AllRespected block.slots)
      (blockBody lower) :=
  fun _ => (takes_expectPunct _).opens.bind fun _ begins => leads_remaining.bind fun _ _ =>
    (adds_statements rules _ _).more.bind fun _ body => leads_advance.bind fun _ _ =>
      (closes_finishSpan begins).bind fun _ _ => .done body rfl

theorem adds_block :
    page.Adds 1 (fun block => [.ofBlock block]) (fun block => Slot.AllRespected block.slots)
      (block lower) :=
  fun first => leads_inScope (adds_blockBody rules first)

theorem adds_functionRest :
    page.Adds 1 (fun rest => rest.1.map .ofName ++ [.ofBlock rest.2])
      (fun rest => Slot.AllRespected rest.2.slots) (functionRest lower) :=
  fun first => (adds_parameters first).bind fun _ _ => (adds_blockBody rules).more.bind
    fun _ body => .done body rfl

theorem adds_functionStatement :
    page.Adds 1 (fun function => [.ofFunction function])
      (fun function => Slot.AllRespected function.body.slots) (functionStatement lower) :=
  fun _ => (takes_expectReserved _).opens.bind fun _ begins => adds_bindingName.more.bind
    fun _ _ => (leads_inScope (adds_functionRest rules).more).bind fun _ body =>
      (closes_finishSpan begins).bind fun _ _ => .done body rfl

theorem adds_namedFunctionRest :
    page.Adds 1
      (fun rest => rest.1.toList.map .ofName ++ (rest.2.1.map .ofName ++ [.ofBlock rest.2.2]))
      (fun rest => Slot.AllRespected rest.2.2.slots) (namedFunctionRest lower) :=
  fun first => leads_peek.bind fun _ _ => .ite
    ((adds_bindingName first).bind fun _ _ => (adds_functionRest rules).more.bind fun _ body =>
      .done body rfl)
    ((adds_functionRest rules first).bind fun _ body => .done body rfl)

theorem adds_functionExpression :
    page.Adds 1 (fun function => [.ofFunction function])
      (fun function => Slot.AllRespected function.body.slots) (functionExpression lower) :=
  fun _ => (takes_expectReserved _).opens.bind fun _ begins =>
    (leads_inScope (adds_namedFunctionRest rules).more).bind fun _ body =>
      (closes_finishSpan begins).bind fun _ _ => .done body rfl

end Blocks

/-! ## Primary expressions -/

/-- A node that is a single token. -/
theorem leads_token {good : α → Prop} (view : Token → α) {outline : α → Outline}
    (real : (page.tokenAt first).isEnd = false) (holds : good (view (page.tokenAt first)))
    (same : outline (view (page.tokenAt first)) = .node (page.tokenAt first).span []) :
    page.Leads (· = first) good (fun value => page.At first 1 [outline value])
      (do return view (← advance)) := by
  apply (takes_advance real).bind
  rintro _ rfl
  refine .pure holds ?_
  rintro _ rfl
  rw [same]
  exact ⟨Nat.le_refl _, .node (Nat.le_refl _) (.token (page.ready.lt_of_not_end real))
    (.nil (Nat.le_succ _)) (.nil (Nat.le_refl _))⟩

theorem leads_literalOf (real : (page.tokenAt first).isEnd = false) (kind : LiteralKind) :
    LeadsExpr page first (· = first) (literalOf kind) :=
  leads_token _ real (.of_slots (by simp [Expr.slots])) rfl

section Primary

include rules

theorem adds_listItems (closer : String) :
    page.Adds 0 Outline.ofExprs (fun items => ∀ item ∈ items, item.Respected)
      (listItems lower closer) := by
  intro first
  refine leads_remaining.bind fun _ _ =>
    (adds_commaItems rules.assignment _ _ first).mono (fun _ => id) ?_
  intro items index _ known
  rw [Outline.ofExprs_eq_map]
  exact known

theorem adds_callArguments :
    page.Adds 1 Outline.ofExprs (fun items => ∀ item ∈ items, item.Respected)
      (callArguments lower) :=
  fun _ => .opening <| (leads_expectPunct _).bind fun _ _ =>
    (leads_allowingIn (adds_listItems rules ")").more).bind fun _ items =>
      (leads_expectPunct _).bind fun _ _ => .done items rfl

theorem adds_propertyKey :
    page.Adds 0 Outline.ofPropertyKey (fun key => Slot.AllRespected key.slots)
      (propertyKey lower) := by
  intro first
  apply Leads.opening
  apply leads_peek.bind
  intro token _
  split
  · exact leads_advance.bind fun _ _ => .list (by simp [PropertyKey.slots]) rfl
  · exact leads_advance.bind fun _ _ => .list (by simp [PropertyKey.slots]) rfl
  · exact leads_advance.bind fun _ _ => .list (by simp [PropertyKey.slots]) rfl
  · exact leads_advance.bind fun _ _ => .list (by simp [PropertyKey.slots]) rfl
  · apply Leads.ite
    · exact leads_advance.bind fun _ _ => rules.assignment.more.bind fun _ key =>
        (leads_expectPunct _).bind fun _ _ => .list (by simp [PropertyKey.slots, key]) rfl
    · exact leads_unexpected

theorem adds_property :
    page.Adds 1 (fun property => [.ofProperty property])
      (fun property => Slot.AllRespected property.slots) (property lower) := by
  intro first
  apply first_peek.bind
  rintro _ rfl
  apply (leads_peekAt 1).bind
  intro following _
  apply Leads.ite
  · -- The property and its value are the same token.
    apply (names_referenceName first).bind
    intro value known
    refine .pure (by simp [Property.slots, PropertyKey.slots, Expr.Respected, Expr.slots]) ?_
    rintro _ rfl
    have covers : page.Covers first (first + 1) value.span := known.1 ▸ .token known.2
    exact ⟨Nat.le_refl _, .node (Nat.le_refl _) (.token known.2)
      (.leaf (Nat.le_refl _) covers (absurd · Bool.false_ne_true) (.nil (Nat.le_refl _)))
      (.nil (Nat.le_refl _))⟩
  · exact (adds_propertyKey rules first).bind fun _ key => (leads_expectPunct _).bind fun _ _ =>
      rules.assignment.more.bind fun _ value => (closes_finishSpan fun _ => rfl).bind fun _ _ =>
        .done (by simp [Property.slots, key, value]) rfl

theorem adds_properties :
    page.Adds 0 Outline.ofProperties (fun members => Slot.AllRespected
      (members.flatMap Property.slots)) (properties lower) := by
  intro first
  refine leads_remaining.bind fun _ _ =>
    (adds_commaItems (adds_property rules) _ _ first).mono ?_ ?_
  · intro members each
    simpa using each
  · intro members index _ known
    rw [Outline.ofProperties_eq_map]
    exact known

theorem adds_objectLiteral : AddsExpr page (objectLiteral lower) :=
  fun _ => (takes_expectPunct _).opens.bind fun _ begins =>
    (leads_allowingIn (adds_properties rules).more).bind fun _ members =>
      (leads_expectPunct _).bind fun _ _ => (closes_finishSpan begins).bind fun _ _ =>
        .done members rfl

theorem adds_arrayLiteral : AddsExpr page (arrayLiteral lower) := by
  intro first
  apply first_advance.bind
  rintro _ rfl
  exact (leads_allowingIn (adds_listItems rules "]").more).bind fun _ elements =>
    (leads_expectPunct _).bind fun _ _ => (closes_finishSpan fun _ => rfl).bind fun _ _ =>
      .done (.of_slots (by simpa [Expr.slots] using elements)) rfl

theorem adds_grouped : AddsExpr page (grouped lower) :=
  fun _ => .opening <| (leads_expectPunct _).bind fun _ _ =>
    (leads_allowingIn rules.expression.more).bind fun _ inner =>
      (leads_expectPunct _).bind fun _ _ => .done inner rfl

theorem leads_reservedPrimary (isReserved : (page.tokenAt first).kind = .keyword) :
    LeadsExpr page first (· = first) (reservedPrimary lower (page.tokenAt first)) := by
  have real : (page.tokenAt first).isEnd = false := by
    simp [Token.isEnd, isReserved]
  apply Leads.ite (leads_literalOf real _)
  apply Leads.ite (leads_literalOf real _)
  apply Leads.ite
  · exact leads_token (fun _ => Expr.this (page.tokenAt first).span) real
      (.of_slots (by simp [Expr.slots])) rfl
  apply Leads.ite
  · exact (adds_functionExpression rules first).bind fun _ function => .done function rfl
  · exact leads_unexpected

theorem adds_punctPrimary (token : Token) : AddsExpr page (punctPrimary lower token) :=
  fun first => .ite (adds_grouped rules first) (.ite (adds_arrayLiteral rules first)
    (.ite (adds_objectLiteral rules first) leads_unexpected))

theorem adds_primary : AddsExpr page (primary lower) := by
  intro first
  apply first_peek.bind
  rintro _ rfl
  cases kind : (page.tokenAt first).kind with
  | name => exact adds_nameExpression first
  | number
  | bigint
  | string
  | regex => exact leads_literalOf (by simp [Token.isEnd, kind]) _
  | keyword => exact leads_reservedPrimary rules kind
  | punct => exact adds_punctPrimary rules _ first
  | eof => exact leads_unexpected

end Primary

/-! ## Members and calls -/

section Nodes

variable {gained : Nat} {base : Expr} {start : Span}

theorem leads_memberName {read : List Outline} :
    page.Leads (page.At first gained read) (fun _ => True) (fun _ => page.At first gained read)
      memberName :=
  leads_peek.bind fun _ _ => .ite (leads_advance.bind fun _ _ => .pure trivial fun _ => id)
    leads_unexpected

include rules

theorem adds_computedMember :
    page.Adds 0 Outline.ofMemberKey (fun key => Slot.AllRespected key.slots)
      (computedMember lower) :=
  fun _ => .opening <| (leads_allowingIn rules.expression.more).bind fun _ value =>
    (leads_expectPunct _).bind fun _ _ => .list (by simp [MemberKey.slots, value]) rfl

theorem leads_optionalSuffix (begins : page.Starts first start) (inner : base.Respected) :
    LeadsExpr page first (page.At first (gained + 1) [.ofExpr base])
      (optionalSuffix lower start base) := by
  apply (leads_atPunct _).bind
  intro called _
  apply Leads.ite
  · exact (adds_callArguments rules).more.bind fun _ arguments =>
      (closes_finishSpan begins).bind fun _ _ =>
        .done (.of_slots (by simpa [Expr.slots, inner] using arguments)) rfl
  apply (leads_eatPunct _).bind
  intro computed _
  apply Leads.ite
  · exact (adds_computedMember rules).more.bind fun _ key => (closes_finishSpan begins).bind
      fun _ _ => .done (.of_slots (by simp [Expr.slots, inner, key])) rfl
  · exact leads_memberName.bind fun _ _ => (closes_finishSpan begins).bind fun _ _ =>
      .done (.of_slots (by simp [Expr.slots, MemberKey.slots, inner])) rfl

/-- Where nothing follows, the expression stays as it is. -/
theorem leads_suffix? (calls : Bool) (begins : page.Starts first start) (inner : base.Respected) :
    page.Leads (page.At first (gained + 1) [.ofExpr base])
      (fun longer => (longer.getD base).Respected)
      (fun longer => page.At first 1 [.ofExpr (longer.getD base)])
      (suffix? lower calls start base) := by
  apply (leads_eatPunct _).bind
  intro named _
  apply Leads.ite
  · exact leads_memberName.bind fun _ _ => (closes_finishSpan begins).bind fun _ _ =>
      .done (.of_slots (by simp [Expr.slots, MemberKey.slots, inner])) rfl
  apply (leads_atPunct _).bind
  intro isOptional _
  apply Leads.ite
  · exact leads_advance.bind fun _ _ => (leads_optionalSuffix rules begins inner).bind
      fun _ longer => .done longer rfl
  apply (leads_eatPunct _).bind
  intro computed _
  apply Leads.ite
  · exact (adds_computedMember rules).more.bind fun _ key => (closes_finishSpan begins).bind
      fun _ _ => .done (.of_slots (by simp [Expr.slots, inner, key])) rfl
  apply (leads_atPunct _).bind
  intro called _
  apply Leads.ite
  · exact (adds_callArguments rules).more.bind fun _ arguments => (closes_finishSpan begins).bind
      fun _ _ => .done (.of_slots (by simpa [Expr.slots, inner] using arguments)) rfl
  · exact .done inner rfl

theorem leads_suffixes (calls : Bool) (begins : page.Starts first start) (bound : Nat)
    (inner : base.Respected) :
    LeadsExpr page first (page.At first (gained + 1) [.ofExpr base])
      (suffixes lower calls start bound base) := by
  induction bound generalizing base gained with
  | zero => exact .done inner rfl
  | succ bound ih =>
    apply (leads_suffix? rules calls begins inner).bind
    intro longer known
    cases longer with
    | none => exact .done known rfl
    | some longer => exact ih known

/-- The node begins where the expression does, which may be behind the first token. -/
theorem leads_withSuffixes (calls : Bool) (inner : base.Respected) :
    LeadsExpr page first (page.At first (gained + 1) [.ofExpr base])
      (withSuffixes lower calls base) := by
  apply leads_remaining.bind
  intro bound _ state holds known
  obtain ⟨place, le, inside, begins, arranged, -⟩ := known.arranged.exists_first
  rw [Outline.ofExpr_span] at begins
  have reopened : page.At place (0 + 1) [.ofExpr base] state.cursor.index := ⟨inside, arranged⟩
  refine (leads_suffixes rules calls begins _ inner state holds reopened).imp ?_ fun _ _ => id
  intro value after reached
  exact ⟨reached.1, reached.2.1, reached.2.2.since le⟩

end Nodes

section Members

include rules

theorem adds_construct : AddsExpr page (construct lower) := by
  intro first
  apply first_advance.bind
  rintro _ rfl
  have rest : ∀ head : Expr, head.Respected →
      LeadsExpr page first (page.At first 1 [.ofExpr head]) (do
        let callee ← withSuffixes lower false head
        let arguments ← if ← atPunct "(" then callArguments lower else pure []
        return Expr.construct callee arguments (← finishSpan (page.tokenAt first).span)) := by
    intro head headRespected
    apply (leads_withSuffixes rules false headRespected).bind
    intro callee calleeRespected
    apply (leads_atPunct _).bind
    intro called _
    have last : ∀ arguments : List Expr, (∀ argument ∈ arguments, argument.Respected) →
        ∀ {more : Nat}, LeadsExpr page first
          (page.At first (more + 1) (.ofExpr callee :: Outline.ofExprs arguments)) (do
            return Expr.construct callee arguments (← finishSpan (page.tokenAt first).span)) :=
      fun _ arguments _ => (closes_finishSpan fun _ => rfl).bind fun _ _ =>
        .done (.of_slots (by simpa [Expr.slots, calleeRespected] using arguments)) rfl
    exact .ite ((adds_callArguments rules).more.bind fun _ known => last _ known)
      (last [] (by simp))
  apply (leads_atReserved _).bind
  intro nested _
  exact .ite (rules.construct.more.bind rest) ((adds_primary rules).more.bind rest)

theorem adds_leftHandSide : AddsExpr page (leftHandSide lower) :=
  fun first => (leads_atReserved _).bind fun _ _ => .ite
    ((adds_construct rules first).bind fun _ inner => leads_withSuffixes rules true inner)
    ((adds_primary rules first).bind fun _ inner => leads_withSuffixes rules true inner)

end Members

/-! ## Operators -/

section Operators

variable {gained : Nat} {start : Span}

include rules

theorem leads_updateBefore (op : UpdateOp) (begins : page.Starts first start) :
    LeadsExpr page first (· = first) (updateBefore lower op start) :=
  first_advance.bind fun _ _ => rules.unary.more.bind fun _ inner => .checked
    (fun assignable => (closes_finishSpan begins).bind fun _ _ =>
      .done (.of_slots (Slot.allRespected_target assignable inner (by simp))) rfl)
    (leads_malformed (fun _ known => known.contains_expr (by simp)) _)

theorem leads_updateAfter (begins : page.Starts first start) :
    LeadsExpr page first (· = first) (updateAfter lower start) := by
  apply (adds_leftHandSide rules first).bind
  intro argument inner
  apply leads_peek.bind
  intro next _
  split
  · refine Leads.ite (.done inner rfl) ?_
    apply Leads.checked
    · exact fun assignable => leads_advance.bind fun _ _ => (closes_finishSpan begins).bind
        fun _ _ => .done (.of_slots (Slot.allRespected_target assignable inner (by simp))) rfl
    · exact leads_malformed (fun _ known => known.contains_expr (by simp)) _
  · exact .done inner rfl

theorem adds_unary : AddsExpr page (unary lower) := by
  intro first
  apply first_peek.bind
  rintro _ rfl
  split
  · exact first_advance.bind fun _ _ => rules.unary.more.bind fun _ argument =>
      (closes_finishSpan fun _ => rfl).bind fun _ _ =>
        .done (.of_slots (by simp [Expr.slots, argument])) rfl
  · split
    · exact leads_updateBefore rules _ fun _ => rfl
    · exact leads_updateAfter rules fun _ => rfl

theorem leads_binaryTail (minimum : Nat) (begins : page.Starts first start) (bound : Nat)
    {left : Expr} (inner : left.Respected) :
    LeadsExpr page first (page.At first (gained + 1) [.ofExpr left])
      (binaryTail lower minimum start bound left) := by
  induction bound generalizing left gained with
  | zero => exact .done inner rfl
  | succ bound ih =>
    apply (leads_look fun cursor => (BinaryOp.ofToken? cursor.peek).filter fun op : BinaryOp =>
      !(op == .inside && !cursor.allowIn) && minimum ≤ op.precedence).bind
    intro next _
    cases next with
    | none => exact .done inner rfl
    | some op =>
      apply leads_advance.bind fun _ _ => (rules.binary _).more.bind fun right second =>
        (closes_finishSpan begins).bind fun span _ => ?_
      have whole : (Expr.binary op left right span).Respected :=
        .of_slots (by simp [Expr.slots, inner, second])
      exact ih whole

theorem adds_binary (minimum : Nat) : AddsExpr page (binary lower minimum) := by
  intro first
  apply first_peek.bind
  rintro _ rfl
  exact (adds_unary rules first).bind fun _ left => leads_remaining.bind fun _ _ =>
    leads_binaryTail rules minimum (fun _ => rfl) _ left

theorem adds_conditional : AddsExpr page (conditional lower) := by
  intro first
  apply first_peek.bind
  rintro _ rfl
  apply (adds_binary rules 1 first).bind
  intro test inner
  apply (leads_eatPunct _).bind
  intro chosen _
  apply Leads.ite
  · exact (leads_allowingIn rules.assignment.more).bind fun _ consequent =>
      (leads_expectPunct _).bind fun _ _ => rules.assignment.more.bind fun _ alternate =>
        (closes_finishSpan fun _ => rfl).bind fun _ _ =>
          .done (.of_slots (by simp [Expr.slots, inner, consequent, alternate])) rfl
  · exact .done inner rfl

end Operators

/-! ## Arrow functions, assignments and sequences -/

theorem adds_arrowParameters (head : ArrowHead) :
    page.Adds 1 (fun params => params.map .ofName) (fun _ => True) (arrowParameters head) := by
  intro first
  cases head with
  | name => exact (adds_bindingName first).bind fun _ _ => .done trivial rfl
  | parenthesized => exact adds_parameters first

section Assignments

variable {start : Span}

include rules

theorem adds_arrowBody :
    page.Adds 1 (fun body => [.ofArrowBody body]) (fun body => Slot.AllRespected body.slots)
      (arrowBody lower) :=
  fun first => (leads_atPunct _).bind fun _ _ => .ite
    ((adds_blockBody rules first).bind fun _ body => .done body rfl)
    ((rules.assignment first).bind fun _ value => .done (by simp [ArrowBody.slots, value]) rfl)

theorem leads_arrowFunction (head : ArrowHead) (begins : page.Starts first start) :
    LeadsExpr page first (· = first) (arrowFunction lower head start) :=
  (adds_arrowParameters head first).bind fun _ _ => (leads_expectPunct _).bind fun _ _ =>
    (adds_arrowBody rules).more.bind fun _ body => (closes_finishSpan begins).bind fun _ _ =>
      .done body rfl

theorem leads_assignmentFrom (begins : page.Starts first start) :
    LeadsExpr page first (· = first) (assignmentFrom lower start) := by
  apply (adds_conditional rules first).bind
  intro target inner
  apply leads_peek.bind
  intro next _
  split
  · apply Leads.checked
    · exact fun assignable => leads_advance.bind fun _ _ => rules.assignment.more.bind
        fun _ value => (closes_finishSpan begins).bind fun _ _ =>
          .done (.of_slots (Slot.allRespected_target assignable inner (by simp [value]))) rfl
    · exact leads_malformed (fun _ known => known.contains_expr (by simp)) _
  · exact .done inner rfl

theorem adds_assignment : AddsExpr page (assignment lower) := by
  intro first
  apply Leads.choose fun state =>
    (arrowHead? state.cursor).elim (assignmentFrom lower state.cursor.peek.span) fun head =>
      inScope (arrowFunction lower head state.cursor.peek.span)
  · intro state
    simp only [assignment]
    cases arrowHead? state.cursor <;> rfl
  · rintro state holds rfl
    have begins : page.Starts state.cursor.index state.cursor.peek.span := by
      rw [Cursor.peek, holds.tokenAt]
      exact fun _ => rfl
    cases arrowHead? state.cursor with
    | none => exact leads_assignmentFrom rules begins
    | some head => exact leads_inScope (leads_arrowFunction rules head begins)

theorem adds_expression : AddsExpr page (expression lower) := by
  intro first
  apply first_peek.bind
  rintro _ rfl
  apply (adds_assignment rules first).bind
  intro value inner
  apply (leads_eatPunct _).bind
  intro more _
  apply Leads.ite
  · exact leads_remaining.bind fun _ _ => (adds_commaSequence rules.assignment _).more.bind
      fun _ others => (closes_finishSpan fun _ => rfl).bind fun _ _ =>
        .done (.of_slots (by simpa [Expr.slots, inner] using others))
          (by simp [Outline.ofExpr, Outline.ofExprs, Outline.ofExprs_eq_map])
  · exact .done inner rfl

end Assignments

/-! ## Statements -/

theorem leads_declarationKind {token : Token} (contains : e.ContainsToken token) :
    page.Leads before (fun _ => True) (fun _ => before) (declarationKind token) := by
  unfold declarationKind
  split
  · exact .pure trivial fun _ => id
  · exact leads_malformed (fun _ _ => contains) _

theorem adds_none {good : α → Prop} (nothing : parts none = []) :
    page.Adds 0 parts (fun found => ∀ value ∈ found, good value) (pure none) :=
  fun _ => .opening (.list (by simp) nothing)

theorem adds_some {good : α → Prop} {outline : α → Outline} {parser : Parser α}
    (adds : page.Adds 1 (fun value => [outline value]) good parser)
    (same : ∀ value, parts (some value) = [outline value]) :
    page.Adds 0 parts (fun found => ∀ value ∈ found, good value) (some <$> parser) := by
  intro first
  rw [map_eq_pure_bind]
  exact (adds first).bind fun value holds => .list (by simpa using holds) (same value)

theorem adds_catchParameter :
    page.Adds 0 (fun param => param.toList.map .ofName) (fun _ => True) catchParameter :=
  fun _ => .opening <| (leads_eatPunct _).bind fun _ _ => .ite
    (adds_bindingName.more.bind fun _ _ => (leads_expectPunct _).bind fun _ _ => .list trivial rfl)
    (.list trivial rfl)

theorem leads_jumpStatement (real : (page.tokenAt first).isEnd = false) :
    LeadsStmt page first (· = first) jumpStatement := by
  apply (opens_real real).bind fun word begins => leads_endStatement.bind fun _ _ =>
    (closes_finishSpan begins).bind fun span _ => ?_
  split
  · exact .closed (fun _ => .of_slots rfl (by simp [Stmt.slots])) rfl rfl
  · exact .closed (fun _ => .of_slots rfl (by simp [Stmt.slots])) rfl rfl

section Statements

include rules

theorem addsStmt_expressionStatement : page.AddsStmt False (expressionStatement lower) :=
  fun first => opens_peek.bind fun _ begins => (adds_expression rules first).bind fun _ value =>
    leads_endStatement.bind fun _ _ => (closes_finishSpan begins).bind fun _ _ =>
      .closed (fun _ => .expression value) rfl rfl

theorem adds_optionalExpression (closer : String) :
    page.Adds 0 Outline.ofExpr? (fun found => ∀ value ∈ found, value.Respected)
      (optionalExpression lower closer) :=
  fun first => (leads_atPunct _).bind fun _ _ => .ite (adds_none rfl first)
    (adds_some rules.expression (fun _ => rfl) first)

theorem adds_declarator :
    page.Adds 1 (fun declarator => [.ofDeclarator declarator])
      (fun declarator => Slot.AllRespected declarator.slots) (declarator lower) := by
  intro first
  apply opens_peek.bind
  intro start begins
  apply (adds_bindingName first).bind
  intro id _
  have rest : ∀ init : Option Expr, (∀ value ∈ init, value.Respected) →
      page.Leads (page.At first (0 + 1) ([.ofName id] ++ Outline.ofExpr? init))
        (fun declarator => Slot.AllRespected declarator.slots)
        (fun declarator => page.At first 1 [.ofDeclarator declarator]) (do
          return Declarator.mk id init (← finishSpan start.span)) :=
    fun _ init => (closes_finishSpan begins).bind fun _ _ =>
      .done (by simpa [Declarator.slots] using init) rfl
  apply (leads_eatPunct _).bind
  intro initialized _
  apply Leads.ite
  · exact (adds_some rules.assignment fun _ => rfl).more.bind rest
  · exact (adds_none rfl).more.bind rest

/-- The span of a declaration begins with its word. -/
theorem leads_declaration (first : Nat) :
    page.Leads (· = first)
      (fun declared => page.Starts first declared.span ∧ Slot.AllRespected declared.slots)
      (fun declared => page.At first 1 [.ofDeclaration declared]) (declaration lower) := by
  apply first_advance.bind
  rintro _ rfl
  apply (leads_declarationKind (page.contains.tokenAt first)).bind
  intro kind _
  apply leads_remaining.bind fun _ _ => (adds_commaSequence (adds_declarator rules) _).more.bind
    fun declarators each => (closes_finishSpan fun _ => rfl).bind fun span begins => ?_
  refine .done ⟨begins, by simpa [Declaration.slots] using each⟩ ?_
  rw [Outline.ofDeclaration, Outline.ofDeclarators_eq_map]
  rfl

theorem adds_declaration :
    page.Adds 1 (fun declared => [.ofDeclaration declared])
      (fun declared => Slot.AllRespected declared.slots) (declaration lower) :=
  fun first => (leads_declaration rules first).mono (fun _ => And.right) fun _ _ _ => id

theorem addsStmt_declarationStatement : page.AddsStmt False (declarationStatement lower) := by
  intro first
  apply (leads_declaration rules first).bind
  rintro ⟨kind, declarators, span⟩ ⟨begins, respected⟩
  exact Leads.given (leads_endStatement.bind fun _ _ => (closes_finishSpan begins).bind fun _ _ =>
    .closed (fun _ => .of_slots rfl respected) rfl rfl) fun _ => At.parts

theorem leads_returnStatement (real : (page.tokenAt first).isEnd = false) :
    LeadsStmt page first (· = first) (returnStatement lower) := by
  apply (opens_real real).bind
  intro start begins
  apply leads_peek.bind
  intro next _
  have rest : ∀ argument : Option Expr, (∀ value ∈ argument, value.Respected) →
      LeadsStmt page first (page.At first (0 + 1) ([] ++ Outline.ofExpr? argument)) (do
          endStatement
          return Stmt.returns argument (← finishSpan start.span)) :=
    fun _ argument => leads_endStatement.bind fun _ _ => (closes_finishSpan begins).bind
      fun _ _ => .closed (fun _ => .of_slots rfl (by simpa [Stmt.slots] using argument)) rfl rfl
  apply Leads.ite
  · exact (adds_none rfl).more.bind rest
  · exact (adds_some rules.expression fun _ => rfl).more.bind rest

theorem addsStmt_throwStatement : page.AddsStmt False (throwStatement lower) :=
  fun _ => opens_advance.bind fun _ begins => leads_peek.bind fun _ contains =>
    .ite (leads_malformed (fun _ _ => contains) _)
      (rules.expression.more.bind fun _ argument => leads_endStatement.bind fun _ _ =>
        (closes_finishSpan begins).bind fun _ _ =>
          .closed (fun _ => .of_slots rfl (by simp [Stmt.slots, argument])) rfl rfl)

theorem addsStmt_ifStatement : page.AddsStmt False (ifStatement lower) := by
  intro first
  apply opens_advance.bind
  intro start begins
  apply (adds_grouped rules).more.bind
  intro test tested
  apply rules.statement.more.bind
  intro consequent _
  apply (looks_eatReserved "else" _).bind
  intro found _
  cases found with
  | true =>
    rintro state holds ⟨former, ends, place, next⟩
    have inner := ends.respected .guarded fun _ => next
    have read := ends.known.later (Nat.le_of_lt (Nat.lt_of_succ_le (Nat.le_of_eq place.symm)))
    simp only [if_true, map_eq_pure_bind, bind_assoc, pure_bind]
    refine Leads.ending begins rules.statement (fun _ _ => rfl) ?_ (fun _ _ => rfl) state holds read
    exact fun role alternate span last => .of_slots rfl (by simp [Stmt.slots, tested, inner, last])
  | false =>
    -- The cursor still stands where no `else` was found.
    rintro state holds ⟨ends, absent⟩
    obtain ⟨-, -, node⟩ := closes_finishSpan begins state holds ends.known
    refine ⟨holds, Bool.false_ne_true, node.weaken (by omega), fun role guarded => ?_⟩
    refine .ifOnly tested ends.plain fun isGuarded => ?_
    exact Bool.noConfusion (absent.symm.trans (guarded isGuarded))

theorem addsStmt_whileStatement : page.AddsStmt False (whileStatement lower) :=
  fun _ => opens_advance.bind fun _ begins => (adds_grouped rules).more.bind fun _ test =>
    .ending begins rules.statement (fun _ _ => rfl)
      (fun _ _ _ body => .of_slots rfl (by simp [Stmt.slots, test, body])) fun _ _ => rfl

theorem addsStmt_doWhileStatement : page.AddsStmt False (doWhileStatement lower) :=
  fun _ => opens_advance.bind fun _ begins => rules.statement.plain.more.bind fun _ body =>
    (leads_expectReserved _).bind fun _ _ => (adds_grouped rules).more.bind fun _ test =>
      (leads_eatPunct _).bind fun _ _ => (closes_finishSpan begins).bind fun _ _ =>
        .closed (fun _ => .of_slots rfl (by simp [Stmt.slots, body, test])) rfl rfl

end Statements

/-! ## Loops with a head -/

section Loops

variable {gained : Nat} {start : Span} (begins : page.Starts first start)

include rules begins

theorem leads_forEachRest (kind : ForEachKind) (left : ForHead Expr)
    (head : Slot.AllRespected left.slots) :
    LeadsStmt page first (page.At first gained [.ofForHead left])
      (forEachRest lower start kind left) := by
  have rest : ∀ right : Expr, right.Respected →
      LeadsStmt page first (page.At first (gained + 1) [.ofForHead left, .ofExpr right]) (do
          let _ ← expectPunct ")"
          let body ← lower.statement
          return Stmt.forEach kind left right body (← finishSpan start)) :=
    fun _ right => (leads_expectPunct _).bind fun _ _ => .ending begins rules.statement
      (fun _ _ => rfl) (fun _ _ _ body => .of_slots rfl (by simp [Stmt.slots, head, right, body]))
      fun _ _ => rfl
  apply leads_advance.bind
  intro _ _
  cases kind with
  | keys => exact rules.expression.more.bind rest
  | values => exact rules.assignment.more.bind rest

theorem leads_forLoopRest (init : Option (ForInit Expr))
    (head : Slot.AllRespected (init.toList.flatMap ForInit.slots)) :
    LeadsStmt page first (page.At first gained (Outline.ofForInit? init))
      (forLoopRest lower start init) := by
  apply (leads_expectPunct _).bind fun _ _ => (adds_optionalExpression rules _).more.bind
    fun test tested => (leads_expectPunct _).bind fun _ _ =>
      (adds_optionalExpression rules _).more.bind fun update updated =>
        (leads_expectPunct _).bind fun _ _ => ?_
  refine .ending begins rules.statement (fun _ _ => rfl) ?_ fun _ _ => rfl
  intro role body span inner
  refine .of_slots rfl ?_
  simp only [Stmt.slots, Slot.allRespected_append, Slot.allRespected_map, Slot.allRespected_expr]
  simpa [head, inner] using ⟨tested, updated⟩

theorem leads_forDeclared :
    LeadsStmt page first (page.At first gained []) (forDeclared lower start) := by
  apply leads_peek.bind
  intro head contains
  apply (leads_peekAt 1).bind
  intro name _
  apply (leads_peekAt 2).bind
  intro word _
  split
  · exact (leads_declarationKind contains).bind fun _ _ => leads_advance.bind fun _ _ =>
      adds_bindingName.more.bind fun id _ =>
        leads_forEachRest rules begins _ (.declared _ id) (by simp [ForHead.slots])
  · exact (leads_forbiddingIn (adds_declaration rules).more).bind fun declared respected =>
      leads_forLoopRest rules begins (some (.declaration declared))
        (by simpa [ForInit.slots] using respected)

theorem leads_forExpression :
    LeadsStmt page first (page.At first gained []) (forExpression lower start) := by
  apply (leads_forbiddingIn rules.expression.more).bind
  intro value inner
  apply leads_peek.bind
  intro next _
  split
  · exact .checked
      (fun assignable => leads_forEachRest rules begins _ (.target value)
        (Slot.allRespected_target assignable inner (by simp)))
      (leads_malformed (fun _ known => known.contains_expr (by simp)) _)
  · exact leads_forLoopRest rules begins (some (.expression value))
      (by simpa [ForInit.slots] using inner)

theorem leads_forRest :
    LeadsStmt page first (page.At first gained []) (forRest lower start) := by
  apply Leads.choose fun state =>
    if state.cursor.atPunct ";" then forLoopRest lower start none
    else if atDeclaration state.cursor then forDeclared lower start
    else forExpression lower start
  · intro state
    simp only [forRest, ite_run]
  · intro state _ known
    have back : ∀ index, index = state.cursor.index → page.At first gained [] index :=
      fun _ same => same ▸ known
    exact .ite ((leads_forLoopRest rules begins none (by simp)).given back)
      (.ite ((leads_forDeclared rules begins).given back)
        ((leads_forExpression rules begins).given back))

end Loops

/-! ## Handlers and switches -/

section Statements

include rules

theorem addsStmt_forStatement : page.AddsStmt False (forStatement lower) :=
  fun _ => opens_advance.bind fun _ begins => (leads_expectPunct _).bind fun _ _ =>
    leads_inScope (leads_forRest rules begins)

theorem adds_catchClause :
    page.Adds 0 Outline.ofCatch?
      (fun handler => Slot.AllRespected (handler.toList.flatMap (·.body.slots)))
      (catchClause lower) := by
  intro first
  apply (leads_atReserved _).bind
  intro there _
  apply Leads.ite
  · apply opens_advance.bind
    intro start begins
    rw [map_eq_pure_bind]
    have clause : page.Leads (page.At first 0 [])
        (fun handler => Slot.AllRespected handler.body.slots)
        (fun handler => page.At first 1 (Outline.ofCatch? (some handler)))
        (catchRest lower start.span) :=
      adds_catchParameter.more.bind fun _ _ => (adds_blockBody rules).more.bind fun _ body =>
        (closes_finishSpan begins).bind fun _ _ => .done body rfl
    exact (leads_inScope clause).bind fun _ body => .list (by simpa using body) rfl
  · exact .opening (.list (by simp) rfl)

theorem addsStmt_tryStatement : page.AddsStmt False (tryStatement lower) := by
  intro first
  apply opens_advance.bind
  intro start begins
  apply (adds_block rules).more.bind
  intro body bodyRespected
  apply (adds_catchClause rules).more.bind
  intro handler handled
  have rest : ∀ finalizer : Option (Block Stmt),
      (∀ last ∈ finalizer, Slot.AllRespected last.slots) →
      LeadsStmt page first (page.At first (0 + 1)
          ([] ++ [.ofBlock body] ++ Outline.ofCatch? handler ++ Outline.ofBlock? finalizer)) (do
          if handler.isNone && finalizer.isNone then
            malformed (← peek).span .missingHandler
          else
            return Stmt.tryCatch body handler finalizer (← finishSpan start.span)) := by
    intro finalizer last
    apply Leads.ite
    · exact leads_peek.bind fun _ contains => leads_malformed (fun _ _ => contains) _
    · exact (closes_finishSpan begins).bind fun _ _ => .closed (fun _ => .of_slots rfl
        (by simpa [Stmt.slots, bodyRespected, handled] using last)) rfl rfl
  apply (leads_eatReserved _).bind
  intro final _
  apply Leads.ite
  · exact (adds_some (adds_block rules) fun _ => rfl).more.bind rest
  · exact (adds_none rfl).more.bind rest

theorem adds_caseTest (seenDefault : Bool) :
    page.Adds 0 Outline.ofExpr? (fun test => ∀ value ∈ test, value.Respected)
      (caseTest lower seenDefault) := by
  intro first
  apply Leads.opening
  apply (leads_eatReserved _).bind
  intro tested _
  apply Leads.ite (adds_some rules.expression fun _ => rfl).more
  apply (leads_atReserved _).bind
  intro byDefault _
  apply Leads.ite
  · apply Leads.ite
    · exact leads_peek.bind fun _ contains => leads_malformed (fun _ _ => contains) _
    · exact leads_advance.bind fun _ _ => .list (by simp) rfl
  · exact leads_unexpected

theorem adds_switchCase (seenDefault : Bool) :
    page.Adds 1 (fun case => [.ofCase case]) (fun case => Slot.AllRespected case.slots)
      (switchCase lower seenDefault) :=
  fun first => opens_peek.bind fun _ begins => (adds_caseTest rules _ first).bind fun _ test =>
    (leads_expectPunct _).bind fun _ _ => leads_remaining.bind fun _ _ =>
      (adds_statements rules _ _).more.bind fun _ body =>
        (closes_finishSpan begins).bind fun _ _ =>
          .done ((Slot.allRespected_append _ _).mpr ⟨by simpa using test, body⟩) rfl

theorem adds_switchCases (bound : Nat) (seenDefault : Bool) :
    page.Adds 0 Outline.ofCases (fun cases => Slot.AllRespected (cases.flatMap Case.slots))
      (switchCases lower bound seenDefault) := by
  induction bound generalizing seenDefault with
  | zero => exact fun _ => .opening (.list (by simp) rfl)
  | succ bound ih =>
    intro first
    apply (leads_atPunct _).bind
    intro closed _
    refine Leads.ite (.opening (.list (by simp) rfl)) ?_
    exact (adds_switchCase rules seenDefault first).bind fun _ case => (ih _).more.bind
      fun _ others => .list (by simpa [case] using others) rfl

theorem addsStmt_switchStatement : page.AddsStmt False (switchStatement lower) :=
  fun _ => opens_advance.bind fun _ begins => (adds_grouped rules).more.bind
    fun _ discriminant => (leads_expectPunct _).bind fun _ _ => leads_remaining.bind fun _ _ =>
      (leads_inScope (adds_switchCases rules _ _).more).bind fun _ cases =>
        (leads_expectPunct _).bind fun _ _ => (closes_finishSpan begins).bind fun _ _ =>
          .closed (fun _ => .of_slots rfl (by simpa [Stmt.slots, discriminant] using cases))
            rfl rfl

/-! ## All statements -/

theorem leads_reservedStatement (real : (page.tokenAt first).isEnd = false) (word : String) :
    LeadsStmt page first (· = first) (reservedStatement lower word) := by
  unfold reservedStatement
  split
  · exact addsStmt_declarationStatement rules first
  · exact addsStmt_declarationStatement rules first
  · rw [map_eq_pure_bind]
    exact (adds_functionStatement rules first).bind fun _ function =>
      .closed (fun _ => .of_slots rfl function) rfl rfl
  · exact leads_returnStatement rules real
  · exact addsStmt_ifStatement rules first
  · exact addsStmt_forStatement rules first
  · exact addsStmt_whileStatement rules first
  · exact addsStmt_doWhileStatement rules first
  · exact leads_jumpStatement real
  · exact leads_jumpStatement real
  · exact addsStmt_throwStatement rules first
  · exact addsStmt_tryStatement rules first
  · exact addsStmt_switchStatement rules first
  · exact addsStmt_expressionStatement rules first

theorem addsStmt_plainStatement : page.AddsStmt False (plainStatement lower) := by
  intro first
  apply Leads.choose fun state =>
    if state.cursor.peek.isPunct "\x7b" then Stmt.block <$> block lower
    else if state.cursor.peek.isPunct ";" then
      (do let _ ← advance; return .empty state.cursor.peek.span)
    else if state.cursor.peek.kind == .keyword then reservedStatement lower state.cursor.peek.text
    else if atLetDeclaration state.cursor then declarationStatement lower
    else expressionStatement lower
  · intro state
    simp only [plainStatement, ite_run]
  · rintro state holds rfl
    have next : state.cursor.peek = page.tokenAt state.cursor.index := holds.tokenAt _
    apply Leads.ite
    · rw [map_eq_pure_bind]
      exact (adds_block rules _).bind fun _ block =>
        .closed (fun _ => .of_slots rfl block) rfl rfl
    apply Leads.checked
    · intro isEmpty
      rw [next] at isEmpty ⊢
      have empty : page.Leads (· = state.cursor.index)
          (fun stmt => stmt.isMacro = false ∧ ∀ role, stmt.Respected role)
          (fun stmt => page.At state.cursor.index 1 [.ofStmt stmt]) (do
            let _ ← advance
            return Stmt.empty (page.tokenAt state.cursor.index).span) :=
        leads_token _ (Token.isEnd_of_isPunct isEmpty)
          ⟨rfl, fun _ => .of_slots rfl (by simp [Stmt.slots])⟩ rfl
      exact empty.mono
        (fun _ known isMacro => Bool.noConfusion (known.1.symm.trans isMacro))
        fun _ _ known read => ⟨read, fun role _ => known.2 role⟩
    apply Leads.checked
    · intro isReserved
      rw [next] at isReserved ⊢
      have real : (page.tokenAt state.cursor.index).isEnd = false := by
        simp [Token.isEnd, beq_iff_eq.mp isReserved]
      exact leads_reservedStatement rules real _
    exact .ite (addsStmt_declarationStatement rules _) (addsStmt_expressionStatement rules _)

/-- Macros are declared only in a context. -/
theorem addsStmt_statement : page.AddsStmt True (statement lower) := by
  intro first
  have asked : page.Leads (· = first) (fun answer => answer = true → e.Macros)
      (fun _ => (· = first)) atMacroDeclaration := by
    intro state holds known
    refine ⟨holds, fun declared => ?_, known⟩
    simp only [Bool.and_eq_true] at declared
    obtain ⟨context, found⟩ := Option.isSome_iff_exists.mp declared.1.1
    exact (holds.session context found).allowed
  apply asked.bind
  intro declared allowed
  cases declared with
  | true => exact addsStmt_macroDeclaration (allowed rfl) first
  | false =>
    exact (addsStmt_plainStatement rules first).mono (fun _ _ _ => trivial) fun _ _ _ => id

end Statements

/-! ## All rules -/

/-- The rules of every level make good trees. -/
theorem bounded_level (page : Page e) (n : Nat) : (Rules.level n).Bounded page := by
  induction n with
  | zero =>
    exact ⟨fun _ => leads_unexpected, fun _ => leads_unexpected, fun _ => leads_unexpected,
      fun _ _ => leads_unexpected, fun _ => leads_unexpected, fun _ => leads_unexpected⟩
  | succ n ih =>
    exact ⟨addsStmt_statement ih, adds_expression ih, adds_assignment ih, adds_binary ih,
      adds_unary ih, adds_construct ih⟩

theorem leads_withRules {good : α → Prop} {behind : α → Nat → Prop} {rule : Rules → Parser α}
    (leads : ∀ rules : Rules, rules.Bounded page → page.Leads before good behind (rule rules)) :
    page.Leads before good behind (withRules rule) :=
  fun state holds known => leads _ (bounded_level page _) state holds known

/-- A parser that leads somewhere on every page stays within the extent. -/
theorem bounds_of_leads {good : α → Prop} (behind : Page e → Nat → α → Nat → Prop)
    {parser : Parser α}
    (leads : ∀ (page : Page e) first, page.Leads (· = first) good (behind page first) parser) :
    e.Bounds good parser :=
  fun _ contains => (leads (.ofState contains) _ _ (holds_ofState contains) rfl).imp
    (fun _ _ reached => ⟨reached.1.containsState, reached.2.1⟩)
    fun _ _ => And.imp_left Holds.containsState

/-- Reading a whole program stays on the page and makes a good tree. -/
theorem leads_program (first : Nat) :
    page.Leads (· = first) (fun read => Slot.AllRespected (Block.slots read))
      (page.Contents first) program := by
  apply leads_withRules
  intro lower rules
  apply opens_peek.bind fun start begins => leads_remaining.bind fun _ _ =>
    (adds_statements rules _ _ first).bind fun body respected => ?_
  intro state holds known
  cases body with
  | nil => exact ⟨holds, respected, known, nofun⟩
  | cons stmt rest =>
    have moved : page.At first (0 + 1) (Outline.ofStmts (stmt :: rest)) state.cursor.index :=
      ⟨known.arranged.lt, known.arranged⟩
    obtain ⟨-, -, node⟩ := closes_finishSpan begins state holds moved
    exact ⟨holds, respected, known, fun _ => node⟩

/-- A program that was read respects the restrictions, macro calls aside. -/
theorem allows_program {state after : State} (ready : state.cursor.Ready)
    (run : program state = .ok read after) (restriction : Restriction) :
    restriction.AllowsAll (Block.slots read) :=
  ((bounds_of_leads _ fun _ => leads_program).of_ok (containsState_all ready) run).2 restriction

/-- What is known of the program of a source, with the tokens of the source on the page. -/
theorem contents_of_parse {source : String} {tokens : List Token}
    (scanned : tokenize source = .ok tokens) (contains : e.ContainsTokens tokens)
    (parsed : parse source = .ok read) :
    ∃ page : Page e, page.start = .ofTokens tokens ∧ ∃ index, page.Contents 0 read index := by
  obtain ⟨words, finish, rfl, isEnd, -⟩ := exists_finish_tokenize scanned
  have ends : e.ContainsCursor (.ofTokens (words ++ [finish])) :=
    .ofTokens contains (.inr ⟨finish, List.getLast?_concat, isEnd⟩)
  let page : Page e := ⟨_, Cursor.ready_ofTokens _, ends⟩
  have begins : page.Holds { cursor := page.start } := ⟨.refl page.ready, nofun⟩
  have leads := leads_program 0 _ begins (Cursor.ofTokens_index _)
  simp only [parse, scanned, bind, Except.bind] at parsed
  split at parsed
  · rename_i result after run
    obtain rfl := Except.ok.inj parsed
    rw [run] at leads
    exact ⟨page, rfl, _, leads.2.2⟩
  · cases parsed

end MacroScript.Grammar
