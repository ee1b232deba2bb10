import MacroScript.Grammar.Statement
import MacroScript.Proofs.Lookahead.Arrow
import MacroScript.Proofs.Reading.Composed

/-!
# Statements and what follows

The rules for statements agree on a source and on a longer one.  A word at the end of the
shorter source may begin a statement of the longer one: `let` and `macro` do so in front of a
name.  That statement then reads the name, and so goes past the shorter source.  Hence so do the
rules of two levels, from the place on from which the first level is enough for the tokens of the
shorter source.
-/

namespace MacroScript.Grammar

variable {α : Type} {c : Continuation} {low : Nat} {lower lowerToo : Rules}

section Statements

variable (rules : RulesConcur c (low + 1) lower lowerToo)

include rules

theorem concur_expressionStatement :
    Concur c low 0 1 (expressionStatement lower) (expressionStatement lowerToo) :=
  concur_peek_eager (Nat.succ_pos _) fun _ => (concur_expression rules).bind fun _ =>
    concur_finishStatement

/-! ## Declarations -/

theorem concur_declarator : Concur c low 0 1 (declarator lower) (declarator lowerToo) := by
  refine concur_peek_eager (Nat.succ_pos _) fun start => concur_bindingName.bind fun id => ?_
  have onward (init : Option Expr) : Concur c (low + 1) 0 0
      (do return { id, init, span := ← finishSpan start.span } : Parser (Declarator Expr))
      (do return { id, init, span := ← finishSpan start.span }) :=
    concur_finish
  exact concur_eatPunct "=" ((rules.assignment.map some).andThen onward).later (onward none)

omit rules in
theorem concur_declarationKind (token : Token) :
    Concur c low 0 0 (declarationKind token) (declarationKind token) := by
  unfold declarationKind
  cases VarKind.ofWord? token.text with
  | some kind => exact .pure kind
  | none => exact .of_fails (.malformed _ _)

theorem concur_declaration : Concur c low 0 2 (declaration lower) (declaration lowerToo) :=
  concur_advance.bind fun word => (concur_declarationKind word).andThen fun _ =>
    (concur_commaSequence (concur_declarator rules.later)).bind fun _ =>
      concur_finish

theorem concur_declarationStatement :
    Concur c low 0 2 (declarationStatement lower) (declarationStatement lowerToo) :=
  (concur_declaration rules).seq
    (fun _ => concur_finishStatement)
    (Nat.zero_le _)

/-! ## Simple statements -/

theorem concur_returnStatement :
    Concur c low 0 1 (returnStatement lower) (returnStatement lowerToo) := by
  refine concur_advance.bind fun start => ?_
  have onward (argument : Option Expr) : Concur c (low + 1) 0 0
      (do endStatement; return Stmt.returns argument (← finishSpan start.span))
      (do endStatement; return Stmt.returns argument (← finishSpan start.span)) :=
    concur_finishStatement
  have without : Concur c (low + 1) 0 0 (pure none >>= _) (pure none >>= _) :=
    (Concur.pure none).andThen onward
  have withArgument : Concur c (low + 1) 0 1 (some <$> lower.expression >>= _)
      (some <$> lowerToo.expression >>= _) :=
    (rules.expression.map some).bind fun argument => (onward argument).later
  apply concur_peek
  · intro next
    exact .ite without withArgument.weaken
  · intro next other one two isEnd longer atLimit begun
    simp only [isEnd, Bool.or_true, Bool.true_or, if_true]
    -- The longer source may have an argument here, if it goes on on the same line.
    rw [ite_run]
    split
    · exact without.agree longer begun
    · exact .of_past longer withArgument.gains (by omega)

omit rules in
theorem concur_jumpStatement : Concur c low 0 1 jumpStatement jumpStatement :=
  concur_advance.bind fun _ => concur_finishStatement

theorem concur_throwStatement :
    Concur c low 0 1 (throwStatement lower) (throwStatement lowerToo) :=
  concur_advance.bind fun _ => (concur_peek_eager (Nat.succ_pos _) fun _ => .ite
    (.of_fails (.malformed _ _)) (rules.expression.bind fun _ => concur_finishStatement)).weaken

/-! ## Branches and loops -/

theorem concur_ifStatement : Concur c low 0 1 (ifStatement lower) (ifStatement lowerToo) := by
  refine concur_advance.bind fun start => (concur_grouped rules.later).andThen fun test =>
    rules.statement.andThen fun consequent => ?_
  have onward (alternate : Option Stmt) : Concur c (low + 1) 0 0
      (do return Stmt.ifElse test consequent alternate (← finishSpan start.span))
      (do return Stmt.ifElse test consequent alternate (← finishSpan start.span)) :=
    concur_finish
  exact concur_eatReserved "else" ((rules.statement.map some).andThen onward).later (onward none)

theorem concur_whileStatement :
    Concur c low 0 1 (whileStatement lower) (whileStatement lowerToo) :=
  concur_advance.bind fun _ => (concur_grouped rules.later).andThen fun _ =>
    rules.statement.andThen fun _ => concur_finish

theorem concur_doWhileStatement :
    Concur c low 0 1 (doWhileStatement lower) (doWhileStatement lowerToo) :=
  concur_advance.bind fun _ => rules.statement.andThen fun _ =>
    (concur_expectReserved "while").andThen fun _ => (concur_grouped rules.later).andThen fun _ =>
      concur_skipPunct ";" concur_finish

theorem concur_forEachRest (start : Span) (kind : ForEachKind) (left : ForHead Expr) :
    Concur c low 0 2 (forEachRest lower start kind left)
      (forEachRest lowerToo start kind left) := by
  refine concur_advance.bind fun _ => ?_
  have onward (right : Expr) : Concur c (low + 1) 0 0
      (do
        let _ ← expectPunct ")"
        let body ← lower.statement
        return Stmt.forEach kind left right body (← finishSpan start))
      (do
        let _ ← expectPunct ")"
        let body ← lowerToo.statement
        return Stmt.forEach kind left right body (← finishSpan start)) :=
    (concur_expectPunct ")").andThen fun _ => rules.statement.andThen fun _ =>
      concur_finish
  cases kind with
  | keys => exact rules.expression.bind fun right => (onward right).later
  | values => exact rules.assignment.bind fun right => (onward right).later

omit rules in
theorem concur_optionalExpression (rules : RulesConcur c low lower lowerToo) (closer : String) :
    Concur c low 1 0 (optionalExpression lower closer) (optionalExpression lowerToo closer) :=
  concur_atPunct closer (.pure none) (Nat.le_refl _) (Nat.succ_pos _)
    ((rules.expression.map some).weaken.owing (Nat.zero_le _))

theorem concur_forLoopRest (start : Span) (init : Option (ForInit Expr)) :
    Concur c low 0 2 (forLoopRest lower start init) (forLoopRest lowerToo start init) :=
  (concur_expectPunct ";").bind fun _ => (concur_optionalExpression rules ";").settle fun _ =>
    (concur_expectPunct ";").bind fun _ =>
      ((concur_optionalExpression rules.later ")").settle fun _ =>
        (concur_expectPunct ")").bind fun _ => rules.later.later.statement.andThen fun _ =>
          concur_finish).weaken

/-- Read a loop whose head begins with a declaration, once it is known what is declared. -/
def forDeclaredAs (lower : Rules) (start : Span) (head : Token) :
    Option ForEachKind → Parser Stmt
  | some kind => do
    let varKind ← declarationKind head
    let _ ← advance
    let id ← bindingName
    forEachRest lower start kind (.declared varKind id)
  | none => do
    let declared ← forbiddingIn (declaration lower)
    forLoopRest lower start (some (.declaration declared))

omit rules in
theorem forDeclared_run (start : Span) (state : State) :
    forDeclared lower start state =
      forDeclaredAs lower start state.cursor.peek
        (if (state.cursor.peekAt 1).isName then forEachKind? (state.cursor.peekAt 2) else none)
        state := rfl

theorem concur_forDeclaredAs (start : Span) (head : Token) (found : Option ForEachKind) :
    Concur c low 0 4 (forDeclaredAs lower start head found)
      (forDeclaredAs lowerToo start head found) := by
  cases found with
  | some kind =>
    exact (concur_declarationKind head).andThen fun _ => concur_advance.bind fun _ =>
      concur_bindingName.bind fun _ => concur_forEachRest rules.later.later start kind _
  | none =>
    exact (concur_declaration rules).forbiddingIn.seq
      (fun _ => concur_forLoopRest rules.later.later start _) (Nat.zero_le _)

/-- Such a head has so many tokens that those which are looked at are the same. -/
theorem concur_forDeclared (start : Span) :
    Concur c low 0 4 (forDeclared lower start) (forDeclared lowerToo start) := by
  apply Concur.of_gains
  · intro state after value holds run
    rw [forDeclared_run] at run
    exact (concur_forDeclaredAs rules start _ _).gains holds run
  · exact fun shares begun => (concur_forDeclaredAs rules start _ _).same shares begun
  · intro one two longer begun near
    rw [forDeclared_run, forDeclared_run, longer.peek_of_lt (by omega),
      longer.peekAt_of_lt (by omega), longer.peekAt_of_lt (by omega)]
    exact (concur_forDeclaredAs rules start _ _).agree longer begun

omit rules in
theorem concur_forExpression (rules : RulesConcur c low lower lowerToo) (start : Span) :
    Concur c low 0 2 (forExpression lower start) (forExpression lowerToo start) := by
  refine rules.expression.forbiddingIn.bind fun value =>
    concur_peek_eager (Nat.succ_pos _) fun token => ?_
  cases forEachKind? token with
  | some kind =>
    exact .ite ((concur_forEachRest rules.later.later start _ _).mono (by decide))
      (.of_fails (.malformed _ _))
  | none => exact (concur_forLoopRest rules.later.later start _).mono (by decide)

omit rules in
theorem concur_forRest (rules : RulesConcur c low lower lowerToo) (start : Span) :
    Concur c low 0 2 (forRest lower start) (forRest lowerToo start) := by
  have counting : Concur c low 0 2 _ _ := concur_forLoopRest rules.later start none
  have declared : Concur c low 0 2 _ _ := (concur_forDeclared rules.later start).mono (by decide)
  have other : Concur c low 0 2 _ _ := concur_forExpression rules start
  apply Concur.of_gains
  · intro state after value holds run
    unfold forRest at run
    split at run
    · exact counting.gains holds run
    · split at run
      · exact declared.gains holds run
      · exact other.gains holds run
  · intro state shares begun
    unfold forRest
    split
    · exact counting.same shares begun
    · split
      · exact declared.same shares begun
      · exact other.same shares begun
  · intro one two longer begun near
    have declares : atDeclaration two.cursor = atDeclaration one.cursor := by
      simp only [atDeclaration, atLetDeclaration, longer.peek_of_lt (by omega),
        longer.peekAt_of_lt (show one.cursor.index + 1 < c.limit by omega)]
    unfold forRest
    rw [declares, Cursor.atPunct, Cursor.atPunct, longer.peek_of_lt (by omega)]
    split
    · exact counting.agree longer begun
    · split
      · exact declared.agree longer begun
      · exact other.agree longer begun

theorem concur_forStatement : Concur c low 0 1 (forStatement lower) (forStatement lowerToo) :=
  concur_advance.bind fun _ => (concur_expectPunct "(").andThen fun _ =>
    (concur_forRest rules _).inScope.weaken

/-! ## Handlers -/

omit rules in
theorem concur_catchParameter : Concur c low 0 0 catchParameter catchParameter :=
  concur_eatPunct "("
    (concur_bindingName.andThen fun _ => (concur_expectPunct ")").andThen fun _ => .pure _)
    (.pure none)

theorem concur_catchRest (start : Span) :
    Concur c (low + 1) 0 1 (catchRest lower start) (catchRest lowerToo start) :=
  concur_catchParameter.andThen fun _ => (concur_blockBody rules.later).bind fun _ =>
    concur_finish

theorem concur_catchClause : Concur c low 0 0 (catchClause lower) (catchClause lowerToo) :=
  concur_atReserved "catch"
    (concur_advance.bind fun _ => ((concur_catchRest rules _).inScope.map some).weaken)
    (Nat.zero_le _) (Nat.succ_pos _) (.pure none)

theorem concur_tryStatement : Concur c low 0 1 (tryStatement lower) (tryStatement lowerToo) := by
  refine concur_advance.bind fun start => (concur_block rules.later).andThen fun body =>
    (concur_catchClause rules.later).andThen fun handler => ?_
  have onward (finalizer : Option (Block Stmt)) : Concur c (low + 1) 0 0
      (do
        if handler.isNone && finalizer.isNone then
          malformed (← peek).span .missingHandler
        else
          return Stmt.tryCatch body handler finalizer (← finishSpan start.span))
      (do
        if handler.isNone && finalizer.isNone then
          malformed (← peek).span .missingHandler
        else
          return Stmt.tryCatch body handler finalizer (← finishSpan start.span)) :=
    .ite (.of_fails (.peek fun _ => .malformed _ _))
      concur_finish
  exact concur_eatReserved "finally" (((concur_block rules.later).map some).andThen onward).later
    (onward none)

/-! ## Switches -/

theorem concur_caseTest (seenDefault : Bool) :
    Concur c low 0 0 (caseTest lower seenDefault) (caseTest lowerToo seenDefault) :=
  concur_eatReserved "case" (rules.expression.map some).weaken
    (concur_atReserved "default"
      (.ite (.of_fails (.peek fun _ => .malformed _ _)) (concur_advance.bind fun _ => .pure none))
      (Nat.zero_le 1) (Nat.succ_pos _) (.of_fails .unexpected))

theorem concur_switchCase (seenDefault : Bool) :
    Concur c low 1 1 (switchCase lower seenDefault) (switchCase lowerToo seenDefault) :=
  concur_peek_eager (Nat.succ_pos _) fun _ => (concur_caseTest rules seenDefault).andThen fun _ =>
    (concur_expectPunct ":").bind fun _ =>
      (concurBounded_itemsUntil endsCase rules.statement).andThen
        (fun _ => concur_finish) (Nat.le_refl _)

theorem concurBounded_switchCases (seenDefault : Bool) :
    ConcurBounded c low 1 (switchCases lower · seenDefault)
      (switchCases lowerToo · seenDefault) := by
  apply concurBounded_of_round (switchCases lower) (switchCases lowerToo)
  · exact fun _ => .pure []
  · intro bound boundToo high le next seenDefault
    have alternative : Concur c high 1 1 (switchCase lower seenDefault)
        (switchCase lowerToo seenDefault) :=
      (concur_switchCase rules seenDefault).from_le le
    refine concur_atPunct "\x7d" (.pure []) (Nat.le_refl _) (Nat.succ_pos _) ?_
    exact (alternative.seq (fun first => (next _).cons first) (Nat.le_refl _)).weaken

theorem concur_switchStatement :
    Concur c low 0 1 (switchStatement lower) (switchStatement lowerToo) :=
  concur_advance.bind fun _ => (concur_grouped rules.later).andThen fun _ =>
    (concur_expectPunct "\x7b").andThen fun _ =>
      ((concurBounded_switchCases rules.later false).inScope.settle fun _ =>
        (concur_expectPunct "\x7d").bind fun _ =>
          concur_finish).weaken

/-! ## All statements -/

theorem concur_reservedStatement (word : String) :
    Concur c low 0 1 (reservedStatement lower word) (reservedStatement lowerToo word) := by
  unfold reservedStatement
  split
  · exact (concur_declarationStatement rules).mono (by decide)
  · exact (concur_declarationStatement rules).mono (by decide)
  · exact (concur_functionStatement rules).map _
  · exact concur_returnStatement rules
  · exact concur_ifStatement rules
  · exact concur_forStatement rules
  · exact concur_whileStatement rules
  · exact concur_doWhileStatement rules
  · exact concur_jumpStatement
  · exact concur_jumpStatement
  · exact concur_throwStatement rules
  · exact concur_tryStatement rules
  · exact concur_switchStatement rules
  · exact concur_expressionStatement rules

omit rules in
/-- The next token decides about a statement, but for a declaration with `let`. -/
theorem plainStatement_eq :
    plainStatement lower = (do
      let token ← peek
      if token.isPunct "\x7b" then Stmt.block <$> block lower
      else if token.isPunct ";" then do let _ ← advance; return .empty token.span
      else if token.kind == .keyword then reservedStatement lower token.text
      else do
        let token ← peek
        let following ← peekAt 1
        if token.isWord "let" && following.isName then declarationStatement lower
        else expressionStatement lower) := by
  funext state
  simp only [plainStatement, atLetDeclaration, Bind.bind, EStateM.bind, peek, peekAt, ite_run]
  rfl

omit rules in
/-- A word in front of a name begins something that reads the name. -/
theorem concur_beforeName (word : Token → Bool) {first second elseFirst elseSecond : Parser α}
    (yes : Concur c low 0 2 first second) (no : Concur c low 0 1 elseFirst elseSecond) :
    Concur c low 0 1
      (do
        let token ← peek
        let following ← peekAt 1
        if word token && following.isName then first else elseFirst)
      (do
        let token ← peek
        let following ← peekAt 1
        if word token && following.isName then second else elseSecond) := by
  apply concur_peekNext Token.isEnd_of_isName (fun _ => yes.mono (Nat.le_succ 1)) (fun _ => no)
  intro token one two longer atLast _
  exact .of_past longer yes.gains (by omega)

theorem concur_plainStatement :
    Concur c low 0 1 (plainStatement lower) (plainStatement lowerToo) := by
  rw [plainStatement_eq, plainStatement_eq]
  exact concur_peek_eager (Nat.succ_pos _) fun token => .ite ((concur_block rules).map _) <|
    .ite (concur_advance.bind fun _ => .pure _) <| .ite (concur_reservedStatement rules _) <|
      concur_beforeName (·.isWord "let") (concur_declarationStatement rules)
        (concur_expressionStatement rules)

theorem concur_statement : Concur c low 0 1 (statement lower) (statement lowerToo) := by
  have known : Concur c low 0 0 (fun state => .ok state.context.isSome state)
      (fun state => .ok state.context.isSome state) :=
    concur_look (fun state => state.context.isSome) fun longer _ => by rw [longer.context]
  have choice : Concur c low 0 1 _ _ := known.andThen fun isKnown =>
    concur_beforeName (fun token => isKnown && token.isWord "macro")
      (concur_macroDeclaration.mono (by decide)) (concur_plainStatement rules)
  exact choice

end Statements

/-! ## Tying the rules together -/

theorem RulesConcur.above (rules : RulesConcur c (low + 1) lower lowerToo) :
    RulesConcur c low lower.above lowerToo.above where
  statement := concur_statement rules
  expression := concur_expression rules
  assignment := concur_assignment rules
  binary := concur_binary rules
  unary := concur_unary rules
  construct := concur_construct rules

/-- The rules of one level agree from any place on. -/
theorem rulesConcur_self (level low : Nat) : RulesConcur c low (.level level) (.level level) := by
  induction level generalizing low with
  | zero =>
    have fails {α : Type} : Concur c low 0 1 (unexpected : Parser α) unexpected :=
      .of_fails .unexpected
    exact ⟨fails, fails, fails, fun _ => fails, fails, fails⟩
  | succ level ih => exact (ih (low + 1)).above

/-- The rules of two levels agree where the first level is enough for the tokens that are left of
the shorter source. -/
theorem rulesConcur_level (differs : c.alike = false) (level levelToo : Nat) :
    RulesConcur c (c.limit - level) (.level level) (.level levelToo) := by
  have never {state : State} (shares : c.Shares state) : False :=
    nomatch differs.symm.trans shares.alike
  induction levelToo generalizing level with
  | zero =>
    have fails {α : Type} {first : Parser α} :
        Concur c (c.limit - level) 0 1 first unexpected :=
      ⟨(Concur.of_fails .unexpected : Concur c 0 0 1 _ _).gains,
        fun _ _ => .of_fails .unexpected, fun shares => (never shares).elim⟩
    exact ⟨fails, fails, fails, fun _ => fails, fails, fails⟩
  | succ levelToo ih =>
    cases level with
    | succ level => exact ((ih level).from_le (by omega)).above
    | zero =>
      -- No token of the shorter source is left, and every rule reads one.
      have rules := (ih 0).later.above
      have past {α : Type} {first other second : Parser α}
          (agree : Concur c c.limit 0 1 other second) : Concur c c.limit 0 1 first second :=
        .of_gains agree.gains (fun shares => (never shares).elim) fun _ begun near => by omega
      exact ⟨past rules.statement, past rules.expression, past rules.assignment,
        fun minimum => past (rules.binary minimum), past rules.unary, past rules.construct⟩

end MacroScript.Grammar
