import MacroScript.Grammar.Expression
import MacroScript.Proofs.Lookahead.MacroNode

/-!
# Expressions and what follows

The rules for expressions agree on a source and on a longer one, if the rules that they call
do.  They call others only behind a token, so the others have to agree from the next place on.
-/

namespace MacroScript

namespace Grammar

variable {α : Type} {c : Continuation} {low : Nat} {lower lowerToo : Rules} {token : Token}

/-- Rules that agree from a place on, each of which reads a token. -/
structure RulesConcur (c : Continuation) (low : Nat) (lower lowerToo : Rules) : Prop where
  statement : Concur c low 0 1 lower.statement lowerToo.statement
  expression : Concur c low 0 1 lower.expression lowerToo.expression
  assignment : Concur c low 0 1 lower.assignment lowerToo.assignment
  binary (minimum : Nat) : Concur c low 0 1 (lower.binary minimum) (lowerToo.binary minimum)
  unary : Concur c low 0 1 lower.unary lowerToo.unary
  construct : Concur c low 0 1 lower.construct lowerToo.construct

namespace RulesConcur

theorem from_le {high : Nat} (rules : RulesConcur c low lower lowerToo) (le : low ≤ high) :
    RulesConcur c high lower lowerToo where
  statement := rules.statement.from_le le
  expression := rules.expression.from_le le
  assignment := rules.assignment.from_le le
  binary minimum := (rules.binary minimum).from_le le
  unary := rules.unary.from_le le
  construct := rules.construct.from_le le

theorem later (rules : RulesConcur c low lower lowerToo) : RulesConcur c (low + 1) lower lowerToo :=
  rules.from_le (Nat.le_succ _)

end RulesConcur

/-! ## Blocks and functions -/

section Functions

variable (rules : RulesConcur c (low + 1) lower lowerToo)

include rules

theorem concur_blockBody : Concur c low 0 1 (blockBody lower) (blockBody lowerToo) :=
  (concur_expectPunct _).bind fun _ =>
    ((concurBounded_itemsUntil _ rules.statement).settle fun _ => concur_advance.bind fun _ =>
      concur_finish).weaken

theorem concur_block : Concur c low 0 1 (block lower) (block lowerToo) :=
  (concur_blockBody rules).inScope

omit rules in
theorem concur_parameters : Concur c low 0 1 parameters parameters :=
  (concur_expectPunct "(").bind fun _ =>
    ((concurBounded_commaItems ")" (concur_bindingName.owing (Nat.zero_le _))).settle fun _ =>
      (concur_expectPunct ")").bind fun _ => .pure _).weaken

theorem concur_functionRest : Concur c low 0 1 (functionRest lower) (functionRest lowerToo) :=
  concur_parameters.bind fun _ => (concur_blockBody rules.later).andThen fun _ => .pure _

theorem concur_functionStatement :
    Concur c low 0 1 (functionStatement lower) (functionStatement lowerToo) :=
  (concur_expectReserved "function").bind fun _ =>
    concur_bindingName.andThen fun _ => (concur_functionRest rules.later).inScope.andThen fun _ =>
      concur_finish

theorem concur_namedFunctionRest :
    Concur c low 0 1 (namedFunctionRest lower) (namedFunctionRest lowerToo) :=
  concur_peek_eager (Nat.succ_pos _) fun _ => .ite
    (concur_bindingName.bind fun _ => (concur_functionRest rules.later).andThen fun _ => .pure _)
    ((concur_functionRest rules).bind fun _ => .pure _)

theorem concur_functionExpression :
    Concur c low 0 1 (functionExpression lower) (functionExpression lowerToo) :=
  (concur_expectReserved "function").bind fun _ =>
    (concur_namedFunctionRest rules.later).inScope.andThen fun _ =>
      concur_finish

end Functions

/-! ## Primary expressions -/

theorem concur_literalOf (kind : LiteralKind) :
    Concur c low 0 1 (literalOf kind) (literalOf kind) :=
  concur_advance.bind fun _ => .pure _

section Primary

variable (rules : RulesConcur c (low + 1) lower lowerToo)

include rules

omit rules in
theorem concur_listItems (rules : RulesConcur c low lower lowerToo) (closer : String) :
    Concur c low 1 0 (listItems lower closer) (listItems lowerToo closer) :=
  (concurBounded_commaItems closer (rules.assignment.owing (Nat.zero_le _))).bounded

theorem concur_callArguments : Concur c low 0 1 (callArguments lower) (callArguments lowerToo) :=
  (concur_expectPunct "(").bind fun _ => ((concur_listItems rules ")").allowingIn.settle fun _ =>
    (concur_expectPunct ")").bind fun _ => .pure _).weaken

theorem concur_propertyKey : Concur c low 0 1 (propertyKey lower) (propertyKey lowerToo) := by
  apply concur_peek_eager (Nat.succ_pos _)
  intro token
  have other : Concur c low 0 1
      (if token.isPunct "[" then do
          let _ ← advance
          let key ← lower.assignment
          let _ ← expectPunct "]"
          return .computed key
        else unexpected : Parser (PropertyKey Expr))
      (if token.isPunct "[" then do
          let _ ← advance
          let key ← lowerToo.assignment
          let _ ← expectPunct "]"
          return .computed key
        else unexpected : Parser (PropertyKey Expr)) :=
    .ite
      (concur_advance.bind fun _ => rules.assignment.andThen fun _ =>
        (concur_expectPunct "]").andThen fun _ => .pure _)
      (.of_fails .unexpected)
  cases token.kind
  case name => exact concur_advance.bind fun _ => .pure _
  case keyword => exact concur_advance.bind fun _ => .pure _
  case string => exact concur_advance.bind fun _ => .pure _
  case number => exact concur_advance.bind fun _ => .pure _
  all_goals exact other

/-- The token behind a name which is both key and value is owed. -/
theorem concur_property : Concur c low 1 1 (property lower) (property lowerToo) := by
  have short (token : Token) : Concur c low 1 1
      (do
        let value ← referenceName
        return ⟨.identifier token.text, .identifier value, true, token.span⟩ :
          Parser (Property Expr))
      (do
        let value ← referenceName
        return ⟨.identifier token.text, .identifier value, true, token.span⟩) :=
    concur_referenceName.bind fun _ => .pure _
  apply concur_peekNext _ short
  · exact fun _ => (concur_propertyKey rules).bind fun _ => (concur_expectPunct ":").andThen
      fun _ => rules.assignment.andThen fun _ => concur_finish
  · intro token one two longer atLast _
    exact .of_past longer (short token).gains (by omega)
  · intro token found
    rw [Bool.or_eq_true] at found
    exact found.elim Token.isEnd_of_isPunct Token.isEnd_of_isPunct

theorem concur_properties : Concur c low 1 0 (properties lower) (properties lowerToo) :=
  (concurBounded_commaItems "\x7d" (concur_property rules)).bounded

theorem concur_objectLiteral : Concur c low 0 1 (objectLiteral lower) (objectLiteral lowerToo) :=
  (concur_expectPunct "\x7b").bind fun _ =>
    ((concur_properties rules.later).allowingIn.settle fun _ => (concur_expectPunct "\x7d").bind
      fun _ => concur_finish).weaken

theorem concur_arrayLiteral : Concur c low 0 1 (arrayLiteral lower) (arrayLiteral lowerToo) :=
  concur_advance.bind fun _ => ((concur_listItems rules "]").allowingIn.settle fun _ =>
    (concur_expectPunct "]").bind fun _ => concur_finish).weaken

theorem concur_grouped : Concur c low 0 1 (grouped lower) (grouped lowerToo) :=
  (concur_expectPunct "(").bind fun _ => rules.expression.allowingIn.andThen fun _ =>
    (concur_expectPunct ")").andThen fun _ => .pure _

theorem concur_reservedPrimary (token : Token) :
    Concur c low 0 1 (reservedPrimary lower token) (reservedPrimary lowerToo token) :=
  .ite (concur_literalOf _) <| .ite (concur_literalOf _) <|
    .ite (concur_advance.bind fun _ => .pure _) <|
      .ite ((concur_functionExpression rules).bind fun _ => .pure _) (.of_fails .unexpected)

theorem concur_punctPrimary (token : Token) :
    Concur c low 0 1 (punctPrimary lower token) (punctPrimary lowerToo token) :=
  .ite (concur_grouped rules) <| .ite (concur_arrayLiteral rules) <|
    .ite (concur_objectLiteral rules) (.of_fails .unexpected)

theorem concur_primary : Concur c low 0 1 (primary lower) (primary lowerToo) := by
  apply concur_peek_eager (Nat.succ_pos _)
  intro token
  cases token.kind with
  | name => exact concur_nameExpression
  | number
  | bigint
  | string
  | regex => exact concur_literalOf _
  | keyword => exact concur_reservedPrimary rules token
  | punct => exact concur_punctPrimary rules token
  | eof => exact .of_fails .unexpected

end Primary

/-! ## Members and calls -/

/-- Parsers that agree, and that have read a token if they come to something. -/
structure ConcurSome (c : Continuation) (low : Nat) (first second : Parser (Option α)) : Prop where
  agree : Concur c low 0 0 first second
  gains {state after : State} {value : α} (holds : c.Holds state)
    (run : second state = .ok (some value) after) :
    state.cursor.index + 1 ≤ after.cursor.index ∨ c.limit < after.cursor.index

namespace ConcurSome

variable {first second elseFirst elseSecond : Parser (Option α)}

theorem of_concur (agree : Concur c low 0 1 first second) : ConcurSome c low first second :=
  ⟨agree.weaken, fun holds run => (agree.gains holds run).2⟩

theorem none : ConcurSome c low (pure none : Parser (Option α)) (pure none) where
  agree := .pure _
  gains _ run := by cases run

/-- Decide whether the next token passes a test that no end of input passes. -/
theorem lookingAt {test : Token → Bool}
    (notEnd : ∀ {token : Token}, test token = true → token.isEnd = false)
    (yes : Concur c low 0 1 first second) (no : ConcurSome c low elseFirst elseSecond) :
    ConcurSome c low
      (do if ← (fun state => .ok (test state.cursor.peek) state) then first else elseFirst)
      (do if ← (fun state => .ok (test state.cursor.peek) state) then second else elseSecond) where
  agree := concur_at notEnd yes (Nat.zero_le _) (Nat.succ_pos _) no.agree
  gains {state after value} holds run := by
    change (if test state.cursor.peek then second else elseSecond) state = _ at run
    cases found : test state.cursor.peek with
    | true =>
      rw [found, if_pos rfl] at run
      exact (yes.gains holds run).2
    | false =>
      rw [found, if_neg Bool.false_ne_true] at run
      exact no.gains holds run

/-- Take a punctuator and what belongs to it, if it is next. -/
theorem eatPunct (text : String) (yes : Concur c (low + 1) 0 1 first second)
    (no : ConcurSome c low elseFirst elseSecond) :
    ConcurSome c low (do if ← eatPunct text then first else elseFirst)
      (do if ← eatPunct text then second else elseSecond) where
  agree := concur_eatPunct text yes.weaken no.agree
  gains {state after value} holds run := by
    rw [eatPunct_eq] at run
    cases found : state.cursor.peek.isPunct text with
    | true =>
      rw [eat_bind_of_pass found] at run
      have forward := Cursor.forward_succ (holds.ready.lt_of_not_end (Token.isEnd_of_isPunct found))
      have further := (yes.gains (holds.forward forward) run).2
      exact further.imp_left fun gained => Nat.le_of_succ_le gained
    | false =>
      rw [eat_bind_of_fail found] at run
      exact no.gains holds run

end ConcurSome

/-- Go on from what was read last, for as long as there is more. -/
def repeated (step : α → Parser (Option α)) : Nat → α → Parser α
  | 0, last => return last
  | bound + 1, last => do
    match ← step last with
    | some next => repeated step bound next
    | none => return last

theorem concurBounded_repeated {step stepToo : α → Parser (Option α)}
    (each : ∀ last, ConcurSome c low (step last) (stepToo last)) (last : α) :
    ConcurBounded c low 0 (repeated step · last) (repeated stepToo · last) := by
  apply concurBounded_of_round (repeated step) (repeated stepToo)
  · exact fun last => .pure last
  · intro bound boundToo high le next last
    have tail (found : Option α) : Gains c 0
        (match found with
          | some next => repeated stepToo boundToo next
          | none => pure last) := by
      cases found with
      | none => exact Gains.look fun _ => last
      | some value => exact (next value).gains
    refine ⟨(each last).agree.gains.bind tail, fun {one two} longer begun => ?_,
      fun {state} shares begun => ?_⟩
    · have agree := ((each last).agree.from_le le).agree longer begun
      apply agree.bind longer (each last).agree.gains tail (Nat.zero_le _)
      intro found after other run reached
      cases found with
      | none => exact .pure reached last
      | some value =>
        have further := (each last).gains longer.holds run
        have inside := reached.index_le
        have index := longer.index
        have indexToo := reached.index
        exact (next value).agree reached (by omega)
    · have agree := ((each last).agree.from_le le).same shares begun
      simp only [repeated, Bind.bind, EStateM.bind, agree]
      cases run : stepToo last state with
      | error fault after => rfl
      | ok found after =>
        cases found with
        | none => rfl
        | some value =>
          have forward := ((each last).agree.gains shares.holds run).1
          have monotone := forward.index
          have further := (each last).gains shares.holds run
          refine (next value).same (shares.forward forward) ?_
          unfold Continuation.Begun at begun ⊢
          omega

theorem concur_memberName : Concur c low 0 1 memberName memberName :=
  concur_expect (fun token => token.kind == .name || token.kind == .keyword) .unexpected
    (concur_advance.bind fun _ => .pure _)

section Members

variable (rules : RulesConcur c (low + 1) lower lowerToo)

include rules

omit rules in
theorem concur_computedMember (rules : RulesConcur c low lower lowerToo) :
    Concur c low 0 1 (computedMember lower) (computedMember lowerToo) :=
  rules.expression.allowingIn.bind fun _ => (concur_expectPunct "]").andThen fun _ => .pure _

theorem concur_optionalSuffix (start : Span) (base : Expr) :
    Concur c (low + 1) 0 1 (optionalSuffix lower start base) (optionalSuffix lowerToo start base) :=
  concur_atPunct "("
    ((concur_callArguments rules.later).bind fun _ => concur_finish)
    (Nat.le_refl _) (Nat.succ_pos _)
    (concur_eatPunct "["
      ((concur_computedMember rules.later).bind fun _ => concur_finish)
      (concur_memberName.bind fun _ => concur_finish))

theorem concurSome_suffix? (calls : Bool) (start : Span) (base : Expr) :
    ConcurSome c low (suffix? lower calls start base) (suffix? lowerToo calls start base) := by
  have notEnd (text : String) {token : Token} (found : (calls && token.isPunct text) = true) :
      token.isEnd = false :=
    Token.isEnd_of_isPunct (Bool.and_eq_true_iff.mp found).2
  refine .eatPunct "." ?named (.lookingAt (notEnd "?.") ?optional (.eatPunct "[" ?computed
    (.lookingAt (notEnd "(") ?called .none)))
  case named => exact concur_memberName.bind fun _ => concur_finish
  case optional =>
    exact concur_advance.bind fun _ => (concur_optionalSuffix rules start base).andThen fun _ =>
      .pure _
  case computed =>
    exact (concur_computedMember rules).bind fun _ => concur_finish
  case called =>
    exact (concur_callArguments rules).bind fun _ => concur_finish

omit rules in
theorem suffixes_eq_repeated (calls : Bool) (start : Span) :
    suffixes lower calls start = repeated (suffix? lower calls start) := by
  funext bound base
  induction bound generalizing base with
  | zero => rfl
  | succ bound ih =>
    simp only [suffixes, repeated, ih]
    congr
    funext found
    cases found <;> rfl

theorem concur_withSuffixes (calls : Bool) (base : Expr) :
    Concur c low 0 0 (withSuffixes lower calls base) (withSuffixes lowerToo calls base) := by
  unfold withSuffixes
  rw [suffixes_eq_repeated, suffixes_eq_repeated]
  exact (concurBounded_repeated (concurSome_suffix? rules calls base.span) base).bounded

theorem concur_construct : Concur c low 0 1 (construct lower) (construct lowerToo) := by
  refine concur_advance.bind fun start => ?_
  have onward (head : Expr) : Concur c (low + 1 + 1) 0 0
      (do
        let callee ← withSuffixes lower false head
        let arguments ← if ← atPunct "(" then callArguments lower else pure []
        return Expr.construct callee arguments (← finishSpan start.span))
      (do
        let callee ← withSuffixes lowerToo false head
        let arguments ← if ← atPunct "(" then callArguments lowerToo else pure []
        return Expr.construct callee arguments (← finishSpan start.span)) := by
    refine (concur_withSuffixes rules.later.later false head).andThen fun callee =>
      concur_atPunct "(" ?_ (Nat.zero_le 1) (Nat.succ_pos _) ?_
    · exact (concur_callArguments rules.later.later).bind fun _ =>
        concur_finish
    · exact concur_finish
  exact (concur_atReserved "new" (rules.construct.bind onward) (Nat.le_refl _) (Nat.succ_pos _)
    ((concur_primary rules.later).bind onward)).weaken

theorem concur_leftHandSide : Concur c low 0 1 (leftHandSide lower) (leftHandSide lowerToo) :=
  concur_atReserved "new"
    ((concur_construct rules).bind fun base => concur_withSuffixes rules.later true base)
    (Nat.le_refl _) (Nat.succ_pos _)
    ((concur_primary rules).bind fun base => concur_withSuffixes rules.later true base)

end Members

/-! ## Operators -/

/-- No operator is spelled by an end of input. -/
theorem find?_of_isEnd {operators : List α} {spelled : α → Token → Bool}
    (notEnd : ∀ operator {token : Token}, spelled operator token = true → token.isEnd = false)
    (isEnd : token.isEnd = true) : operators.find? (spelled · token) = none := by
  rw [List.find?_eq_none]
  intro operator _
  rw [fails_of_isEnd (notEnd operator) isEnd]
  exact Bool.false_ne_true

theorem updateOp_of_isEnd (isEnd : token.isEnd = true) : UpdateOp.ofToken? token = none :=
  find?_of_isEnd (fun _ => Token.isEnd_of_isPunct) isEnd

theorem assignOp_of_isEnd (isEnd : token.isEnd = true) : AssignOp.ofToken? token = none :=
  find?_of_isEnd (fun _ => Token.isEnd_of_isPunct) isEnd

theorem binaryOp_of_isEnd (isEnd : token.isEnd = true) : BinaryOp.ofToken? token = none := by
  apply find?_of_isEnd _ isEnd
  intro op token spelled
  simp only [BinaryOp.spelledBy, Bool.and_eq_true, beq_iff_eq] at spelled
  rw [Token.isEnd, spelled.1]
  cases op <;> rfl

section Operators

variable (rules : RulesConcur c (low + 1) lower lowerToo)

include rules

theorem concur_updateBefore (op : UpdateOp) (start : Span) :
    Concur c low 0 1 (updateBefore lower op start) (updateBefore lowerToo op start) :=
  concur_advance.bind fun _ => rules.unary.andThen fun _ => .ite
    concur_finish (.of_fails (.malformed _ _))

omit rules in
/-- An update operator on the same line is read. -/
theorem concur_updated (op : UpdateOp) (argument : Expr) (start : Span) :
    Concur c low 0 1
      (if argument.isAssignmentTarget then do
          let _ ← advance
          return Expr.update op false argument (← finishSpan start)
        else malformed argument.span .updateTarget)
      (if argument.isAssignmentTarget then do
          let _ ← advance
          return Expr.update op false argument (← finishSpan start)
        else malformed argument.span .updateTarget) :=
  .ite (concur_advance.bind fun _ => concur_finish)
    (.of_fails (.malformed _ _))

theorem concur_updateAfter (start : Span) :
    Concur c low 0 1 (updateAfter lower start) (updateAfter lowerToo start) := by
  refine (concur_leftHandSide rules).bind fun argument => ?_
  apply concur_peek
  · intro next
    cases UpdateOp.ofToken? next with
    | none => exact .pure argument
    | some op => exact .ite (.pure argument) (concur_updated op argument start).weaken
  · intro next other one two isEnd longer atLimit _
    rw [updateOp_of_isEnd isEnd]
    cases UpdateOp.ofToken? other with
    | none => exact .pure longer argument
    | some op =>
      have updates : Concur c low 0 1 _ _ := concur_updated op argument start
      cases other.newlineBefore with
      | true => exact .pure longer argument
      | false => exact .of_past longer updates.gains (by omega)

theorem concur_unary : Concur c low 0 1 (unary lower) (unary lowerToo) := by
  apply concur_peek_eager (Nat.succ_pos _)
  intro token
  cases UnaryOp.ofToken? token with
  | some op =>
    exact concur_advance.bind fun _ => rules.unary.andThen fun _ =>
      concur_finish
  | none =>
    cases UpdateOp.ofToken? token with
    | some op => exact concur_updateBefore rules op token.span
    | none => exact concur_updateAfter rules token.span

/-- The operator of `nextBinaryOp?`. -/
def binaryOp? (minimum : Nat) (cursor : Cursor) : Option BinaryOp :=
  (BinaryOp.ofToken? cursor.peek).filter fun op =>
    !(op == .inside && !cursor.allowIn) && minimum ≤ op.precedence

/-- Read the right operand of an operator, if there is one. -/
def operation (lower : Rules) (start : Span) (left : Expr) : Option BinaryOp → Parser (Option Expr)
  | some op => do
    let _ ← advance
    let right ← lower.binary (rightMinimum op)
    return some (.binary op left right (← finishSpan start))
  | none => return none

/-- Read an operator and its right operand, if there are any. -/
def operation? (lower : Rules) (minimum : Nat) (start : Span) (left : Expr) :
    Parser (Option Expr) := do
  operation lower start left (← nextBinaryOp? minimum)

omit rules in
theorem binaryTail_eq_repeated (minimum : Nat) (start : Span) :
    binaryTail lower minimum start = repeated (operation? lower minimum start) := by
  funext bound left
  induction bound generalizing left with
  | zero => rfl
  | succ bound ih =>
    simp only [binaryTail, repeated, operation?, bind_assoc, ih]
    congr
    funext found
    cases found with
    | none => rfl
    | some op => simp only [operation, bind_assoc, pure_bind]

theorem concur_operation (start : Span) (left : Expr) (op : BinaryOp) :
    Concur c low 0 1 (operation lower start left (some op))
      (operation lowerToo start left (some op)) :=
  concur_advance.bind fun _ => (rules.binary _).andThen fun _ =>
    concur_finish

theorem concurSome_operation (start : Span) (left : Expr) :
    ∀ found, ConcurSome c low (operation lower start left found)
      (operation lowerToo start left found)
  | some op => .of_concur (concur_operation rules start left op)
  | none => .none

theorem concurSome_operation? (minimum : Nat) (start : Span) (left : Expr) :
    ConcurSome c low (operation? lower minimum start left)
      (operation? lowerToo minimum start left) where
  gains holds run := (concurSome_operation rules start left _).gains holds run
  agree := by
    refine ⟨fun _ _ _ holds run => (concurSome_operation rules start left _).agree.gains holds run,
      fun {one two} longer begun => ?_,
      fun shares begun => (concurSome_operation rules start left _).agree.same shares begun⟩
    change ConcurAt c 0 (operation lower start left (binaryOp? minimum one.cursor) one)
      (operation lowerToo start left (binaryOp? minimum two.cursor) two)
    rcases Nat.lt_or_eq_of_le longer.index_le with inside | atLimit
    · have same : binaryOp? minimum two.cursor = binaryOp? minimum one.cursor := by
        rw [binaryOp?, binaryOp?, longer.peek_of_lt inside, longer.allowIn]
      rw [same]
      exact (concurSome_operation rules start left _).agree.agree longer begun
    · have none : binaryOp? minimum one.cursor = none := by
        rw [binaryOp?, binaryOp_of_isEnd (longer.isEnd_peek atLimit)]
        rfl
      rw [none]
      cases binaryOp? minimum two.cursor with
      | none => exact .pure longer _
      | some op =>
        exact .of_past longer (concur_operation rules start left op).gains (by omega)

theorem concur_binary (minimum : Nat) :
    Concur c low 0 1 (binary lower minimum) (binary lowerToo minimum) := by
  unfold binary
  simp only [binaryTail_eq_repeated]
  exact concur_peek_eager (Nat.succ_pos _) fun token => (concur_unary rules).bind fun left =>
    (concurBounded_repeated (concurSome_operation? rules.later minimum token.span) left).bounded

theorem concur_conditional : Concur c low 0 1 (conditional lower) (conditional lowerToo) :=
  concur_peek_eager (Nat.succ_pos _) fun _ => (concur_binary rules 1).bind fun test =>
    concur_eatPunct "?"
      (rules.later.assignment.allowingIn.andThen fun _ => (concur_expectPunct ":").andThen fun _ =>
        rules.later.assignment.andThen fun _ => concur_finish)
      (.pure test)

/-- An assignment operator is read. -/
theorem concur_assigned (op : AssignOp) (target : Expr) (start : Span) :
    Concur c low 0 1
      (if target.isAssignmentTarget then do
          let _ ← advance
          let value ← lower.assignment
          return Expr.assign op target value (← finishSpan start)
        else malformed target.span .assignmentTarget)
      (if target.isAssignmentTarget then do
          let _ ← advance
          let value ← lowerToo.assignment
          return Expr.assign op target value (← finishSpan start)
        else malformed target.span .assignmentTarget) :=
  .ite
    (concur_advance.bind fun _ => rules.assignment.andThen fun _ =>
      concur_finish)
    (.of_fails (.malformed _ _))

theorem concur_assignmentFrom (start : Span) :
    Concur c low 0 1 (assignmentFrom lower start) (assignmentFrom lowerToo start) := by
  refine (concur_conditional rules).bind fun target => ?_
  apply concur_peek
  · intro next
    cases AssignOp.ofToken? next with
    | none => exact .pure target
    | some op => exact (concur_assigned rules.later op target start).weaken
  · intro next other one two isEnd longer atLimit _
    rw [assignOp_of_isEnd isEnd]
    cases AssignOp.ofToken? other with
    | none => exact .pure longer target
    | some op => exact .of_past longer (concur_assigned rules op target start).gains (by omega)

end Operators

/-! ## Arrow functions -/

section Arrows

variable (rules : RulesConcur c low lower lowerToo)

theorem concur_arrowParameters (head : ArrowHead) :
    Concur c low 0 1 (arrowParameters head) (arrowParameters head) := by
  cases head with
  | name => exact concur_bindingName.bind fun _ => .pure _
  | parenthesized => exact concur_parameters

include rules

theorem concur_arrowBody : Concur c low 0 1 (arrowBody lower) (arrowBody lowerToo) :=
  concur_atPunct "\x7b" ((concur_blockBody rules.later).bind fun _ => .pure _) (Nat.le_refl _)
    (Nat.succ_pos _) (rules.assignment.bind fun _ => .pure _)

/-- What follows the parameters of an arrow function. -/
theorem concur_arrowRest (params : List Identifier) (start : Span) :
    Concur c low 0 1
      (do
        let _ ← expectPunct "=>"
        let body ← arrowBody lower
        return Expr.arrow { params, body, span := ← finishSpan start })
      (do
        let _ ← expectPunct "=>"
        let body ← arrowBody lowerToo
        return Expr.arrow { params, body, span := ← finishSpan start }) :=
  (concur_expectPunct "=>").bind fun _ => (concur_arrowBody rules.later).andThen fun _ =>
    concur_finish

omit rules in
theorem concur_arrowFunction (rules : RulesConcur c (low + 1) lower lowerToo) (head : ArrowHead)
    (start : Span) :
    Concur c low 0 1 (arrowFunction lower head start) (arrowFunction lowerToo head start) :=
  (concur_arrowParameters head).bind fun params => (concur_arrowRest rules params start).weaken

end Arrows

end Grammar

end MacroScript
