import MacroScript.Proofs.Lookahead.Program

/-!
# Reading ends

Every rule reads a token before it calls the rules below it, and every loop reads a token before
it goes round again.  At the end of input no rule reads anything: it complains.  Hence the rules
need no more levels, and the loops no more rounds, than there are tokens left.  With more of them,
and with anything at all in place of the deepest rules, reading comes to the same.
-/

namespace MacroScript.Grammar

open MacroScript.Outcome

variable {α β ι : Type} {state : State} {parser item : Parser α} {depth : Nat} {tokens : List Token}

/-! ## At the end of input -/

/-- No token is left. -/
structure AtEnd (state : State) : Prop where
  isEnd : state.cursor.peek.isEnd = true
  none : state.cursor.tokens.size ≤ state.cursor.index

theorem atEnd_of_le (ready : state.cursor.Ready)
    (none : state.cursor.tokens.size ≤ state.cursor.index) : AtEnd state := by
  refine ⟨?_, none⟩
  rw [Cursor.peek, Cursor.tokenAt, Array.getElem?_eq_none_iff.mpr none]
  exact ready.finish

namespace AtEnd

theorem fails (ended : AtEnd state) {test : Token → Bool}
    (notEnd : ∀ {token : Token}, test token = true → token.isEnd = false) :
    test state.cursor.peek = false :=
  fails_of_isEnd notEnd ended.isEnd

theorem kind (ended : AtEnd state) : state.cursor.peek.kind = .eof :=
  beq_iff_eq.mp ended.isEnd

theorem advance (ended : AtEnd state) : state.cursor.advance = state.cursor :=
  if_neg (Nat.not_lt.mpr ended.none)

end AtEnd

/-- At the end of input the parser does what another one does. -/
def EndsAs (other parser : Parser α) : Prop :=
  ∀ ⦃state : State⦄, AtEnd state → parser state = other state

namespace EndsAs

variable {other : Parser α} {next : Token → Parser α}

theorem refl : EndsAs other other :=
  fun _ _ => rfl

theorem peek (each : ∀ {token : Token}, token.isEnd = true → EndsAs other (next token)) :
    EndsAs other (Grammar.peek >>= next) :=
  fun _ ended => each ended.isEnd ended

theorem advance (each : ∀ token, EndsAs other (next token)) :
    EndsAs other (Grammar.advance >>= next) := by
  intro state ended
  change next _ { state with cursor := state.cursor.advance } = _
  rw [ended.advance]
  exact each _ ended

section Tests

variable {test : Token → Bool} {yes no : Parser α}
  (notEnd : ∀ {token : Token}, test token = true → token.isEnd = false) (ends : EndsAs other no)

include notEnd ends

theorem lookingAt :
    EndsAs other (do if ← (fun state => .ok (test state.cursor.peek) state) then yes else no) := by
  intro state ended
  change (if test state.cursor.peek then yes else no) state = _
  rw [ended.fails notEnd, if_neg Bool.false_ne_true]
  exact ends ended

theorem eating : EndsAs other (do if ← eat test then yes else no) := by
  intro state ended
  rw [eat_bind_of_fail (ended.fails notEnd)]
  exact ends ended

end Tests

end EndsAs

/-- At the end of input the parser complains about it. -/
abbrev Stops (parser : Parser α) : Prop :=
  EndsAs unexpected parser

protected theorem Stops.bind (stops : Stops parser) (next : α → Parser β) :
    Stops (parser >>= next) := by
  intro state ended
  simp only [Bind.bind, EStateM.bind, stops ended]
  rfl

theorem unaryOp_of_isEnd {token : Token} (isEnd : token.isEnd = true) :
    UnaryOp.ofToken? token = none := by
  apply find?_of_isEnd _ isEnd
  intro op token spelled
  simp only [UnaryOp.spelledBy, Bool.and_eq_true, beq_iff_eq] at spelled
  rw [Token.isEnd, spelled.1]
  cases op <;> rfl

variable (lower : Rules)

theorem stops_primary : Stops (primary lower) := by
  apply EndsAs.peek
  intro token isEnd
  rw [show token.kind = .eof from beq_iff_eq.mp isEnd]
  exact .refl

theorem stops_construct : Stops (construct lower) :=
  .advance fun _ => .lookingAt Token.isEnd_of_isReserved ((stops_primary lower).bind _)

theorem stops_leftHandSide : Stops (leftHandSide lower) :=
  .lookingAt Token.isEnd_of_isReserved ((stops_primary lower).bind _)

theorem stops_unary : Stops (unary lower) := by
  apply EndsAs.peek
  intro token isEnd
  rw [unaryOp_of_isEnd isEnd, updateOp_of_isEnd isEnd]
  exact (stops_leftHandSide lower).bind _

theorem stops_binary (minimum : Nat) : Stops (binary lower minimum) :=
  .peek fun _ => (stops_unary lower).bind _

theorem stops_assignment : Stops (assignment lower) := by
  intro state ended
  have none : arrowHead? state.cursor = none := by
    unfold arrowHead?
    rw [ended.fails Token.isEnd_of_isName, ended.fails Token.isEnd_of_isPunct]
    rfl
  have conditional : Stops (conditional lower) := .peek fun _ => (stops_binary lower 1).bind _
  simp only [assignment, none]
  exact conditional.bind _ ended

theorem stops_expression : Stops (expression lower) :=
  .peek fun _ => (stops_assignment lower).bind _

theorem stops_statement : Stops (statement lower) := by
  intro state ended
  have word (text : String) : state.cursor.peek.isWord text = false := by
    rw [Token.isWord, ended.kind]
    rfl
  have plain : statement lower state = expressionStatement lower state := by
    simp only [statement, atMacroDeclaration, plainStatement, atLetDeclaration, Bind.bind,
      EStateM.bind, word, Bool.and_false, Bool.false_and, Bool.false_eq_true, if_false]
    rw [ended.fails Token.isEnd_of_isPunct, ended.fails Token.isEnd_of_isPunct, ended.kind]
    rfl
  have stops : Stops (expressionStatement lower) := .peek fun _ => (stops_expression lower).bind _
  exact plain.trans (stops ended)

/-- Rules that complain at the end of input. -/
structure RulesStop (rules : Rules) : Prop where
  statement : Stops rules.statement
  expression : Stops rules.expression
  assignment : Stops rules.assignment
  binary (minimum : Nat) : Stops (rules.binary minimum)
  unary : Stops rules.unary
  construct : Stops rules.construct

theorem rulesStop_above : RulesStop lower.above where
  statement := stops_statement lower
  expression := stops_expression lower
  assignment := stops_assignment lower
  binary := stops_binary lower
  unary := stops_unary lower
  construct := stops_construct lower

theorem rulesStop_level : ∀ level, RulesStop (.level level)
  | 0 => ⟨.refl, .refl, .refl, fun _ => .refl, .refl, .refl⟩
  | level + 1 => rulesStop_above (.level level)

/-! ## Levels -/

/-- The rules that are so many levels above some others. -/
def Rules.raised (bottom : Rules) : Nat → Rules
  | 0 => bottom
  | depth + 1 => (raised bottom depth).above

section Levels

variable {c : Continuation}

/-- Behind the last token all rules that complain there are the same. -/
theorem RulesStop.concur {rules rulesToo : Rules} {low : Nat} (stops : RulesStop rules)
    (stopsToo : RulesStop rulesToo) (agree : RulesConcur c low rulesToo rulesToo)
    (alike : c.alike = true) : RulesConcur c c.size rules rulesToo := by
  have each {α : Type} {first second : Parser α} (stops : Stops first) (stopsToo : Stops second)
      (gains : Gains c 1 second) : Concur c c.size 0 1 first second := by
    refine ⟨gains, fun longer => (nomatch longer.differs.symm.trans alike), ?_⟩
    intro state shares begun
    have ended : AtEnd state := by
      apply atEnd_of_le shares.holds.ready
      rw [shares.holds.size]
      refine begun.elim id fun past => ?_
      rw [Continuation.size, shares.last]
      exact past
    rw [stops ended, stopsToo ended]
  exact ⟨each stops.statement stopsToo.statement agree.statement.gains,
    each stops.expression stopsToo.expression agree.expression.gains,
    each stops.assignment stopsToo.assignment agree.assignment.gains,
    fun minimum => each (stops.binary minimum) (stopsToo.binary minimum)
      (agree.binary minimum).gains,
    each stops.unary stopsToo.unary agree.unary.gains,
    each stops.construct stopsToo.construct agree.construct.gains⟩

/-- Rules with more levels than there are tokens do not come to the rules at the bottom. -/
theorem rulesConcur_raised (alike : c.alike = true) (bottom : Rules) (depth level : Nat) :
    RulesConcur c (c.size - min depth level) (bottom.raised (depth + 1)) (.level level) := by
  induction depth generalizing level with
  | zero =>
    rw [Nat.zero_min]
    exact (rulesStop_above bottom).concur (rulesStop_level level) (rulesConcur_self level 0) alike
  | succ depth ih =>
    cases level with
    | zero =>
      exact (rulesStop_above _).concur (rulesStop_level 0) (rulesConcur_self 0 0) alike
    | succ level => exact ((ih level).from_le (by omega)).above

end Levels

/-! ## Rules -/

/-- A rule of the grammar, which is the same for rules that agree. -/
structure IsRule (rule : Rules → Parser α) : Prop where
  agree {c : Continuation} {low : Nat} {lower lowerToo : Rules}
    (rules : RulesConcur c low lower lowerToo) : Concur c low 0 1 (rule lower) (rule lowerToo)
  stops {rules : Rules} (stops : RulesStop rules) : Stops (rule rules)

theorem isRule_statement : IsRule (·.statement) := ⟨(·.statement), (·.statement)⟩

theorem isRule_expression : IsRule (·.expression) := ⟨(·.expression), (·.expression)⟩

theorem isRule_assignment : IsRule (·.assignment) := ⟨(·.assignment), (·.assignment)⟩

/-- Rules that have enough levels for the tokens that are left agree on them. -/
theorem rulesConcur_left (inside : state.cursor.index < state.cursor.tokens.size) (bottom : Rules)
    (deep : state.cursor.remaining < depth) :
    RulesConcur ⟨state.cursor.tokens.size - 1, state.cursor.peek, [], true⟩ state.cursor.index
      (bottom.raised depth) (.level state.cursor.remaining) := by
  obtain ⟨depth, rfl⟩ := Nat.exists_eq_add_one_of_ne_zero (Nat.ne_zero_of_lt deep)
  apply (rulesConcur_raised rfl bottom depth state.cursor.remaining).from_le
  simp only [Continuation.size, Cursor.remaining, List.length_nil] at deep ⊢
  omega

/-- A parser that reads a token, if it comes to something. -/
def Advances (parser : Parser α) : Prop :=
  ∀ ⦃state after : State⦄ ⦃value : α⦄, state.cursor.Ready → parser state = .ok value after →
    state.cursor.Forward after.cursor ∧ state.cursor.index < after.cursor.index

theorem Stops.advances (stops : Stops parser) (gains : ∀ c, Gains c 1 parser) :
    Advances parser := by
  intro state after value ready run
  rcases Nat.lt_or_ge state.cursor.index state.cursor.tokens.size with inside | outside
  · exact further_of_gains gains ready inside run
  · cases (stops (atEnd_of_le ready outside)).symm.trans run

namespace IsRule

variable {rule : Rules → Parser α}

theorem advances (isRule : IsRule rule) (level : Nat) : Advances (rule (.level level)) :=
  (isRule.stops (rulesStop_level level)).advances fun _ =>
    (isRule.agree (rulesConcur_self level 0)).gains

/-- The rule comes to the same with any rules in place of those that are too deep. -/
theorem raised_eq (isRule : IsRule rule) {state : State} (ready : state.cursor.Ready)
    (bottom : Rules) {depth : Nat} (deep : state.cursor.remaining < depth) :
    rule (bottom.raised depth) state = withRules rule state := by
  rcases Nat.lt_or_ge state.cursor.index state.cursor.tokens.size with inside | outside
  · exact (isRule.agree (rulesConcur_left inside bottom deep)).same
      (shares_of_inside ready inside) (.inl (Nat.le_refl _))
  · obtain ⟨depth, rfl⟩ := Nat.exists_eq_add_one_of_ne_zero (Nat.ne_zero_of_lt deep)
    have ended := atEnd_of_le ready outside
    exact (isRule.stops (rulesStop_above _) ended).trans
      (isRule.stops (rulesStop_level _) ended).symm

end IsRule

/-! ## Loops -/

/-- The rounds of a loop come to the same, however many more of them are allowed than there are
tokens left. -/
def Settles (spare : Nat) (rounds : Nat → Parser α) : Prop :=
  ∀ ⦃state : State⦄ ⦃bound : Nat⦄, state.cursor.Ready → state.cursor.remaining + spare ≤ bound →
    rounds bound state = rounds (state.cursor.remaining + spare) state

/-- It is enough to look at one round, when every round reads a token before the next. -/
theorem settles_of_round {spare : Nat} (rounds : Nat → ι → Parser α)
    (zero : ∀ {bound : Nat} {start : ι} {state : State}, state.cursor.Ready →
      state.cursor.remaining + spare = 0 → rounds bound start state = rounds 0 start state)
    (round : ∀ {bound boundToo : Nat} {start : ι} {state : State}, state.cursor.Ready →
      (∀ next {after : State}, state.cursor.Forward after.cursor →
        state.cursor.index < after.cursor.index →
          rounds bound next after = rounds boundToo next after) →
      rounds (bound + 1) start state = rounds (boundToo + 1) start state)
    (start : ι) : Settles spare (rounds · start) := by
  intro state bound ready enough
  have equal (boundToo : Nat) (enoughToo : state.cursor.remaining + spare ≤ boundToo) :
      rounds bound start state = rounds boundToo start state := by
    induction bound generalizing boundToo start state with
    | zero => exact (zero ready (Nat.le_zero.mp enough)).symm
    | succ bound ih =>
      cases boundToo with
      | zero => exact zero ready (Nat.le_zero.mp enoughToo)
      | succ boundToo =>
        apply round ready
        intro next after forward further
        have inside := forward.inside
        have fewer : after.cursor.remaining < state.cursor.remaining := by
          rw [Cursor.remaining, Cursor.remaining, forward.tokens]
          omega
        exact ih next (forward.ready ready) (by omega) boundToo (by omega)
  exact equal _ (Nat.le_refl _)

section Steps

/-- Go on from where a parser has come to. -/
theorem bind_congr_of_ok {next nextToo : α → Parser β}
    (same : ∀ value after, parser state = .ok value after →
      next value after = nextToo value after) :
    (parser >>= next) state = (parser >>= nextToo) state := by
  simp only [Bind.bind, EStateM.bind]
  cases run : parser state with
  | error fault after => rfl
  | ok value after => exact same value after run

theorem bind_congr_state {parserToo : Parser α} (same : parser state = parserToo state)
    (next : α → Parser β) : (parser >>= next) state = (parserToo >>= next) state := by
  simp only [Bind.bind, EStateM.bind, same]

/-- Take a comma, and go on if there is one. -/
theorem moreItems_congr {rest restToo : Parser (List α)} (ready : state.cursor.Ready) (first : α)
    (same : ∀ {after : State}, state.cursor.Forward after.cursor →
      rest after = restToo after) :
    (do if ← eatPunct "," then return first :: (← rest) else return [first] :
        Parser (List α)) state =
      (do if ← eatPunct "," then return first :: (← restToo) else return [first] :
        Parser (List α)) state := by
  rw [eatPunct_eq]
  cases found : state.cursor.peek.isPunct "," with
  | false => rw [eat_bind_of_fail found, eat_bind_of_fail found]; rfl
  | true =>
    rw [eat_bind_of_pass found, eat_bind_of_pass found]
    have forward := Cursor.forward_succ (ready.lt_of_isPunct found)
    exact bind_congr_state (same forward) _

end Steps

theorem settles_itemsUntil (stop : Token → Bool) (each : Progress item) :
    Settles 1 (itemsUntil stop item) := by
  refine settles_of_round (fun bound (_ : Unit) => itemsUntil stop item bound)
    (fun _ => (absurd · (Nat.succ_ne_zero _))) ?_ ()
  intro bound boundToo _ state ready later
  change (ite _ _ _ : Parser (List α)) state = (ite _ _ _ : Parser (List α)) state
  split
  · rfl
  · split
    · rfl
    · rename_i within
      apply bind_congr_of_ok
      intro first after run
      obtain ⟨forward, further⟩ := each ready (Bool.eq_false_iff.mpr within) run
      exact bind_congr_state (later () forward further) _

theorem settles_commaItems (closer : String) (each : Advances item) :
    Settles 1 (commaItems closer item) := by
  refine settles_of_round (fun bound (_ : Unit) => commaItems closer item bound)
    (fun _ => (absurd · (Nat.succ_ne_zero _))) ?_ ()
  intro bound boundToo _ state ready later
  change (ite _ _ _ : Parser (List α)) state = (ite _ _ _ : Parser (List α)) state
  split
  · rfl
  · apply bind_congr_of_ok
    intro first after run
    obtain ⟨forward, further⟩ := each ready run
    exact moreItems_congr (forward.ready ready) first fun onward =>
      later () (forward.trans onward) (Nat.lt_of_lt_of_le further onward.index)

theorem settles_commaSequence (each : Advances item) : Settles 1 (commaSequence item) := by
  refine settles_of_round (fun bound (_ : Unit) => commaSequence item bound)
    (fun _ => (absurd · (Nat.succ_ne_zero _))) ?_ ()
  intro bound boundToo _ state ready later
  apply bind_congr_of_ok
  intro first after run
  obtain ⟨forward, further⟩ := each ready run
  exact moreItems_congr (forward.ready ready) first fun onward =>
    later () (forward.trans onward) (Nat.lt_of_lt_of_le further onward.index)

/-- A step that reads a token if it comes to something. -/
theorem settles_repeated {step : α → Parser (Option α)}
    (each : ∀ c last, ConcurSome c 0 (step last) (step last))
    (idle : ∀ last, EndsAs (pure none) (step last)) (last : α) :
    Settles 1 (repeated step · last) := by
  refine settles_of_round (repeated step) (fun _ => (absurd · (Nat.succ_ne_zero _))) ?_ last
  intro bound boundToo last state ready later
  apply bind_congr_of_ok
  intro found after run
  cases found with
  | none => rfl
  | some next =>
    rcases Nat.lt_or_ge state.cursor.index state.cursor.tokens.size with inside | outside
    · have shares := shares_of_inside ready inside
      have forward := ((each _ last).agree.gains shares.holds run).1
      have further := (each _ last).gains shares.holds run
      simp only at further
      exact later next forward (by omega)
    · cases (idle last (atEnd_of_le ready outside)).symm.trans run

theorem settles_switchCases (each : ∀ seenDefault, Advances (switchCase lower seenDefault))
    (seenDefault : Bool) : Settles 1 (switchCases lower · seenDefault) := by
  refine settles_of_round (switchCases lower) (fun _ => (absurd · (Nat.succ_ne_zero _))) ?_
    seenDefault
  intro bound boundToo seenDefault state ready later
  change (ite _ _ _ : Parser (List (Case Expr Stmt))) state =
    (ite _ _ _ : Parser (List (Case Expr Stmt))) state
  split
  · rfl
  · apply bind_congr_of_ok
    intro first after run
    obtain ⟨forward, further⟩ := each seenDefault ready run
    exact bind_congr_state (later _ forward further) _

theorem settles_rulesOf (name : String) : Settles 1 (rulesOf name) := by
  refine settles_of_round (fun bound (_ : Unit) => rulesOf name bound)
    (fun _ => (absurd · (Nat.succ_ne_zero _))) ?_ ()
  intro bound boundToo _ state ready later
  change (ite _ _ _ : Parser (List Rule)) state = (ite _ _ _ : Parser (List Rule)) state
  split
  · rfl
  · change (ite _ _ _ : Parser (List Rule)) state = (ite _ _ _ : Parser (List Rule)) state
    split
    · rfl
    · rename_i within
      apply bind_congr_of_ok
      intro first after run
      have inside := ready.lt_of_not_end (Bool.eq_false_iff.mpr within)
      obtain ⟨forward, further⟩ :=
        further_of_gains (fun _ => (concur_rule : Concur _ 0 0 1 _ _).gains) ready inside run
      exact bind_congr_state (later () forward further) _

theorem index_lt_advance {cursor : Cursor} (inside : cursor.index < cursor.tokens.size) :
    cursor.index < cursor.advance.index := by
  rw [Cursor.advance_index_of_lt inside]
  exact Nat.lt_succ_self _

/-- An element depends on what is inside only behind its first tokens. -/
theorem patternElement_congr {content contentToo : Parser Pattern} (ready : state.cursor.Ready)
    (inside : state.cursor.index < state.cursor.tokens.size)
    (same : ∀ {after : State}, state.cursor.Forward after.cursor →
      state.cursor.index < after.cursor.index → content after = contentToo after) :
    patternElement content state = patternElement contentToo state := by
  change (ite _ _ _ : Parser PatternElement) state = (ite _ _ _ : Parser PatternElement) state
  split
  · have forward := ready.forward_advance
    have onward := (forward.ready ready).forward_advance
    refine bind_congr_state (same (forward.trans onward) ?_) _
    exact Nat.lt_of_lt_of_le (index_lt_advance inside) onward.index
  · rfl

theorem settles_patternElements (closer : String) (inner : List String) :
    Settles 0 (patternElements · closer inner) := by
  refine settles_of_round (fun bound (place : String × List String) =>
    patternElements bound place.1 place.2) ?_ ?_ (closer, inner)
  · intro bound place state ready none
    have ended := atEnd_of_le ready (Nat.le_of_sub_eq_zero none)
    cases bound with
    | zero => rfl
    | succ bound =>
      change (ite _ _ _ : Parser Pattern) state = _
      rw [if_pos ended.isEnd]
      rfl
  · intro bound boundToo place state ready later
    change (ite _ _ _ : Parser Pattern) state = (ite _ _ _ : Parser Pattern) state
    split
    · rfl
    · rename_i within
      have inside := ready.lt_of_not_end (Bool.eq_false_iff.mpr within)
      have bracket (inner : List String) :
          (do let _ ← advance; return .token state.cursor.peek ::
            (← patternElements bound place.1 inner) : Parser Pattern) state =
          (do let _ ← advance; return .token state.cursor.peek ::
            (← patternElements boundToo place.1 inner) : Parser Pattern) state :=
        bind_congr_state
          (later (place.1, inner) ready.forward_advance (index_lt_advance inside)) _
      split
      · rfl
      · split
        · exact bracket _
        · cases state.cursor.peek.closer? with
          | some opened => exact bracket _
          | none =>
            change (ite _ _ _ : Parser Pattern) state = (ite _ _ _ : Parser Pattern) state
            split
            · rfl
            · refine (bind_congr_state (patternElement_congr ready inside
                (later (")", []))) _).trans (bind_congr_of_ok ?_)
              intro first after run
              have element (c : Continuation) :
                  Gains c 1 (patternElement (patternElements boundToo ")" [])) :=
                (concur_patternElement ((concur_patternElements boundToo boundToo
                  (fun _ => rfl) ")" []).from_le (Nat.le_succ_of_le (Nat.sub_le _ _)))).gains
              obtain ⟨forward, further⟩ := further_of_gains element ready inside run
              exact bind_congr_state (later _ forward further) _

/-! ## The loops of the grammar -/

theorem endsAs_suffix? (calls : Bool) (start : Span) (base : Expr) :
    EndsAs (pure none) (suffix? lower calls start base) := by
  have notEnd (text : String) {token : Token} (found : (calls && token.isPunct text) = true) :
      token.isEnd = false :=
    Token.isEnd_of_isPunct (Bool.and_eq_true_iff.mp found).2
  unfold suffix?
  rw [eatPunct_eq, eatPunct_eq]
  exact .eating Token.isEnd_of_isPunct (.lookingAt (notEnd "?.") (.eating Token.isEnd_of_isPunct
    (.lookingAt (notEnd "(") .refl)))

theorem endsAs_operation? (minimum : Nat) (start : Span) (left : Expr) :
    EndsAs (pure none) (operation? lower minimum start left) := by
  intro state ended
  have none : binaryOp? minimum state.cursor = none := by
    rw [binaryOp?, binaryOp_of_isEnd ended.isEnd]
    rfl
  change operation lower start left (binaryOp? minimum state.cursor) state = _
  rw [none]
  rfl

theorem stops_bindingName : Stops bindingName := by
  have name : Stops expectName := .lookingAt Token.isEnd_of_isName .refl
  intro state ended
  exact name.bind _ ended

theorem stops_property : Stops (property lower) := by
  have key : Stops (propertyKey lower) := by
    apply EndsAs.peek
    intro token isEnd
    rw [show token.kind = .eof from beq_iff_eq.mp isEnd,
      fails_of_isEnd Token.isEnd_of_isPunct isEnd]
    exact .refl
  apply EndsAs.peek
  intro token isEnd state ended
  change (ite (token.isName && _) _ _ : Parser (Property Expr)) state = _
  rw [fails_of_isEnd Token.isEnd_of_isName isEnd, Bool.false_and, if_neg Bool.false_ne_true]
  exact key.bind _ ended

theorem stops_declarator : Stops (declarator lower) :=
  .peek fun _ => stops_bindingName.bind _

theorem stops_switchCase (seenDefault : Bool) : Stops (switchCase lower seenDefault) := by
  have test : Stops (caseTest lower seenDefault) := by
    unfold caseTest
    rw [eatReserved_eq]
    exact .eating Token.isEnd_of_isReserved (.lookingAt Token.isEnd_of_isReserved .refl)
  exact .peek fun _ => test.bind _

/-- No loop comes to its bound: those of the statements and expressions, and those of macro
declarations. -/
structure LoopsSettle (lower : Rules) : Prop where
  statements (stop : Token → Bool) : Settles 1 (itemsUntil stop lower.statement)
  items (closer : String) : Settles 1 (commaItems closer lower.assignment)
  parameters : Settles 1 (commaItems ")" bindingName)
  properties : Settles 1 (commaItems "\x7d" (property lower))
  sequence : Settles 1 (commaSequence lower.assignment)
  declarators : Settles 1 (commaSequence (declarator lower))
  suffixes (calls : Bool) (start : Span) (base : Expr) :
    Settles 1 (suffixes lower calls start · base)
  operators (minimum : Nat) (start : Span) (left : Expr) :
    Settles 1 (binaryTail lower minimum start · left)
  alternatives (seenDefault : Bool) : Settles 1 (switchCases lower · seenDefault)
  macroRules (name : String) : Settles 1 (rulesOf name)
  patterns (closer : String) (inner : List String) :
    Settles 0 (patternElements · closer inner)

theorem loopsSettle_level (level : Nat) : LoopsSettle (.level level) := by
  have rules (c : Continuation) : RulesConcur c 1 (.level level) (.level level) :=
    rulesConcur_self level 1
  have assignment := isRule_assignment.advances level
  constructor
  case statements => exact fun stop => settles_itemsUntil stop (progress_statement level)
  case items => exact fun closer => settles_commaItems closer assignment
  case parameters =>
    exact settles_commaItems ")" (stops_bindingName.advances fun _ =>
      (concur_bindingName : Concur _ 0 0 1 _ _).gains)
  case properties =>
    exact settles_commaItems "\x7d" ((stops_property _).advances fun c =>
      (concur_property (rules c)).gains)
  case sequence => exact settles_commaSequence assignment
  case declarators =>
    exact settles_commaSequence ((stops_declarator _).advances fun c =>
      (concur_declarator (rules c)).gains)
  case suffixes =>
    intro calls start base
    rw [suffixes_eq_repeated]
    exact settles_repeated (fun c => concurSome_suffix? (rules c) calls start)
      (endsAs_suffix? _ calls start) base
  case operators =>
    intro minimum start left
    rw [binaryTail_eq_repeated]
    exact settles_repeated (fun c => concurSome_operation? (rules c) minimum start)
      (endsAs_operation? _ minimum start) left
  case alternatives =>
    exact settles_switchCases _ fun seenDefault => (stops_switchCase _ seenDefault).advances
      fun c => (concur_switchCase (rules c) seenDefault).gains
  case macroRules => exact settles_rulesOf
  case patterns => exact settles_patternElements

/-! ## Programs -/

/-- Read a program with some rules, and in at most so many rounds. -/
def programWith (rules : Rules) (bound : Nat) : Parser Program := do
  let start := (← peek).span
  let body ← itemsUntil Token.isEnd rules.statement bound
  return { body, span := ← finishSpan start }

/-- The series of statements does not come to its bound, nor to the rules at the bottom. -/
theorem programWith_raised (ready : state.cursor.Ready) (bottom : Rules) {bound : Nat}
    (deep : state.cursor.remaining < depth) (enough : state.cursor.remaining < bound) :
    programWith (bottom.raised depth) bound state = program state := by
  change (itemsUntil Token.isEnd (bottom.raised depth).statement bound >>= _ : Parser Program)
    state = _
  refine bind_congr_state ?_ _
  rcases Nat.lt_or_ge state.cursor.index state.cursor.tokens.size with inside | outside
  · have agree := concurBounded_itemsUntil Token.isEnd
      (rulesConcur_left inside bottom deep).statement
    refine Eq.trans ?_ (((loopsSettle_level _).statements Token.isEnd) ready enough)
    apply (agree bound bound fun _ => rfl).same (shares_of_inside ready inside)
    exact .inl (Nat.le_refl _)
  · obtain ⟨bound, rfl⟩ := Nat.exists_eq_add_one_of_ne_zero (Nat.ne_zero_of_lt enough)
    have isEnd := (atEnd_of_le ready outside).isEnd
    change (ite _ _ _ : Parser (List Stmt)) state = (ite _ _ _ : Parser (List Stmt)) state
    rw [if_pos isEnd, if_pos isEnd]

/-- Only the tokens that are no end of input are read. -/
theorem toList_ofTokens (ordinary : ∀ token ∈ tokens.dropLast, token.isEnd = false) :
    (Cursor.ofTokens tokens).tokens.toList = tokens.filter fun token => !token.isEnd := by
  obtain ⟨finish, split, words, ends⟩ := Cursor.exists_finish_ofTokens ordinary
  have keeps := List.filter_eq_self.mpr fun token mem => congrArg (!·) (words token mem)
  have drops : finish.filter (fun token => !token.isEnd) = [] :=
    List.filter_eq_nil_iff.mpr fun token mem => by simp [ends token mem]
  conv_rhs => rw [split, List.filter_append, keeps, drops, List.append_nil]

/-- The program ends where the tokens do. -/
theorem program_ends {after : State} {value : Program}
    (ordinary : ∀ token ∈ tokens.dropLast, token.isEnd = false)
    (reached : (Cursor.ofTokens tokens).Forward state.cursor)
    (run : program state = .ok value after) :
    after.cursor.index = tokens.countP fun token => !token.isEnd := by
  have ready := reached.ready (Cursor.ready_ofTokens tokens)
  obtain ⟨series, isEnd⟩ := program_eq_ok ready run
  have forward := reached.trans (series.forward (progress_statement _) ready)
  have real := toList_ofTokens ordinary
  rw [List.countP_eq_length_filter, ← real, Array.length_toList]
  apply Nat.le_antisymm forward.inside
  by_contra before
  have inside := Nat.lt_of_not_le before
  rw [Cursor.peek, forward.tokenAt, Cursor.tokenAt, Array.getElem?_eq_getElem inside,
    Option.getD_some] at isEnd
  have known : (Cursor.ofTokens tokens).tokens[after.cursor.index] ∈
      tokens.filter fun token => !token.isEnd := by
    rw [← real]
    exact Array.mem_toList_iff.mpr (Array.getElem_mem inside)
  have other := (List.mem_filter.mp known).2
  rw [isEnd] at other
  cases other

/-- From a state the rule reads at least one token and none behind so many tokens.  It comes to the
same with any number of levels that is greater than that of the tokens left, whatever rules are
below them. -/
structure Terminates (rule : Rules → Parser α) (count : Nat) (state : State) : Prop where
  advances {value : α} {after : State} (run : withRules rule state = .ok value after) :
    state.cursor.index + 1 ≤ after.cursor.index ∧ after.cursor.index ≤ count
  settles (bottom : Rules) {depth : Nat} (deep : state.cursor.remaining < depth) :
    rule (bottom.raised depth) state = withRules rule state

theorem IsRule.terminates {rule : Rules → Parser α} (isRule : IsRule rule)
    (ordinary : ∀ token ∈ tokens.dropLast, token.isEnd = false)
    (reached : (Cursor.ofTokens tokens).Forward state.cursor) :
    Terminates rule (tokens.countP fun token => !token.isEnd) state := by
  have ready := reached.ready (Cursor.ready_ofTokens tokens)
  refine ⟨fun run => ?_, fun bottom _ => isRule.raised_eq ready bottom⟩
  obtain ⟨forward, further⟩ := isRule.advances _ ready run
  refine ⟨further, ?_⟩
  rw [List.countP_eq_length_filter, ← toList_ofTokens ordinary, Array.length_toList]
  exact (reached.trans forward).inside

/-- Reading makes progress and ends, from every place in tokens of which at most the last is an end
of input, in the plain language as well as with macros.  Neither the levels of the rules nor the
bounds of the loops are ever used up, so that a program is read as with rules and loops that have
no such limits.  It ends where the tokens do. -/
theorem reading_terminates (tokens : List Token)
    (ordinary : ∀ token ∈ tokens.dropLast, token.isEnd = false) (state : State)
    (reached : (Cursor.ofTokens tokens).Forward state.cursor) :
    let count := tokens.countP fun token => !token.isEnd
    (Terminates (·.statement) count state ∧ Terminates (·.expression) count state ∧
      Terminates (·.assignment) count state) ∧
    (∀ level, LoopsSettle (.level level)) ∧
    (∀ (bottom : Rules) (depth bound : Nat), state.cursor.remaining < depth →
      state.cursor.remaining < bound →
        programWith (bottom.raised depth) bound state = program state) ∧
    ∀ value after, program state = .ok value after → after.cursor.index = count :=
  ⟨⟨isRule_statement.terminates ordinary reached, isRule_expression.terminates ordinary reached,
      isRule_assignment.terminates ordinary reached⟩,
    loopsSettle_level,
    fun bottom _ _ => programWith_raised (reached.ready (Cursor.ready_ofTokens tokens)) bottom,
    fun _ _ => program_ends ordinary reached⟩

/-- A macro with a repetition, and a member of a call of it whose key is computed. -/
def macroAndCall : List Token :=
  (tokenize "macro m \x7b ($($a:expr),) => \x7b f($($a),) \x7d \x7d
let x = m(1, -y)[\x7ba\x7d]").toOption.getD []

theorem reading_terminates_macroAndCall :
    let start := Session.readerState {} macroAndCall [] none
    (∀ token ∈ macroAndCall.dropLast, token.isEnd = false) ∧
      Terminates (·.statement) 39 start ∧
        ∃ value after, program start = .ok value after ∧ after.cursor.index = 39 := by
  have ordinary : ∀ token ∈ macroAndCall.dropLast, token.isEnd = false := by decide +kernel
  have count : (macroAndCall.countP fun token => !token.isEnd) = 39 := by decide +kernel
  have evaluated : endsWith (fun _ _ => true)
      (program (Session.readerState {} macroAndCall [] none)) = true := by
    decide +kernel
  obtain ⟨value, after, run, -⟩ := exists_ok_of_endsWith evaluated
  have all := reading_terminates macroAndCall ordinary
    (Session.readerState {} macroAndCall [] none) (.refl (Cursor.ready_ofTokens _))
  rw [count] at all
  exact ⟨ordinary, all.1.1, value, after, run, all.2.2.2 value after run⟩

end MacroScript.Grammar
