import MacroScript.Proofs.Lookahead.Expression

/-!
# Arrow functions and what follows

An arrow function is the one construct that is recognized by looking ahead without a bound:
the parenthesis at its beginning is followed to the one that closes it.  The longer source may
close a parenthesis that the shorter one leaves open, or have an arrow behind it.  The parameters
of an arrow function hold no brackets, though, so that they reach up to just that closing
parenthesis, and reading the arrow goes past the shorter source.
-/

namespace MacroScript

theorem Token.flat_of_isComma {token : Token} (isComma : token.isPunct "," = true) :
    token.Flat := by
  simp only [Token.isPunct, Bool.and_eq_true, beq_iff_eq] at isComma
  simp [Token.Flat, Token.closer?, Token.isCloser, Token.isPunct, isComma.2]

namespace Balanced

/-- A closing bracket that is found is also found with more tokens behind it. -/
theorem closeOffsetWithin?_append {stack : List String} {tokens : List Token} {offset : Nat}
    (found : closeOffsetWithin? stack tokens = some offset) (more : List Token) :
    closeOffsetWithin? stack (tokens ++ more) = some offset := by
  induction tokens generalizing stack offset with
  | nil => simp [closeOffsetWithin?] at found
  | cons token rest ih =>
    have onward {stack : List String} {offset : Nat}
        (found : (closeOffsetWithin? stack rest).map (· + 1) = some offset) :
        (closeOffsetWithin? stack (rest ++ more)).map (· + 1) = some offset := by
      obtain ⟨inner, reached, rfl⟩ := Option.map_eq_some_iff.mp found
      rw [ih reached]
      rfl
    rw [List.cons_append]
    unfold closeOffsetWithin? at found ⊢
    split at found
    · exact onward found
    · split at found
      · rename_i isCloser
        rw [if_pos isCloser]
        split at found
        · cases found
        · split at found
          · rename_i matched
            rw [if_pos matched]
            split at found
            · rename_i outermost
              rw [if_pos outermost]
              exact found
            · rename_i nested
              rw [if_neg nested]
              exact onward found
          · cases found
      · rename_i regular
        rw [if_neg regular]
        exact onward found

/-- A parenthesis is closed behind tokens that are no brackets. -/
theorem closeOffsetWithin?_flat {run : List Token} (flat : ∀ token ∈ run, token.Flat)
    {opener closer : Token} (opens : opener.isPunct "(" = true) (closes : closer.isPunct ")" = true)
    (rest : List Token) :
    closeOffsetWithin? [] (opener :: (run ++ closer :: rest)) = some (run.length + 1) := by
  have known : ")" ∈ closers := by decide
  have within : closeOffsetWithin? [")"] (run ++ closer :: rest) = some run.length := by
    induction run with
    | nil =>
      have text : closer.text = ")" := by
        simp only [Token.isPunct, Bool.and_eq_true, beq_iff_eq] at closes
        exact closes.2
      simp [closeOffsetWithin?, closer?_of_isPunct known closes, Token.isCloser, closes, text]
    | cons token run ih =>
      have isFlat := flat token (List.mem_cons_self ..)
      have reached := ih fun other within => flat other (List.mem_cons_of_mem _ within)
      simp [closeOffsetWithin?, isFlat.1, isFlat.2, reached]
  have opened : opener.closer? = some ")" := by
    simp [Token.closer?, opens]
  simp [closeOffsetWithin?, opened, within]

end Balanced

namespace Grammar

variable {α β : Type} {c : Continuation} {low : Nat} {lower lowerToo : Rules} {cursor : Cursor}

/-! ## What parameters are made of -/

/-- A parser goes forward, and every token that it reads passes a test. -/
def Passes (test : Token → Prop) (parser : Parser α) : Prop :=
  ∀ ⦃state after : State⦄ ⦃value : α⦄, state.cursor.Ready → parser state = .ok value after →
    state.cursor.Forward after.cursor ∧
      ∀ place, state.cursor.index ≤ place → place < after.cursor.index →
        test (state.cursor.tokenAt place)

namespace Passes

variable {test : Token → Prop} {parser : Parser α} {next : α → Parser β}

theorem of_stays (stays : ∀ {state after : State} {value : α}, parser state = .ok value after →
    after.cursor = state.cursor) : Passes test parser := by
  intro state after value ready run
  rw [stays run]
  constructor
  · exact .refl ready
  · intro place behind before
    omega

protected theorem pure (value : α) : Passes test (pure value : Parser α) := by
  apply of_stays
  rintro state after other ⟨⟩
  rfl

protected theorem bind (first : Passes test parser) (second : ∀ value, Passes test (next value)) :
    Passes test (parser >>= next) := by
  intro state after value ready run
  obtain ⟨middle, between, firstRun, secondRun⟩ := Outcome.bind_eq_ok_iff.mp run
  obtain ⟨forward, early⟩ := first ready firstRun
  obtain ⟨forwardToo, late⟩ := second middle (forward.ready ready) secondRun
  constructor
  · exact forward.trans forwardToo
  · intro place behind before
    rcases Nat.lt_or_ge place between.cursor.index with isEarly | isLate
    · exact early place behind isEarly
    · rw [← forward.tokenAt place]
      exact late place isLate before

theorem ite {condition : Bool} {other : Parser α} (yes : Passes test parser)
    (no : Passes test other) : Passes test (if condition then parser else other) := by
  cases condition
  · exact no
  · exact yes

end Passes

theorem passes_bindingName : Passes Token.Flat bindingName := by
  intro state after value ready run
  rw [bindingName_eq] at run
  split at run
  case isFalse => cases run
  case isTrue isName =>
    rw [declareName_cursor run]
    refine ⟨ready.forward_advance, fun place behind before => ?_⟩
    rw [Cursor.advance_index_of_lt (ready.lt_of_isName isName)] at before
    obtain rfl : place = state.cursor.index := Nat.le_antisymm (Nat.lt_succ_iff.mp before) behind
    exact Token.flat_of_isName isName

theorem passes_eatComma : Passes Token.Flat (eatPunct ",") := by
  intro state after found ready run
  rw [eatPunct_eq, eat] at run
  split at run
  case isFalse =>
    cases run
    exact ⟨.refl ready, fun place behind before => absurd before (Nat.not_lt.mpr behind)⟩
  case isTrue isComma =>
    cases run
    refine ⟨Cursor.forward_succ (ready.lt_of_isPunct isComma), fun place behind before => ?_⟩
    obtain rfl : place = state.cursor.index := Nat.le_antisymm (Nat.lt_succ_iff.mp before) behind
    exact Token.flat_of_isComma isComma

theorem passes_commaItems (bound : Nat) :
    Passes Token.Flat (commaItems ")" bindingName bound) := by
  induction bound with
  | zero => exact .pure []
  | succ bound ih =>
    refine Passes.bind (.of_stays ?_) fun closed => .ite (.pure []) ?_
    · rintro state after value ⟨⟩
      rfl
    · exact passes_bindingName.bind fun name => passes_eatComma.bind fun more =>
        .ite (ih.bind fun names => .pure (name :: names)) (.pure [name])

/-- Parameters are in parentheses and hold no brackets. -/
theorem parameters_eq_ok {state after : State} {names : List Identifier}
    (ready : state.cursor.Ready) (run : parameters state = .ok names after) :
    state.cursor.peek.isPunct "(" = true ∧
      ∃ close, state.cursor.index < close ∧ after.cursor.index = close + 1 ∧
        (state.cursor.tokenAt close).isPunct ")" = true ∧
        ∀ place, state.cursor.index < place → place < close →
          (state.cursor.tokenAt place).Flat := by
  obtain ⟨opener, opened, openRun, rest⟩ := Outcome.bind_eq_ok_iff.mp run
  obtain ⟨opens, rfl⟩ := expectPunct_eq_ok openRun
  obtain ⟨bound, counted, ⟨⟩, itemsRun⟩ := Outcome.bind_eq_ok_iff.mp rest
  obtain ⟨items, listed, listRun, closeRun⟩ := Outcome.bind_eq_ok_iff.mp itemsRun
  obtain ⟨closer, closed, closerRun, ⟨⟩⟩ := Outcome.bind_eq_ok_iff.mp closeRun
  obtain ⟨closes, rfl⟩ := expectPunct_eq_ok closerRun
  have forward := ready.forward_advance
  have readyToo := forward.ready ready
  obtain ⟨forwardToo, flat⟩ := passes_commaItems _ readyToo listRun
  have behind := Cursor.advance_index_of_lt (ready.lt_of_isPunct opens)
  have last := Cursor.advance_index_of_lt ((forwardToo.ready readyToo).lt_of_isPunct closes)
  have further := forwardToo.index
  simp only [behind] at further flat
  refine ⟨opens, listed.cursor.index, further, last, ?_, ?_⟩
  · rw [← forward.tokenAt, ← forwardToo.tokenAt]
    exact closes
  · intro place after before
    rw [← forward.tokenAt]
    exact flat place after before

theorem Cursor.drop_eq_cons {place : Nat} (inside : place < cursor.tokens.size) :
    cursor.tokens.toList.drop place =
      cursor.tokenAt place :: cursor.tokens.toList.drop (place + 1) := by
  have within : place < cursor.tokens.toList.length := by
    rw [Array.length_toList]
    exact inside
  have found : cursor.tokens[place]? = some cursor.tokens[place] := Array.getElem?_eq_getElem _
  rw [List.drop_eq_getElem_cons within, Cursor.tokenAt, found, Array.getElem_toList]
  rfl

/-- Tokens without brackets between parentheses are closed by the second one. -/
theorem Cursor.closeIndex?_of_flat {start close : Nat} (inside : close < cursor.tokens.size)
    (later : start < close) (opens : (cursor.tokenAt start).isPunct "(" = true)
    (closes : (cursor.tokenAt close).isPunct ")" = true)
    (flat : ∀ place, start < place → place < close → (cursor.tokenAt place).Flat) :
    cursor.closeIndex? start = some close := by
  obtain ⟨length, isLength⟩ := Nat.exists_eq_add_of_lt later
  let run := (cursor.tokens.toList.drop (start + 1)).take length
  have split : cursor.tokens.toList.drop (start + 1) =
      run ++ cursor.tokenAt close :: cursor.tokens.toList.drop (close + 1) := by
    have behind : cursor.tokens.toList.drop close =
        (cursor.tokens.toList.drop (start + 1)).drop length := by
      rw [List.drop_drop, isLength, Nat.add_right_comm]
    rw [← Cursor.drop_eq_cons inside, behind]
    exact (List.take_append_drop length _).symm
  have allFlat : ∀ token ∈ run, token.Flat := by
    intro token within
    obtain ⟨place, lt, rfl⟩ := List.mem_iff_getElem.mp within
    have before : place < length := by
      rw [List.length_take] at lt
      omega
    have there : cursor.tokens[start + 1 + place]? = some run[place] := by
      rw [List.getElem_take, List.getElem_drop, Array.getElem_toList]
      exact Array.getElem?_eq_getElem _
    have isFlat := flat (start + 1 + place) (by omega) (by omega)
    rw [Cursor.tokenAt, there] at isFlat
    exact isFlat
  have found := Balanced.closeOffsetWithin?_flat allFlat opens closes
    (cursor.tokens.toList.drop (close + 1))
  have taken : run.length = length := by
    rw [List.length_take, List.length_drop, Array.length_toList]
    omega
  rw [Cursor.closeIndex?, Cursor.drop_eq_cons (Nat.lt_trans later inside), split, found, taken,
    isLength]
  rfl

/-! ## Recognizing arrow functions -/

theorem arrowHead?_eq_name_iff :
    arrowHead? cursor = some .name ↔
      cursor.peek.isName = true ∧ arrowAt cursor (cursor.index + 1) = true := by
  unfold arrowHead?
  split
  · rename_i named
    simp [Bool.and_eq_true_iff.mp named]
  · rename_i unnamed
    rw [Bool.and_eq_true] at unnamed
    simp only [unnamed, iff_false]
    split
    · split
      · split <;> simp
      · simp
    · simp

theorem arrowHead?_eq_parenthesized_iff :
    arrowHead? cursor = some .parenthesized ↔
      cursor.peek.isPunct "(" = true ∧ ∃ close, cursor.closeIndex? cursor.index = some close ∧
        arrowAt cursor (close + 1) = true := by
  unfold arrowHead?
  by_cases opens : cursor.peek.isPunct "(" = true
  · have unnamed : cursor.peek.isName = false := by
      simp only [Token.isPunct, Bool.and_eq_true, beq_iff_eq] at opens
      rw [Token.isName, opens.1]
      rfl
    rw [unnamed, Bool.false_and, if_neg Bool.false_ne_true, if_pos opens]
    cases cursor.closeIndex? cursor.index with
    | none => simp
    | some close => by_cases isArrow : arrowAt cursor (close + 1) = true <;> simp [opens, isArrow]
  · rw [if_neg opens]
    split <;> simp [opens]

namespace Longer

variable {one two after : State} {place : Nat} {names : List Identifier}
variable (longer : Longer c one two)
include longer

theorem arrowAt_of_lt (inside : place < c.limit) :
    arrowAt two.cursor place = arrowAt one.cursor place := by
  rw [arrowAt, arrowAt, longer.tokenAt_of_lt inside]

/-- An arrow of the shorter source is also there in the longer one. -/
theorem arrowAt_of_arrowAt (isArrow : arrowAt one.cursor place = true) :
    arrowAt two.cursor place = true := by
  have inside : place < c.limit := by
    by_contra outside
    have isEnd := longer.isEnd_tokenAt (Nat.le_of_not_lt outside)
    rw [Token.isEnd_of_isPunct (Bool.and_eq_true_iff.mp isArrow).1] at isEnd
    cases isEnd
  rw [longer.arrowAt_of_lt inside]
  exact isArrow

theorem closeIndex? {start close : Nat} (inside : start ≤ c.limit)
    (found : one.cursor.closeIndex? start = some close) :
    two.cursor.closeIndex? start = some close := by
  obtain ⟨offset, reached, rfl⟩ := Option.map_eq_some_iff.mp found
  have extended := Balanced.closeOffsetWithin?_append reached (c.next :: c.rest)
  have le : start ≤ one.cursor.tokens.toList.length := by
    rw [Array.length_toList, longer.size]
    exact inside
  rw [Cursor.closeIndex?, longer.tokens, List.drop_append_of_le_length le, extended]
  rfl

/-- The longer source has the arrow functions of the shorter one. -/
theorem arrowHead? (inside : one.cursor.index < c.limit) {head : ArrowHead}
    (isArrow : arrowHead? one.cursor = some head) : arrowHead? two.cursor = some head := by
  cases head with
  | name =>
    rw [arrowHead?_eq_name_iff, longer.peek_of_lt inside, longer.index]
    exact (arrowHead?_eq_name_iff.mp isArrow).imp_right longer.arrowAt_of_arrowAt
  | parenthesized =>
    obtain ⟨opens, close, closed, behind⟩ := arrowHead?_eq_parenthesized_iff.mp isArrow
    rw [arrowHead?_eq_parenthesized_iff, longer.peek_of_lt inside, longer.index]
    exact ⟨opens, close, longer.closeIndex? (Nat.le_of_lt inside) closed,
      longer.arrowAt_of_arrowAt behind⟩

/-- Parameters within the shorter source are closed there by the same parenthesis. -/
theorem closeIndex?_of_parameters (run : parameters two = .ok names after)
    (within : after.cursor.index < c.limit) :
    ∃ close, after.cursor.index = close + 1 ∧
      one.cursor.closeIndex? one.cursor.index = some close := by
  obtain ⟨opens, close, later, reached, closes, flat⟩ := parameters_eq_ok longer.readyToo run
  have inside : close < c.limit := by omega
  rw [longer.index] at later flat
  have known : ∀ place, place ≤ close → two.cursor.tokenAt place = one.cursor.tokenAt place :=
    fun place le => longer.tokenAt_of_lt (Nat.lt_of_le_of_lt le inside)
  refine ⟨close, reached, Cursor.closeIndex?_of_flat (longer.size ▸ inside) later ?_ ?_ ?_⟩
  · rw [← known _ (Nat.le_of_lt later), ← longer.index]
    exact opens
  · rw [← known close (Nat.le_refl _)]
    exact closes
  · intro place behind before
    rw [← known place (Nat.le_of_lt before)]
    exact flat place behind before

/-- An arrow function of the longer source is one of the shorter source, if its arrow is there. -/
theorem arrowHead?_of_parameters (inside : one.cursor.index < c.limit) {head : ArrowHead}
    (isArrow : Grammar.arrowHead? two.cursor = some head)
    (run : arrowParameters head two = .ok names after) (within : after.cursor.index < c.limit) :
    Grammar.arrowHead? one.cursor = some head := by
  cases head with
  | name =>
    have reads : Concur c 0 0 1 (arrowParameters .name) (arrowParameters .name) :=
      concur_arrowParameters .name
    have further := (reads.gains longer.holds run).2
    rw [arrowHead?_eq_name_iff, longer.peek_of_lt inside, longer.index,
      longer.arrowAt_of_lt (by rw [← longer.index]; omega)] at isArrow
    exact arrowHead?_eq_name_iff.mpr isArrow
  | parenthesized =>
    obtain ⟨close, reached, closed⟩ := longer.closeIndex?_of_parameters run within
    rw [arrowHead?_eq_parenthesized_iff, longer.peek_of_lt inside, longer.index,
      longer.closeIndex? (Nat.le_of_lt inside) closed] at isArrow
    obtain ⟨opens, _, ⟨⟩, behind⟩ := isArrow
    rw [longer.arrowAt_of_lt (reached ▸ within)] at behind
    exact arrowHead?_eq_parenthesized_iff.mpr ⟨opens, close, closed, behind⟩

end Longer

section Assignments

variable (rules : RulesConcur c (low + 1) lower lowerToo)

include rules

theorem concur_assignment : Concur c low 0 1 (assignment lower) (assignment lowerToo) := by
  have arrow (head : ArrowHead) (start : Span) :
      Concur c low 0 1 (inScope (arrowFunction lower head start))
        (inScope (arrowFunction lowerToo head start)) :=
    (concur_arrowFunction rules head start).inScope
  have plain (start : Span) :
      Concur c low 0 1 (assignmentFrom lower start) (assignmentFrom lowerToo start) :=
    concur_assignmentFrom rules start
  apply Concur.of_gains
  · intro state after value holds run
    unfold assignment at run
    split at run
    · exact (arrow _ _).gains holds run
    · exact (plain _).gains holds run
  · intro state shares begun
    unfold assignment
    split
    · exact (arrow _ _).same shares begun
    · exact (plain _).same shares begun
  · intro one two longer begun inside value after run
    unfold assignment at run ⊢
    rw [longer.peek_of_lt inside] at run
    cases found : arrowHead? one.cursor with
    | some head =>
      rw [longer.arrowHead? inside found] at run
      exact (arrow _ _).agree longer begun run
    | none =>
      cases foundToo : arrowHead? two.cursor with
      | none =>
        rw [foundToo] at run
        exact (plain _).agree longer begun run
      | some head =>
        rw [foundToo] at run
        obtain ⟨inner, innerRun, rfl⟩ := followedBy_eq_ok run
        obtain ⟨names, middle, paramsRun, laterRun⟩ := Outcome.bind_eq_ok_iff.mp innerRun
        have entered := longer.change Context.enterScope id
        -- The arrow is not there in the shorter source, so the parameters end with it.
        have reached : c.limit ≤ middle.cursor.index := by
          by_contra within
          have isArrow := entered.arrowHead?_of_parameters inside foundToo paramsRun
            (Nat.lt_of_not_le within)
          rw [found] at isArrow
          cases isArrow
        have params : Concur c low 0 1 (arrowParameters head) (arrowParameters head) :=
          concur_arrowParameters head
        have forward := (params.gains entered.holds paramsRun).1
        have further := ((concur_arrowRest rules names _).gains
          (entered.holds.forward forward) laterRun).2
        right
        show c.limit < inner.cursor.index + 0
        omega

theorem concur_expression : Concur c low 0 1 (expression lower) (expression lowerToo) :=
  concur_peek_eager (Nat.succ_pos _) fun _ => (concur_assignment rules).bind fun first =>
    concur_eatPunct ","
      ((concurBounded_commaSequence rules.later.assignment).andThen
        (fun _ => concur_finish) (Nat.zero_le _))
      (.pure first)

end Assignments

end Grammar

end MacroScript
