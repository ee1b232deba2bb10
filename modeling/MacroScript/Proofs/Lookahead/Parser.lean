import MacroScript.Proofs.Balanced
import MacroScript.Proofs.Lookahead.Agreement

/-!
# Elementary parsers and what follows

The parsers from which rules are put together agree on a source and on a longer one.  There
is one lemma for each way in which parsers are put together, so that the proof for a rule of
the grammar has the shape of the rule.
-/

namespace MacroScript.Grammar

variable {α β : Type} {c : Continuation} {low owed least : Nat} {first second parser : Parser α}
  {nextFirst nextSecond : α → Parser β} {one two state : State} {test : Token → Bool}
  {change : State → State} {value : α} {rest restToo : Parser (List α)}

/-! ## Looking at tokens -/

/-- Parsers that find out something and stay where they are. -/
theorem concur_look (find : State → α)
    (same : ∀ {one two : State}, Longer c one two → low ≤ one.cursor.index →
      find two = find one) :
    Concur c low owed 0 (fun state => .ok (find state) state)
      (fun state => .ok (find state) state) where
  gains := Gains.look find
  agree {one two} longer begun := by
    rintro _ _ ⟨⟩
    exact .inl ⟨one, by rw [same longer begun], longer⟩
  same _ _ := rfl

theorem concur_index : Concur c low owed 0 index index :=
  concur_look (fun state => state.cursor.index) fun longer _ => longer.index

theorem concur_inAllowed : Concur c low owed 0 inAllowed inAllowed :=
  concur_look (fun state => state.cursor.allowIn) fun longer _ => longer.allowIn

/-- Once a token was read, both know the same last token. -/
theorem Longer.previousSpan (longer : Longer c one two) (begun : 0 < one.cursor.index) :
    two.cursor.previousSpan = one.cursor.previousSpan := by
  obtain ⟨former, isFormer⟩ := Nat.exists_eq_add_of_lt begun
  rw [Nat.zero_add] at isFormer
  have inside : former < one.cursor.tokens.size := by
    have last := longer.ready.inside
    omega
  have known : one.cursor.tokens[former]? = some one.cursor.tokens[former] :=
    Array.getElem?_eq_getElem _
  have found : two.cursor.tokens[former]? = one.cursor.tokens[former]? := by
    rw [← Array.getElem?_toList, ← Array.getElem?_toList, longer.tokens]
    exact List.getElem?_append_left (by rwa [Array.length_toList])
  simp only [Cursor.previousSpan, Cursor.previous?, longer.index, isFormer, found, known]
  rfl

theorem concur_finishSpan (start : Span) :
    Concur c (low + 1) owed 0 (finishSpan start) (finishSpan start) :=
  concur_look (fun state => start.through state.cursor.previousSpan) fun longer begun =>
    congrArg start.through (longer.previousSpan (Nat.lt_of_lt_of_le (Nat.succ_pos _) begun))

/-- Measure what was read, and come to a value. -/
theorem concur_finish {start : Span} {value : Span → α} :
    Concur c (low + 1) owed 0 (do return value (← finishSpan start))
      (do return value (← finishSpan start)) :=
  (concur_finishSpan start).andThen fun span => .pure (value span)

/-- Look at the next token and decide by it.  At the end of the shorter source that token is an
end of input in one run and the next token in the other. -/
theorem concur_peek {nextFirst nextSecond : Token → Parser β}
    (each : ∀ token, Concur c low owed least (nextFirst token) (nextSecond token))
    (behind : ∀ {token other : Token} {one two : State}, token.isEnd = true → Longer c one two →
      one.cursor.index = c.limit → low ≤ one.cursor.index →
        ConcurAt c owed (nextFirst token one) (nextSecond other two)) :
    Concur c low owed least (peek >>= nextFirst) (peek >>= nextSecond) where
  gains _ _ _ holds run := (each _).gains holds run
  agree {one two} longer begun := by
    change ConcurAt c owed (nextFirst one.cursor.peek one) (nextSecond two.cursor.peek two)
    rcases Nat.lt_or_eq_of_le longer.index_le with inside | atLimit
    · rw [longer.peek_of_lt inside]
      exact (each _).agree longer begun
    · exact behind (longer.isEnd_peek atLimit) longer atLimit begun
  same shares begun := (each _).same shares begun

/-- Look at the next token, which is read later. -/
theorem concur_peek_eager {nextFirst nextSecond : Token → Parser β} (paid : 0 < least + owed)
    (each : ∀ token, Concur c low owed least (nextFirst token) (nextSecond token)) :
    Concur c low owed least (peek >>= nextFirst) (peek >>= nextSecond) :=
  concur_peek each fun _ longer atLimit _ => .of_past longer (each _).gains (by omega)

theorem fails_of_isEnd {token : Token}
    (notEnd : ∀ {token : Token}, test token = true → token.isEnd = false)
    (isEnd : token.isEnd = true) : test token = false := by
  rw [← Bool.not_eq_true]
  intro passes
  rw [notEnd passes] at isEnd
  cases isEnd

/-- Decide whether the next token passes a test that no end of input passes.  If it does, it is
read later. -/
theorem concur_at {most : Nat} {elseFirst elseSecond : Parser α}
    (notEnd : ∀ {token : Token}, test token = true → token.isEnd = false)
    (yes : Concur c low owed most first second) (le : least ≤ most) (paid : 0 < most + owed)
    (no : Concur c low owed least elseFirst elseSecond) :
    Concur c low owed least
      (do if ← (fun state => .ok (test state.cursor.peek) state) then first else elseFirst)
      (do if ← (fun state => .ok (test state.cursor.peek) state) then second else elseSecond) := by
  change Concur c low owed least (do if test (← peek) then first else elseFirst)
    (do if test (← peek) then second else elseSecond)
  apply concur_peek
  · exact fun token => .ite (yes.mono le) no
  · intro token other one two isEnd longer atLimit begun
    rw [fails_of_isEnd notEnd isEnd, if_neg Bool.false_ne_true]
    cases test other with
    | true => exact .of_past longer yes.gains (by omega)
    | false => exact no.agree longer begun

/-- Decide by the next token, which is read later, and by the one behind it.  At the last token of
the shorter source the longer one may find something there. -/
theorem concur_peekNext {other : Token → Bool}
    {first second elseFirst elseSecond : Token → Parser α}
    (notEnd : ∀ {token : Token}, other token = true → token.isEnd = false)
    (yes : ∀ token, Concur c low owed 1 (first token) (second token))
    (no : ∀ token, Concur c low owed 1 (elseFirst token) (elseSecond token))
    (behind : ∀ (token : Token) {one two : State}, Longer c one two →
      one.cursor.index + 1 = c.limit → low ≤ one.cursor.index →
        ConcurAt c owed (elseFirst token one) (second token two)) :
    Concur c low owed 1
      (do
        let token ← peek
        let following ← peekAt 1
        if test token && other following then first token else elseFirst token)
      (do
        let token ← peek
        let following ← peekAt 1
        if test token && other following then second token else elseSecond token) := by
  have each (token following : Token) : Concur c low owed 1
      (if test token && other following then first token else elseFirst token)
      (if test token && other following then second token else elseSecond token) :=
    .ite (yes token) (no token)
  apply Concur.of_gains
  · exact fun _ _ _ holds run => (each _ _).gains holds run
  · exact fun shares begun => (each _ _).same shares begun
  · intro one two longer begun near
    change ConcurAt c owed
      ((if test one.cursor.peek && other (one.cursor.peekAt 1) then first one.cursor.peek
        else elseFirst one.cursor.peek) one)
      ((if test two.cursor.peek && other (two.cursor.peekAt 1) then second two.cursor.peek
        else elseSecond two.cursor.peek) two)
    rw [longer.peek_of_lt (by omega)]
    rcases Nat.lt_or_ge (one.cursor.index + 1) c.limit with inside | outside
    · rw [longer.peekAt_of_lt inside]
      exact (each _ _).agree longer begun
    · have fails : other (one.cursor.peekAt 1) = false :=
        fails_of_isEnd notEnd (longer.isEnd_tokenAt outside)
      rw [fails, Bool.and_false, if_neg Bool.false_ne_true]
      cases test one.cursor.peek && other (two.cursor.peekAt 1) with
      | false => exact (no _).agree longer begun
      | true => exact behind _ longer (by omega) begun

section At

variable {most : Nat} {elseFirst elseSecond : Parser α} (text : String)

theorem concur_atPunct (yes : Concur c low owed most first second) (le : least ≤ most)
    (paid : 0 < most + owed) (no : Concur c low owed least elseFirst elseSecond) :
    Concur c low owed least (do if ← atPunct text then first else elseFirst)
      (do if ← atPunct text then second else elseSecond) :=
  concur_at Token.isEnd_of_isPunct yes le paid no

theorem concur_atReserved (yes : Concur c low owed most first second) (le : least ≤ most)
    (paid : 0 < most + owed) (no : Concur c low owed least elseFirst elseSecond) :
    Concur c low owed least (do if ← atReserved text then first else elseFirst)
      (do if ← atReserved text then second else elseSecond) :=
  concur_at Token.isEnd_of_isReserved yes le paid no

end At

/-! ## Reading tokens -/

theorem concur_advance : Concur c low owed 1 advance advance where
  gains := by
    rintro state after value holds ⟨⟩
    refine ⟨holds.ready.forward_advance, ?_⟩
    rcases Nat.lt_or_ge state.cursor.index state.cursor.tokens.size with inside | atEnd
    · exact .inl (Nat.le_of_eq (Cursor.advance_index_of_lt inside).symm)
    · have further := holds.ready.forward_advance.index
      have size := holds.size
      rw [Continuation.size] at size
      refine .inr ?_
      show c.limit < state.cursor.advance.index
      omega
  agree {one two} longer _ := by
    rintro _ _ ⟨⟩
    have moved : two.cursor.advance = { two.cursor with index := two.cursor.index + 1 } :=
      if_pos longer.index_lt_size
    have index := longer.index
    rw [moved]
    rcases Nat.lt_or_eq_of_le longer.index_le with inside | atLimit
    · have movedToo : one.cursor.advance = { one.cursor with index := one.cursor.index + 1 } :=
        if_pos (longer.size ▸ inside)
      refine .inl ⟨_, ?_, longer.succ inside⟩
      simp only [advance, movedToo, longer.peek_of_lt inside]
    · refine .inr ?_
      show c.limit < two.cursor.index + 1 + owed
      omega
  same _ _ := rfl

/-- Take the next token, if it passes a test. -/
def eat (test : Token → Bool) : Parser Bool := fun state =>
  if test state.cursor.peek then
    .ok true { state with cursor := { state.cursor with index := state.cursor.index + 1 } }
  else
    .ok false state

theorem eatPunct_eq (text : String) : eatPunct text = eat (·.isPunct text) := by
  funext state
  by_cases isNext : state.cursor.peek.isPunct text = true
  · simp [eatPunct, Cursor.eatPunct, Cursor.atPunct, eat, isNext]
  · simp [eatPunct, Cursor.eatPunct, Cursor.atPunct, eat, isNext]

theorem eatReserved_eq (text : String) : eatReserved text = eat (·.isReserved text) := by
  funext state
  by_cases isNext : state.cursor.peek.isReserved text = true
  · simp [eatReserved, Cursor.eatReserved, Cursor.atReserved, eat, isNext]
  · simp [eatReserved, Cursor.eatReserved, Cursor.atReserved, eat, isNext]

section Eating

variable {next nextToo : Bool → Parser β}

theorem eat_bind_of_pass (passes : test state.cursor.peek = true) :
    (eat test >>= next) state = next true
      { state with cursor := { state.cursor with index := state.cursor.index + 1 } } := by
  simp only [bind, EStateM.bind, eat, passes, if_true]

theorem eat_bind_of_fail (fails : test state.cursor.peek = false) :
    (eat test >>= next) state = next false state := by
  simp only [bind, EStateM.bind, eat, fails, Bool.false_eq_true, if_false]

/-- Go on, with the next token behind if it passes a test that no end of input passes. -/
theorem concur_eat (notEnd : ∀ {token : Token}, test token = true → token.isEnd = false)
    (yes : Concur c (low + 1) owed least (next true) (nextToo true))
    (no : Concur c low owed least (next false) (nextToo false)) :
    Concur c low owed least (eat test >>= next) (eat test >>= nextToo) where
  gains state after value holds run := by
    cases passes : test state.cursor.peek with
    | false =>
      rw [eat_bind_of_fail passes] at run
      exact no.gains holds run
    | true =>
      rw [eat_bind_of_pass passes] at run
      have forward := Cursor.forward_succ (holds.ready.lt_of_not_end (notEnd passes))
      obtain ⟨forwardToo, further⟩ := yes.gains (holds.forward forward) run
      exact ⟨forward.trans forwardToo, further.imp_left fun gained =>
        Nat.le_trans (Nat.add_le_add_right (Nat.le_succ _) _) gained⟩
  agree {one two} longer begun := by
    rcases Nat.lt_or_eq_of_le longer.index_le with inside | atLimit
    · have same := longer.peek_of_lt inside
      cases passes : test one.cursor.peek with
      | false =>
        rw [eat_bind_of_fail passes, eat_bind_of_fail (same ▸ passes)]
        exact no.agree longer begun
      | true =>
        rw [eat_bind_of_pass passes, eat_bind_of_pass (same ▸ passes)]
        exact yes.agree (longer.succ inside) (Nat.succ_le_succ begun)
    · rw [eat_bind_of_fail (fails_of_isEnd notEnd (longer.isEnd_peek atLimit))]
      cases passes : test two.cursor.peek with
      | false =>
        rw [eat_bind_of_fail passes]
        exact no.agree longer begun
      | true =>
        rw [eat_bind_of_pass passes]
        intro value after run
        have forward := Cursor.forward_succ longer.index_lt_size
        have further := (yes.gains (longer.holds.forward forward) run).1.index
        have index := longer.index
        simp only at further
        exact .inr (by omega)
  same {state} shares begun := by
    cases passes : test state.cursor.peek with
    | false =>
      rw [eat_bind_of_fail passes, eat_bind_of_fail passes]
      exact no.same shares begun
    | true =>
      rw [eat_bind_of_pass passes, eat_bind_of_pass passes]
      have inside := shares.holds.ready.lt_of_not_end (notEnd passes)
      apply yes.same (shares.forward (Cursor.forward_succ inside))
      exact begun.imp Nat.succ_le_succ Nat.lt_succ_of_lt

end Eating

section Eaten

variable {elseFirst elseSecond : Parser α} (text : String)

theorem concur_eatPunct (yes : Concur c (low + 1) owed least first second)
    (no : Concur c low owed least elseFirst elseSecond) :
    Concur c low owed least (do if ← eatPunct text then first else elseFirst)
      (do if ← eatPunct text then second else elseSecond) := by
  rw [eatPunct_eq]
  exact concur_eat Token.isEnd_of_isPunct yes no

theorem concur_eatReserved (yes : Concur c (low + 1) owed least first second)
    (no : Concur c low owed least elseFirst elseSecond) :
    Concur c low owed least (do if ← eatReserved text then first else elseFirst)
      (do if ← eatReserved text then second else elseSecond) := by
  rw [eatReserved_eq]
  exact concur_eat Token.isEnd_of_isReserved yes no

/-- Take a punctuator, if it is next, and go on in any case. -/
theorem concur_skipPunct (agree : Concur c low owed least first second) :
    Concur c low owed least (do let _ ← eatPunct text; first)
      (do let _ ← eatPunct text; second) := by
  rw [eatPunct_eq]
  exact concur_eat Token.isEnd_of_isPunct agree.later agree

end Eaten

/-- Parsers that go on when the next token is of some kind. -/
theorem concur_expect (test : Token → Bool) {wrong : Parser α} (fails : Fails wrong)
    (reads : Concur c low 0 1 first second) :
    Concur c low 0 1 (do if test (← peek) then first else wrong)
      (do if test (← peek) then second else wrong) :=
  concur_peek_eager (Nat.succ_pos _) fun _ => .ite reads (.of_fails fails)

theorem concur_expectPunct (text : String) :
    Concur c low 0 1 (expectPunct text) (expectPunct text) :=
  concur_expect (·.isPunct text) (.expected text) concur_advance

theorem concur_expectReserved (text : String) :
    Concur c low 0 1 (expectReserved text) (expectReserved text) :=
  concur_expect (·.isReserved text) (.expected text) concur_advance

theorem concur_endStatement : Concur c low 0 0 endStatement endStatement := by
  apply concur_eatPunct ";" (.pure ())
  apply concur_peek
  · exact fun next => .ite (.pure ()) (.of_fails .unexpected)
  · intro next other one two isEnd longer _ _
    simp only [isEnd, Bool.or_true, Bool.true_or, if_true]
    cases (other.isPunct "\x7d" || other.isEnd || other.newlineBefore) with
    | true => exact .pure longer ()
    | false => exact .of_fails .unexpected

theorem concur_finishStatement {start : Span} {value : Span → α} :
    Concur c (low + 1) 0 0 (do endStatement; return value (← finishSpan start))
      (do endStatement; return value (← finishSpan start)) :=
  concur_endStatement.andThen fun _ => concur_finish

/-! ## Local changes of the state -/

theorem followedBy_eq_ok {after : State} (run : followedBy parser change state = .ok value after) :
    ∃ inner, parser state = .ok value inner ∧ after = change inner := by
  unfold followedBy at run
  split at run
  · rename_i inner innerRun
    cases run
    exact ⟨inner, innerRun, rfl⟩
  · cases run

theorem followedBy_of_ok {inner : State} (run : parser state = .ok value inner) :
    followedBy parser change state = .ok value (change inner) := by
  simp only [followedBy, run]

/-- Set whether `in` is an operator once a parser is done. -/
abbrev resetting (allowed : Bool) (parser : Parser α) : Parser α :=
  followedBy parser fun state => { state with cursor := { state.cursor with allowIn := allowed } }

theorem Context.exitScope_hygiene_of_plain {context : Context} (plain : context.hygiene = none) :
    context.exitScope.hygiene = none := by
  unfold Context.exitScope
  split <;> exact plain

theorem Longer.setAllowIn (longer : Longer c one two) (allowed : Bool) :
    Longer c { one with cursor := { one.cursor with allowIn := allowed } }
      { two with cursor := { two.cursor with allowIn := allowed } } := by
  apply longer.move
  · exact ⟨rfl, rfl, Nat.le_refl _, longer.ready.inside⟩
  · exact ⟨rfl, rfl, Nat.le_refl _, longer.readyToo.inside⟩
  · exact longer.index
  · rfl

theorem Gains.inScope (gains : Gains c least parser) : Gains c least (inScope parser) := by
  intro state after value holds run
  obtain ⟨inner, innerRun, rfl⟩ := followedBy_eq_ok run
  let entered : State := { state with context := state.context.map Context.enterScope }
  have opened : c.Holds entered := ⟨holds.ready, holds.size⟩
  have gained := gains opened innerRun
  exact gained

theorem concur_setAllowIn (allowed : Bool) :
    Concur c low owed 0 (setAllowIn allowed) (setAllowIn allowed) where
  gains := by
    rintro state after value holds ⟨⟩
    exact ⟨⟨rfl, rfl, Nat.le_refl _, holds.ready.inside⟩, .inl (Nat.le_refl _)⟩
  agree longer _ := by
    rintro _ _ ⟨⟩
    exact .inl ⟨_, rfl, longer.setAllowIn allowed⟩
  same _ _ := rfl

namespace Concur

variable (agree : Concur c low owed least first second)
include agree

theorem inScope :
    Concur c low owed least (inScope first) (inScope second) where
  gains := agree.gains.inScope
  agree longer begun := by
    intro value after run
    obtain ⟨inner, innerRun, rfl⟩ := followedBy_eq_ok run
    rcases agree.agree (longer.change Context.enterScope id) begun innerRun with
      ⟨shorter, shorterRun, reached⟩ | past
    · exact .inl ⟨_, followedBy_of_ok shorterRun,
        reached.change _ Context.exitScope_hygiene_of_plain⟩
    · exact .inr past
  same {state} shares begun := by
    let entered : State := { state with context := state.context.map Context.enterScope }
    have opened : c.Shares entered :=
      { shares with holds := ⟨shares.holds.ready, shares.holds.size⟩ }
    simp only [Grammar.inScope, followedBy]
    rw [agree.same opened begun]

theorem resetting (allowed : Bool) :
    Concur c low owed least (resetting allowed first) (resetting allowed second) where
  gains state after value holds run := by
    obtain ⟨inner, innerRun, rfl⟩ := followedBy_eq_ok run
    obtain ⟨forward, further⟩ := agree.gains holds innerRun
    exact ⟨⟨forward.tokens, forward.finish, forward.index, forward.inside⟩, further⟩
  agree longer begun := by
    intro value after run
    obtain ⟨inner, innerRun, rfl⟩ := followedBy_eq_ok run
    rcases agree.agree longer begun innerRun with ⟨shorter, shorterRun, reached⟩ | past
    · exact .inl ⟨_, followedBy_of_ok shorterRun, reached.setAllowIn allowed⟩
    · exact .inr past
  same shares begun := by simp only [followedBy, agree.same shares begun]

theorem allowingIn : Concur c low owed least (allowingIn first) (allowingIn second) :=
  concur_inAllowed.andThen fun former =>
    (concur_setAllowIn true).andThen fun _ => agree.resetting former

theorem forbiddingIn : Concur c low owed least (forbiddingIn first) (forbiddingIn second) :=
  (concur_setAllowIn false).andThen fun _ => agree.resetting true

end Concur

/-! ## Rounds -/

/-- The place from which on both bounds are enough.  On one source they are the same. -/
def Continuation.enough (c : Continuation) (low bound boundToo : Nat) : Nat :=
  if c.alike then low else max low (max (c.limit + 1 - bound) (c.size + 1 - boundToo))

/-- Rounds that agree where neither parser can come to its bound, or where both come to it. -/
def ConcurBounded (c : Continuation) (low owed : Nat) (rounds roundsToo : Nat → Parser α) : Prop :=
  ∀ bound boundToo, (c.alike = true → bound = boundToo) →
    Concur c (c.enough low bound boundToo) owed 0 (rounds bound) (roundsToo boundToo)

/-- It is enough to look at one round, when every round reads a token before the next. -/
theorem concurBounded_of_round {ι : Type} (rounds roundsToo : Nat → ι → Parser α)
    (zero : ∀ start, Concur c low owed 0 (rounds 0 start) (roundsToo 0 start))
    (round : ∀ {bound boundToo high : Nat}, low ≤ high →
      (∀ next, Concur c (high + 1) owed 0 (rounds bound next) (roundsToo boundToo next)) →
        ∀ start, Concur c high owed 0 (rounds (bound + 1) start) (roundsToo (boundToo + 1) start))
    (start : ι) : ConcurBounded c low owed (rounds · start) (roundsToo · start) := by
  intro bound boundToo equal
  have above (bound boundToo : Nat) : low ≤ c.enough low bound boundToo := by
    unfold Continuation.enough
    split
    · exact Nat.le_refl _
    · exact Nat.le_max_left _ _
  have outside {bound boundToo : Nat} (none : bound = 0 ∨ boundToo = 0) {one two : State}
      (longer : Longer c one two) : ¬ c.enough low bound boundToo ≤ one.cursor.index := by
    have inside := longer.index_le
    simp only [Continuation.enough, Continuation.size, longer.differs, Bool.false_eq_true, if_false]
    omega
  induction boundToo generalizing bound start with
  | zero =>
    refine ⟨(zero start).gains, fun longer begun => (outside (.inr rfl) longer begun).elim, ?_⟩
    intro state shares begun
    obtain rfl := equal shares.alike
    exact ((zero start).from_le (above 0 0)).same shares begun
  | succ boundToo ih =>
    have step (bound : Nat) (equal : c.alike = true → bound = boundToo) :
        Concur c (c.enough low (bound + 1) (boundToo + 1)) owed 0 (rounds (bound + 1) start)
          (roundsToo (boundToo + 1) start) := by
      apply round (above _ _)
      intro next
      apply (ih next bound equal).from_le
      unfold Continuation.enough
      split <;> omega
    cases bound with
    | zero =>
      have never (alike : c.alike = true) : False := by
        have := equal alike
        omega
      exact ⟨(step 0 fun alike => (never alike).elim).gains,
        fun longer begun => (outside (.inl rfl) longer begun).elim,
        fun shares => (never shares.alike).elim⟩
    | succ bound => exact step bound fun alike => Nat.succ.inj (equal alike)

/-- A parser that goes round at most so often as there are tokens. -/
abbrev bounded (rounds : Nat → Parser α) : Parser α := do
  rounds ((← remaining) + 1)

namespace ConcurBounded

variable {rounds roundsToo : Nat → Parser α}

theorem bounded (agree : ConcurBounded c low owed rounds roundsToo) :
    Concur c low owed 0 (bounded rounds) (bounded roundsToo) where
  gains _ _ _ holds run := (agree _ _ fun _ => rfl).gains holds run
  agree {one two} longer begun := by
    apply (agree _ _ fun alike => nomatch longer.differs.symm.trans alike).agree longer
    have inside := longer.index_le
    have index := longer.index
    simp only [Continuation.enough, Cursor.remaining, longer.size, longer.holds.size,
      Continuation.size, longer.differs, Bool.false_eq_true, if_false]
    omega
  same shares begun := by
    apply (agree _ _ fun _ => rfl).same shares
    rwa [Continuation.enough, if_pos shares.alike]

/-- Go on behind the rounds, and read or owe what they owe. -/
theorem andThen {early : Nat} (agree : ConcurBounded c low early rounds roundsToo)
    (later : ∀ value, Concur c low owed least (nextFirst value) (nextSecond value))
    (paid : early ≤ least + owed) :
    Concur c low owed least (do nextFirst (← rounds ((← remaining) + 1)))
      (do nextSecond (← roundsToo ((← remaining) + 1))) :=
  Nat.zero_add least ▸ agree.bounded.seq later paid

/-- Go on behind the rounds with something that reads the token which they owe. -/
theorem settle (agree : ConcurBounded c low 1 rounds roundsToo)
    (later : ∀ value, Concur c low owed (least + 1) (nextFirst value) (nextSecond value)) :
    Concur c low owed (least + 1) (do nextFirst (← rounds ((← remaining) + 1)))
      (do nextSecond (← roundsToo ((← remaining) + 1))) :=
  agree.andThen later (by omega)

theorem inScope (agree : ConcurBounded c low owed rounds roundsToo) :
    ConcurBounded c low owed (fun bound => inScope (rounds bound))
      (fun bound => inScope (roundsToo bound)) :=
  fun bound boundToo equal => (agree bound boundToo equal).inScope

end ConcurBounded

/-! ## Lists -/

/-- Put a value in front of those of the later rounds. -/
theorem Concur.cons (agree : Concur c low owed least rest restToo) (value : α) :
    Concur c low owed least (do return value :: (← rest)) (do return value :: (← restToo)) :=
  agree.seq (fun values => .pure (value :: values)) (Nat.le_add_left _ _)

/-- Items up to a token that is not read.  It is owed. -/
theorem concurBounded_itemsUntil (stop : Token → Bool) (item : Concur c low 0 1 first second) :
    ConcurBounded c low 1 (itemsUntil stop first) (itemsUntil stop second) := by
  refine concurBounded_of_round (fun bound (_ : Unit) => itemsUntil stop first bound)
    (fun bound _ => itemsUntil stop second bound) ?_ ?_ ()
  · exact fun _ => .pure []
  · intro bound boundToo high le next _
    refine concur_peek_eager (Nat.succ_pos _) fun token => .ite (.pure []) (.ite
      (.of_fails .unexpected) ?_)
    exact ((item.from_le le).bind fun value => (next ()).cons value).weaken

/-- Read more items behind one, if a comma follows. -/
theorem concur_moreItems (agree : Concur c (low + 1) owed 0 rest restToo) (value : α) :
    Concur c low owed 0 (do if ← eatPunct "," then return value :: (← rest) else return [value])
      (do if ← eatPunct "," then return value :: (← restToo) else return [value]) :=
  concur_eatPunct "," (agree.cons value) (.pure [value])

/-- Items up to a closing token that is not read.  It is owed, also by the last item. -/
theorem concurBounded_commaItems (closer : String) (item : Concur c low 1 1 first second) :
    ConcurBounded c low 1 (commaItems closer first) (commaItems closer second) := by
  refine concurBounded_of_round (fun bound (_ : Unit) => commaItems closer first bound)
    (fun bound _ => commaItems closer second bound) ?_ ?_ ()
  · exact fun _ => .pure []
  · intro bound boundToo high le next _
    refine concur_atPunct closer (.pure []) (Nat.le_refl _) (Nat.succ_pos _) ?_
    exact ((item.from_le le).seq (fun value => concur_moreItems (next ()).later value)
      (Nat.le_refl _)).weaken

theorem concurBounded_commaSequence (item : Concur c low 0 1 first second) :
    ConcurBounded c low 0 (commaSequence first) (commaSequence second) := by
  refine concurBounded_of_round (fun bound (_ : Unit) => commaSequence first bound)
    (fun bound _ => commaSequence second bound) ?_ ?_ ()
  · exact fun _ => .pure []
  · intro bound boundToo high le next _
    exact ((item.from_le le).bind fun value => concur_moreItems (next ()).later value).weaken

/-- A sequence has at least one item. -/
theorem concur_commaSequence (item : Concur c low 0 1 first second) :
    Concur c low 0 1 (bounded (commaSequence first)) (bounded (commaSequence second)) where
  gains state _ _ holds run := by
    have later := concurBounded_commaSequence item _ state.cursor.remaining fun _ => rfl
    exact (item.gains.bind fun value => (concur_moreItems later.later value).gains) holds run
  agree longer begun := (concurBounded_commaSequence item).bounded.agree longer begun
  same shares begun := (concurBounded_commaSequence item).bounded.same shares begun

end MacroScript.Grammar
