import MacroScript.Grammar.Statement
import MacroScript.Proofs.Outcome
import MacroScript.Proofs.Reading.MacroNode

/-!
# Parsers and what follows

A source is compared here with a longer one, which has the same tokens and then goes on.  What
a parser reads from the longer source, without going past the end of the shorter one, it also
reads from the shorter one.  There it sees an end of input instead of the next token.  If that
makes a difference, then because the grammar goes on with the next token, and the longer run
reads it.

So the statement about a parser says that, if the run on the longer source comes to a value,
the run on the shorter one comes to the same value at the same place, or the longer run has gone
past the end of the shorter source.  A parser that stops in front of a token which has to follow,
such as a closing bracket, owes that token: it gets past the end only with what is read next.

Rules have levels and loops have bounds, which are enough for a number of tokens.  Hence two
parsers are compared only from a place on from which the shorter one has enough.

Two parsers can also be compared on one source.  From a place on from which both have enough, or
when no token is left, they come to the same.
-/

namespace MacroScript.Grammar

variable {α β : Type} {before after state : State}

/-! ## A source and a longer one -/

/-- How the longer source goes on behind so many tokens. -/
structure Continuation where
  limit : Nat
  next : Token
  rest : List Token
  /-- Whether both parsers read the longer source, which then has one more token. -/
  alike : Bool

variable {c : Continuation}

/-- Number of tokens of the longer source. -/
def Continuation.size (c : Continuation) : Nat :=
  c.limit + (c.rest.length + 1)

/-- A state of a parser of the longer source. -/
structure Continuation.Holds (c : Continuation) (state : State) : Prop where
  ready : state.cursor.Ready
  size : state.cursor.tokens.size = c.size

theorem Continuation.Holds.forward (holds : c.Holds before)
    (forward : before.cursor.Forward after.cursor) : c.Holds after where
  ready := forward.ready holds.ready
  size := forward.tokens ▸ holds.size

/-- A state of two parsers of one source. -/
structure Continuation.Shares (c : Continuation) (state : State) : Prop where
  alike : c.alike = true
  last : c.rest = []
  holds : c.Holds state

theorem Continuation.Shares.forward (shares : c.Shares before)
    (forward : before.cursor.Forward after.cursor) : c.Shares after :=
  { shares with holds := shares.holds.forward forward }

/-- The place `low` is reached, or no token is left. -/
def Continuation.Begun (c : Continuation) (low : Nat) (state : State) : Prop :=
  low ≤ state.cursor.index ∨ c.limit < state.cursor.index

/-- The second state is the first one, with a longer source. -/
structure Longer (c : Continuation) (one two : State) : Prop where
  differs : c.alike = false
  size : one.cursor.tokens.size = c.limit
  tokens : two.cursor.tokens.toList = one.cursor.tokens.toList ++ c.next :: c.rest
  index : two.cursor.index = one.cursor.index
  allowIn : two.cursor.allowIn = one.cursor.allowIn
  context : two.context = one.context
  plain {context : Context} (has : one.context = some context) : context.hygiene = none
  ready : one.cursor.Ready
  readyToo : two.cursor.Ready

namespace Longer

variable {one two : State} {index : Nat}
variable (longer : Longer c one two)
include longer

theorem holds : c.Holds two where
  ready := longer.readyToo
  size := by
    rw [← Array.length_toList, longer.tokens, List.length_append, Array.length_toList, longer.size]
    rfl

theorem index_le : one.cursor.index ≤ c.limit :=
  longer.size ▸ longer.ready.inside

theorem index_lt_size : two.cursor.index < two.cursor.tokens.size := by
  have inside := longer.index_le
  rw [longer.index, longer.holds.size, Continuation.size]
  omega

/-- Both have the same tokens where the shorter source has tokens. -/
theorem tokenAt_of_lt (inside : index < c.limit) :
    two.cursor.tokenAt index = one.cursor.tokenAt index := by
  have within : index < one.cursor.tokens.toList.length := by
    rw [Array.length_toList, longer.size]
    exact inside
  have found : two.cursor.tokens[index]? = one.cursor.tokens[index]? := by
    rw [← Array.getElem?_toList, ← Array.getElem?_toList, longer.tokens,
      List.getElem?_append_left within]
  have known : one.cursor.tokens[index]? = some one.cursor.tokens[index] :=
    Array.getElem?_eq_getElem _
  rw [Cursor.tokenAt, Cursor.tokenAt, found, known]
  rfl

theorem peek_of_lt (inside : one.cursor.index < c.limit) : two.cursor.peek = one.cursor.peek := by
  rw [Cursor.peek, Cursor.peek, longer.index]
  exact longer.tokenAt_of_lt inside

theorem peekAt_of_lt {offset : Nat} (inside : one.cursor.index + offset < c.limit) :
    two.cursor.peekAt offset = one.cursor.peekAt offset := by
  rw [Cursor.peekAt, Cursor.peekAt, longer.index]
  exact longer.tokenAt_of_lt inside

/-- Behind its tokens the shorter source has ends of input only. -/
theorem isEnd_tokenAt (outside : c.limit ≤ index) : (one.cursor.tokenAt index).isEnd = true := by
  have past : one.cursor.tokens[index]? = none :=
    Array.getElem?_eq_none_iff.mpr (longer.size ▸ outside)
  rw [Cursor.tokenAt, past]
  exact longer.ready.finish

theorem isEnd_peek (atLimit : one.cursor.index = c.limit) : one.cursor.peek.isEnd = true :=
  longer.isEnd_tokenAt (Nat.le_of_eq atLimit.symm)

/-- Both cursors go on together. -/
theorem move {next nextToo : Cursor} (forward : one.cursor.Forward next)
    (forwardToo : two.cursor.Forward nextToo) (index : nextToo.index = next.index)
    (allowIn : nextToo.allowIn = next.allowIn) :
    Longer c ⟨next, one.context⟩ ⟨nextToo, two.context⟩ where
  differs := longer.differs
  size := by
    rw [forward.tokens]
    exact longer.size
  tokens := by
    rw [forward.tokens, forwardToo.tokens]
    exact longer.tokens
  index := index
  allowIn := allowIn
  context := longer.context
  plain := longer.plain
  ready := forward.ready longer.ready
  readyToo := forwardToo.ready longer.readyToo

theorem succ (inside : one.cursor.index < c.limit) :
    Longer c ⟨{ one.cursor with index := one.cursor.index + 1 }, one.context⟩
      ⟨{ two.cursor with index := two.cursor.index + 1 }, two.context⟩ := by
  apply longer.move
  · exact Cursor.forward_succ (longer.size ▸ inside)
  · exact Cursor.forward_succ longer.index_lt_size
  · exact congrArg (· + 1) longer.index
  · exact longer.allowIn

/-- Both contexts change in the same way. -/
theorem change (change : Context → Context)
    (plain : ∀ {context : Context}, context.hygiene = none → (change context).hygiene = none) :
    Longer c { one with context := one.context.map change }
      { two with context := two.context.map change } where
  differs := longer.differs
  size := longer.size
  tokens := longer.tokens
  index := longer.index
  allowIn := longer.allowIn
  context := congrArg (Option.map change) longer.context
  plain has := by
    obtain ⟨former, found, rfl⟩ := Option.map_eq_some_iff.mp has
    exact plain (longer.plain found)
  ready := longer.ready
  readyToo := longer.readyToo

end Longer

/-! ## How far a parser goes -/

/-- Every run on the longer source that comes to a value has read at least so many tokens, or has
gone past the end of the shorter source. -/
def Gains (c : Continuation) (least : Nat) (parser : Parser α) : Prop :=
  ∀ ⦃state after : State⦄ ⦃value : α⦄, c.Holds state → parser state = .ok value after →
    state.cursor.Forward after.cursor ∧
      (state.cursor.index + least ≤ after.cursor.index ∨ c.limit < after.cursor.index)

/-- No run comes to a value. -/
def Fails (parser : Parser α) : Prop :=
  ∀ ⦃state after : State⦄ ⦃value : α⦄, ¬ parser state = .ok value after

namespace Fails

theorem malformed (span : Span) (problem : SourceProblem) :
    Fails (malformed span problem : Parser α) := by
  rintro state after value ⟨⟩

theorem unexpected : Fails (unexpected : Parser α) := by
  rintro state after value ⟨⟩

theorem expected (wanted : String) : Fails (expected wanted : Parser α) := by
  rintro state after value ⟨⟩

theorem peek {next : Token → Parser α} (fails : ∀ token, Fails (next token)) :
    Fails (peek >>= next) :=
  fun _ _ _ run => fails _ run

end Fails

namespace Gains

variable {least early late : Nat} {parser : Parser α} {next : α → Parser β}

theorem mono (gains : Gains c late parser) (le : least ≤ late) : Gains c least parser := by
  intro state after value holds run
  obtain ⟨forward, further⟩ := gains holds run
  exact ⟨forward, further.imp_left fun gained => Nat.le_trans (Nat.add_le_add_left le _) gained⟩

theorem weaken (gains : Gains c late parser) : Gains c 0 parser :=
  gains.mono (Nat.zero_le _)

protected theorem bind (first : Gains c early parser)
    (second : ∀ value, Gains c late (next value)) : Gains c (early + late) (parser >>= next) := by
  intro state after value holds run
  obtain ⟨middle, between, firstRun, secondRun⟩ := Outcome.bind_eq_ok_iff.mp run
  obtain ⟨forward, further⟩ := first holds firstRun
  obtain ⟨forwardToo, furtherToo⟩ := second middle (holds.forward forward) secondRun
  have monotone := forwardToo.index
  constructor
  · exact forward.trans forwardToo
  · omega

/-- Parsers that look at the state and keep it. -/
theorem look (find : State → α) : Gains c 0 (fun state => .ok (find state) state) := by
  rintro state after value holds ⟨⟩
  exact ⟨.refl holds.ready, .inl (Nat.le_refl _)⟩

end Gains

/-- The state of a parser that has tokens left, as that of two parsers of one source. -/
theorem shares_of_inside (ready : state.cursor.Ready)
    (inside : state.cursor.index < state.cursor.tokens.size) :
    Continuation.Shares ⟨state.cursor.tokens.size - 1, state.cursor.peek, [], true⟩ state := by
  refine ⟨rfl, rfl, ready, ?_⟩
  show state.cursor.tokens.size = state.cursor.tokens.size - 1 + 1
  omega

/-- A parser that gains a token goes further on, where tokens are left. -/
theorem further_of_gains {parser : Parser α} (gains : ∀ c, Gains c 1 parser) {value : α}
    (ready : state.cursor.Ready) (inside : state.cursor.index < state.cursor.tokens.size)
    (run : parser state = .ok value after) :
    state.cursor.Forward after.cursor ∧ state.cursor.index < after.cursor.index := by
  obtain ⟨forward, further⟩ := gains _ (shares_of_inside ready inside).holds run
  simp only at further
  exact ⟨forward, by omega⟩

/-! ## Runs that agree -/

/-- If the second run came to a value, the first one came to the same value at the same place, or
the second has gone past the end of the shorter source, but for the tokens that it owes. -/
def ConcurAt (c : Continuation) (owed : Nat) (first second : EStateM.Result Fault State α) : Prop :=
  ∀ ⦃value : α⦄ ⦃two : State⦄, second = .ok value two →
    (∃ one, first = .ok value one ∧ Longer c one two) ∨ c.limit < two.cursor.index + owed

/-- Two parsers that agree from the place `low` on, where the second reads at least so many
tokens. -/
structure Concur (c : Continuation) (low owed least : Nat) (first second : Parser α) : Prop where
  gains : Gains c least second
  agree {one two : State} (longer : Longer c one two) (begun : low ≤ one.cursor.index) :
    ConcurAt c owed (first one) (second two)
  same {state : State} (shares : c.Shares state) (begun : c.Begun low state) :
    first state = second state

variable {low owed least : Nat} {first second : Parser α} {nextFirst nextSecond : α → Parser β}

namespace ConcurAt

variable {two one : State} {result : EStateM.Result Fault State α}

protected theorem pure {one two : State} (longer : Longer c one two) (value : α) :
    ConcurAt c owed ((pure value : Parser α) one) ((pure value : Parser α) two) := by
  rintro _ _ ⟨⟩
  exact .inl ⟨one, rfl, longer⟩

theorem of_fails (fails : Fails second) : ConcurAt c owed result (second two) := by
  intro value after run
  exact (fails run).elim

/-- Near the end of the shorter source a parser that gains tokens goes past it. -/
theorem of_past (longer : Longer c one two) (gains : Gains c least second)
    (near : c.limit < one.cursor.index + (least + owed)) : ConcurAt c owed result (second two) := by
  intro value after run
  have further := (gains longer.holds run).2
  have index := longer.index
  exact .inr (by omega)

/-- Runs that agree go on to runs that agree, when the second part pays what the first owes. -/
theorem bind {early : Nat} (run : ConcurAt c early (first one) (second two))
    (longer : Longer c one two) (gains : Gains c 0 second)
    (tail : ∀ value, Gains c least (nextSecond value)) (paid : early ≤ least + owed)
    (later : ∀ {value : α} {after other : State}, second two = .ok value other →
      Longer c after other → ConcurAt c owed (nextFirst value after) (nextSecond value other)) :
    ConcurAt c owed ((first >>= nextFirst) one) ((second >>= nextSecond) two) := by
  intro value after secondRun
  obtain ⟨middle, between, early, late⟩ := Outcome.bind_eq_ok_iff.mp secondRun
  rcases run early with ⟨shorter, firstRun, reached⟩ | past
  · rcases later early reached late with ⟨final, lastRun, ended⟩ | past
    · exact .inl ⟨final, Outcome.bind_eq_ok_iff.mpr ⟨middle, shorter, firstRun, lastRun⟩, ended⟩
    · exact .inr past
  · have forward := (gains longer.holds early).1
    have further := (tail middle (longer.holds.forward forward) late).2
    exact .inr (by omega)

end ConcurAt

namespace Concur

variable {early most : Nat}

/-- It is enough to look at places from which the second parser does not go past the end. -/
theorem of_gains (gains : Gains c least second)
    (same : ∀ {state : State}, c.Shares state → c.Begun low state → first state = second state)
    (agree : ∀ {one two : State}, Longer c one two → low ≤ one.cursor.index →
      one.cursor.index + (least + owed) ≤ c.limit → ConcurAt c owed (first one) (second two)) :
    Concur c low owed least first second where
  gains := gains
  same := same
  agree {one two} longer begun := by
    rcases Nat.lt_or_ge c.limit (one.cursor.index + (least + owed)) with near | far
    · exact .of_past longer gains near
    · exact agree longer begun far

theorem of_fails (fails : Fails first) : Concur c low owed least first first where
  gains _ _ _ _ run := (fails run).elim
  agree _ _ := .of_fails fails
  same _ _ := rfl

protected theorem pure (value : α) : Concur c low owed 0 (pure value) (pure value) where
  gains := Gains.look fun _ => value
  agree longer _ := .pure longer value
  same _ _ := rfl

theorem mono {late : Nat} (agree : Concur c low owed late first second) (le : early ≤ late) :
    Concur c low owed early first second :=
  ⟨agree.gains.mono le, agree.agree, agree.same⟩

section

variable (agree : Concur c low owed least first second)
include agree

theorem weaken : Concur c low owed 0 first second :=
  agree.mono (Nat.zero_le _)

/-- What agrees from a place on agrees from a later place on. -/
theorem from_le {high : Nat} (le : low ≤ high) : Concur c high owed least first second :=
  ⟨agree.gains, fun longer begun => agree.agree longer (Nat.le_trans le begun),
    fun shares begun => agree.same shares (begun.imp_left (Nat.le_trans le))⟩

theorem later : Concur c (low + 1) owed least first second :=
  agree.from_le (Nat.le_succ _)

theorem owing {more : Nat} (le : owed ≤ more) :
    Concur c low more least first second where
  gains := agree.gains
  agree longer begun _ _ run :=
    (agree.agree longer begun run).imp_right fun past =>
      Nat.lt_of_lt_of_le past (Nat.add_le_add_left le _)
  same := agree.same

end

/-- Read one thing after the other.  The tokens that the first part owes are read or owed by the
second. -/
theorem seq (agree : Concur c low early most first second)
    (later : ∀ value, Concur c (low + most) owed least (nextFirst value) (nextSecond value))
    (paid : early ≤ least + owed) :
    Concur c low owed (most + least) (first >>= nextFirst) (second >>= nextSecond) where
  gains := agree.gains.bind fun value => (later value).gains
  agree {one two} longer begun := by
    apply (agree.agree longer begun).bind longer agree.gains.weaken
      (fun value => (later value).gains) paid
    intro value after other run reached
    have further := (agree.gains longer.holds run).2
    have inside := reached.index_le
    have index := longer.index
    have indexToo := reached.index
    exact (later value).agree reached (by omega)
  same {state} shares begun := by
    simp only [Bind.bind, EStateM.bind, agree.same shares begun]
    cases run : second state with
    | error fault after => rfl
    | ok value after =>
      obtain ⟨forward, further⟩ := agree.gains shares.holds run
      have monotone := forward.index
      refine (later value).same (shares.forward forward) ?_
      unfold Continuation.Begun at begun ⊢
      omega

/-- Read something that gains a token, and go on. -/
theorem bind (agree : Concur c low 0 1 first second)
    (later : ∀ value, Concur c (low + 1) owed least (nextFirst value) (nextSecond value)) :
    Concur c low owed (least + 1) (first >>= nextFirst) (second >>= nextSecond) :=
  Nat.add_comm 1 least ▸ agree.seq later (Nat.zero_le _)

/-- Read something, and go on with something that gains tokens. -/
theorem andThen (agree : Concur c low 0 most first second)
    (later : ∀ value, Concur c low owed least (nextFirst value) (nextSecond value)) :
    Concur c low owed least (first >>= nextFirst) (second >>= nextSecond) :=
  Nat.zero_add least ▸ agree.weaken.seq later (Nat.zero_le _)

/-- Go on with something that reads the token which is owed. -/
theorem settle (agree : Concur c low 1 most first second)
    (later : ∀ value, Concur c low owed (least + 1) (nextFirst value) (nextSecond value)) :
    Concur c low owed (least + 1) (first >>= nextFirst) (second >>= nextSecond) :=
  Nat.zero_add (least + 1) ▸ agree.weaken.seq later (by omega)

protected theorem map (change : α → β) (agree : Concur c low owed least first second) :
    Concur c low owed least (change <$> first) (change <$> second) := by
  rw [map_eq_pure_bind, map_eq_pure_bind]
  exact agree.seq (fun value => .pure (change value)) (Nat.le_add_left _ _)

theorem ite {condition : Bool} {elseFirst elseSecond : Parser α}
    (yes : Concur c low owed least first second)
    (no : Concur c low owed least elseFirst elseSecond) :
    Concur c low owed least (if condition then first else elseFirst)
      (if condition then second else elseSecond) := by
  cases condition
  · exact no
  · exact yes

end Concur

end MacroScript.Grammar
