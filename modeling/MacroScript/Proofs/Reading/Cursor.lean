import MacroScript.Proofs.Outcome
import MacroScript.Proofs.Reading.Walk
import MacroScript.Proofs.Renumbering

/-!
# Computations on the cursor

Most of what a parser does is to look at tokens, to move past them or to complain about
them.  Such a parser is a computation on the cursor: it neither sees nor changes its
context.  It does not see the numbers of the tokens either, so it takes the same decisions
on renumbered tokens.

`Tracks` says both.  It is kept when such parsers are put together, and the patterns and
rules of macros are read that way.
-/

namespace MacroScript

/-! ## Balanced runs -/

namespace Balanced

/-- How an outcome divides the tokens. -/
def Outcome.Divides (tokens : List Token) : Outcome → Prop
  | .closed tree rest => ∃ closer, tokens = tree ++ closer :: rest
  | .mismatched found rest => found :: rest <:+ tokens
  | .unfinished rest => rest <:+ tokens

theorem Outcome.Divides.cons {tokens : List Token} {outcome : Outcome}
    (divides : outcome.Divides tokens) (token : Token) :
    (outcome.cons token).Divides (token :: tokens) := by
  cases outcome with
  | closed tree rest =>
    obtain ⟨closer, rfl⟩ := divides
    exact ⟨closer, rfl⟩
  | mismatched found rest
  | unfinished rest => exact List.IsSuffix.trans divides (List.suffix_cons token tokens)

theorem divides_takeWithin (closer : String) (inner : List String) (tokens : List Token) :
    (takeWithin closer inner tokens).Divides tokens := by
  induction tokens generalizing inner with
  | nil => simp [takeWithin, Outcome.Divides]
  | cons token rest ih =>
    unfold takeWithin
    split
    · exact List.suffix_cons token rest
    · split
      · split
        · exact ⟨token, rfl⟩
        · split
          · exact (ih _).cons token
          · split
            · exact List.suffix_refl _
            · exact (ih _).cons token
      · split
        · exact (ih _).cons token
        · split
          · exact (ih _).cons token
          · split
            · exact List.suffix_refl _
            · exact (ih _).cons token

end Balanced

namespace Cursor

theorem advance_allowIn (cursor : Cursor) : cursor.advance.allowIn = cursor.allowIn := by
  unfold advance
  split <;> rfl

/-- Going back to a suffix of the tokens that are left moves forward. -/
theorem Ready.forward_suffix {cursor : Cursor} (ready : cursor.Ready) {rest : List Token}
    (suffix : rest <:+ cursor.rest) :
    cursor.Forward { cursor with index := cursor.tokens.size - rest.length } := by
  have shorter := suffix.length_le
  have inside := ready.inside
  simp only [Cursor.rest, List.length_drop, Array.length_toList] at shorter
  refine ⟨rfl, rfl, ?_, Nat.sub_le _ _⟩
  show cursor.index ≤ cursor.tokens.size - rest.length
  omega

end Cursor

/-- The cursor in front of the last tokens of its list. -/
def Cursor.before (cursor : Cursor) (rest : List Token) : Cursor :=
  { cursor with index := cursor.tokens.size - rest.length }

theorem Renumbering.cursor_before (r : Renumbering) (cursor : Cursor) (rest : List Token) :
    (r.cursor cursor).before (rest.map r.token) = r.cursor (cursor.before rest) := by
  simp [Cursor.before, Renumbering.cursor]

namespace Grammar

variable {α β : Type} {act : EStateM Fault Cursor α}

/-! ## Computations on the cursor -/

/-- Run a computation on the cursor as a parser. -/
def onCursor (act : EStateM Fault Cursor α) : Parser α := fun state =>
  match act state.cursor with
  | .ok value cursor => .ok value { state with cursor }
  | .error fault cursor => .error fault { state with cursor }

theorem comes_onCursor {state : State} {post : α → State → Prop} {blamed : Fault → State → Prop}
    (comes : Outcome.Comes (fun value cursor => post value { state with cursor })
      (fun fault cursor => blamed fault { state with cursor }) (act state.cursor)) :
    Outcome.Comes post blamed (onCursor act state) := by
  unfold onCursor
  cases run : act state.cursor <;> rw [run] at comes <;> exact comes

theorem onCursor_bind (act : EStateM Fault Cursor α) (next : α → EStateM Fault Cursor β) :
    (onCursor act >>= fun value => onCursor (next value)) = onCursor (act >>= next) := by
  funext state
  simp only [bind, EStateM.bind, onCursor]
  cases act state.cursor <;> rfl

/-- A cursor further on, where `in` is an operator as before. -/
structure Onward (before after : Cursor) : Prop extends before.Forward after where
  allowIn : after.allowIn = before.allowIn

theorem Onward.refl {cursor : Cursor} (ready : cursor.Ready) : Onward cursor cursor :=
  ⟨.refl ready, rfl⟩

theorem Onward.trans {first second third : Cursor} (one : Onward first second)
    (two : Onward second third) : Onward first third :=
  ⟨one.toForward.trans two.toForward, two.allowIn.trans one.allowIn⟩

/-- A run that has moved the cursor forward, and that complains about source text only. -/
abbrev MovedOn (cursor : Cursor) (result : EStateM.Result Fault Cursor α) : Prop :=
  Outcome.Comes (fun _ next => Onward cursor next)
    (fun fault next => Onward cursor next ∧ fault.cause.kind = .malformed) result

/-- Every run of the computation moves the cursor forward. -/
def MovesOn (act : EStateM Fault Cursor α) : Prop :=
  ∀ cursor : Cursor, cursor.Ready → MovedOn cursor (act cursor)

theorem MovesOn.bind {next : α → EStateM Fault Cursor β} (first : MovesOn act)
    (second : ∀ value, MovesOn (next value)) : MovesOn (act >>= next) := by
  intro cursor ready
  refine (first cursor ready).bind fun value middle onward => ?_
  exact (second value middle (onward.ready ready)).imp (fun _ _ => onward.trans)
    fun _ _ => And.imp_left onward.trans

end Grammar

open Grammar

variable {α β : Type}

namespace Renumbering

/-- How a computation on the cursor ended, under the new numbers. -/
def ended (r : Renumbering) (map : α → α) :
    EStateM.Result Fault Cursor α → EStateM.Result Fault Cursor α
  | .ok value cursor => .ok (map value) (r.cursor cursor)
  | .error fault cursor => .error fault (r.cursor cursor)

/-- The first parser is a computation on the cursor, and the second one does the same on
renumbered tokens. -/
def Tracks (r : Renumbering) (first second : Parser α) (map : α → α) : Prop :=
  ∃ act : EStateM Fault Cursor α, first = onCursor act ∧ MovesOn act ∧
    ∀ (cursor : Cursor) (context : Option Context),
      second ⟨r.cursor cursor, context⟩ =
        onCursor (fun _ => r.ended map (act cursor)) ⟨cursor, context⟩

variable {r : Renumbering} {first second : Parser α} {map : α → α} {resultMap : β → β}

namespace Tracks

variable {next nextToo : α → Parser β}

/-- A computation that does not see the numbers. -/
theorem of_act {act : EStateM Fault Cursor α} (moves : MovesOn act)
    (same : ∀ cursor, act (r.cursor cursor) = r.ended map (act cursor)) :
    r.Tracks (onCursor act) (onCursor act) map := by
  refine ⟨act, rfl, moves, ?_⟩
  intro cursor context
  simp only [onCursor, same]

protected theorem bind (tracks : r.Tracks first second map)
    (later : ∀ value, r.Tracks (next value) (nextToo (map value)) resultMap) :
    r.Tracks (first >>= next) (second >>= nextToo) resultMap := by
  obtain ⟨act, rfl, moves, same⟩ := tracks
  choose acts nextEq nextMoves nextSame using later
  refine ⟨act >>= acts, ?_, moves.bind nextMoves, ?_⟩
  · rw [funext nextEq, onCursor_bind]
  · intro cursor context
    simp only [Bind.bind, EStateM.bind, same, onCursor]
    cases act cursor with
    | error fault next => rfl
    | ok value next => exact nextSame value next context

/-- Both find the same out about the position and go on. -/
theorem past (tracks : r.Tracks first second id)
    (later : ∀ value, r.Tracks (next value) (nextToo value) resultMap) :
    r.Tracks (first >>= next) (second >>= nextToo) resultMap :=
  tracks.bind later

theorem ite {condition other : Bool} {elseFirst elseSecond : Parser α} (same : other = condition)
    (yes : r.Tracks first second map) (no : r.Tracks elseFirst elseSecond map) :
    r.Tracks (if condition then first else elseFirst) (if other then second else elseSecond)
      map := by
  subst same
  cases other
  · exact no
  · exact yes

end Tracks

end Renumbering

namespace Grammar

variable {r : Renumbering} {map : α → α}

/-! ## Elementary parsers -/

/-- Parsers that look at the position and stay there. -/
theorem tracks_look (find : Cursor → α)
    (same : ∀ cursor, find (r.cursor cursor) = map (find cursor)) :
    r.Tracks (fun state => .ok (find state.cursor) state)
      (fun state => .ok (find state.cursor) state) map := by
  have moves : MovesOn fun cursor => .ok (find cursor) cursor := fun _ ready => .refl ready
  apply Renumbering.Tracks.of_act moves
  intro cursor
  rw [same]
  rfl

/-- Parsers that complain about the position. -/
theorem tracks_complain (fault : Cursor → Fault)
    (malformed : ∀ cursor, (fault cursor).cause.kind = .malformed)
    (same : ∀ cursor, fault (r.cursor cursor) = fault cursor) :
    r.Tracks (fun state => .error (fault state.cursor) state : Parser α)
      (fun state => .error (fault state.cursor) state) map := by
  have moves : MovesOn fun cursor =>
      (.error (fault cursor) cursor : EStateM.Result Fault Cursor α) :=
    fun cursor ready => ⟨.refl ready, malformed cursor⟩
  apply Renumbering.Tracks.of_act moves
  intro cursor
  rw [same]
  rfl

/-- Parsers that move the cursor. -/
theorem tracks_move (step : Cursor → Cursor) (found : Cursor → α)
    (onward : ∀ {cursor : Cursor}, cursor.Ready → Onward cursor (step cursor))
    (moved : ∀ cursor, step (r.cursor cursor) = r.cursor (step cursor))
    (same : ∀ cursor, found (r.cursor cursor) = map (found cursor)) :
    r.Tracks (fun state => .ok (found state.cursor) { state with cursor := step state.cursor })
      (fun state => .ok (found state.cursor) { state with cursor := step state.cursor }) map := by
  have moves : MovesOn fun cursor => .ok (found cursor) (step cursor) :=
    fun _ ready => onward ready
  apply Renumbering.Tracks.of_act moves
  intro cursor
  rw [moved, same]
  rfl

/-- Parsers that take the next token, if it is the right one. -/
theorem tracks_eat (eat : Cursor → Option Cursor) {parser : Parser Bool}
    (onward : ∀ {cursor next}, cursor.Ready → eat cursor = some next → Onward cursor next)
    (moved : ∀ cursor, eat (r.cursor cursor) = (eat cursor).map r.cursor)
    (eats : ∀ state, parser state =
      match eat state.cursor with
      | some cursor => .ok true { state with cursor }
      | none => .ok false state) :
    r.Tracks parser parser id := by
  let act : EStateM Fault Cursor Bool := fun cursor =>
    match eat cursor with
    | some next => .ok true next
    | none => .ok false cursor
  have moves : MovesOn act := by
    intro cursor ready
    simp only [act]
    cases eaten : eat cursor with
    | some next => exact onward ready eaten
    | none => exact Onward.refl ready
  have same : parser = onCursor act := by
    funext state
    simp only [eats, onCursor, act]
    cases eat state.cursor <;> rfl
  rw [same]
  apply Renumbering.Tracks.of_act moves
  intro cursor
  simp only [act, moved]
  cases eat cursor <;> rfl

theorem tracks_pure {value other : α} (same : other = map value) :
    r.Tracks (pure value) (pure other) map := by
  subst same
  have moves : MovesOn fun cursor => .ok value cursor := fun _ ready => .refl ready
  exact ⟨_, rfl, moves, fun _ _ => rfl⟩

theorem tracks_peek : r.Tracks peek peek r.token :=
  tracks_look Cursor.peek r.cursor_peek

theorem tracks_peekAt (offset : Nat) : r.Tracks (peekAt offset) (peekAt offset) r.token :=
  tracks_look (fun cursor => cursor.peekAt offset) fun cursor => r.cursor_peekAt cursor offset

theorem tracks_index : r.Tracks index index id :=
  tracks_look Cursor.index fun _ => rfl

theorem tracks_remaining : r.Tracks remaining remaining id :=
  tracks_look Cursor.remaining r.cursor_remaining

variable (text : String)

theorem tracks_atPunct : r.Tracks (atPunct text) (atPunct text) id := by
  apply tracks_look fun cursor => cursor.atPunct text
  intro cursor
  simp only [Cursor.atPunct, r.cursor_peek]
  rfl

theorem tracks_atReserved : r.Tracks (atReserved text) (atReserved text) id := by
  apply tracks_look fun cursor => cursor.atReserved text
  intro cursor
  simp only [Cursor.atReserved, r.cursor_peek]
  rfl

theorem tracks_finishSpan (start : Span) : r.Tracks (finishSpan start) (finishSpan start) id := by
  apply tracks_look fun cursor => start.through cursor.previousSpan
  intro cursor
  rw [r.cursor_previousSpan]
  rfl

theorem tracks_inAllowed : r.Tracks inAllowed inAllowed id :=
  tracks_look Cursor.allowIn fun _ => rfl

theorem tracks_unexpected : r.Tracks (unexpected : Parser α) unexpected map := by
  apply tracks_complain (fun cursor => .unexpected cursor.peek) fun _ => rfl
  intro cursor
  rw [r.cursor_peek]
  rfl

theorem tracks_expected (wanted : String) :
    r.Tracks (expected wanted : Parser α) (expected wanted) map := by
  apply tracks_complain
    (fun cursor => .malformed cursor.peek.span (.expected wanted cursor.peek.display)) fun _ => rfl
  intro cursor
  rw [r.cursor_peek]
  rfl

theorem tracks_malformed (span : Span) (problem : SourceProblem) :
    r.Tracks (malformed span problem : Parser α) (malformed span problem) map :=
  tracks_complain (fun _ => .malformed span problem) (fun _ => rfl) fun _ => rfl

theorem tracks_advance : r.Tracks advance advance r.token :=
  tracks_move Cursor.advance Cursor.peek
    (fun {cursor} ready => ⟨ready.forward_advance, cursor.advance_allowIn⟩) r.cursor_advance
    r.cursor_peek

theorem tracks_eatPunct : r.Tracks (eatPunct text) (eatPunct text) id := by
  apply tracks_eat fun cursor => cursor.eatPunct text
  · intro cursor next ready eaten
    obtain ⟨isNext, same⟩ := Option.ite_none_right_eq_some.mp eaten
    cases same
    exact ⟨Cursor.forward_succ (ready.lt_of_isPunct isNext), rfl⟩
  · exact fun cursor => r.cursor_eatPunct cursor text
  · exact fun state => rfl

theorem tracks_eatReserved : r.Tracks (eatReserved text) (eatReserved text) id := by
  apply tracks_eat fun cursor => cursor.eatReserved text
  · intro cursor next ready eaten
    obtain ⟨isNext, same⟩ := Option.ite_none_right_eq_some.mp eaten
    cases same
    exact ⟨Cursor.forward_succ (ready.lt_of_isReserved isNext), rfl⟩
  · exact fun cursor => r.cursor_eatReserved cursor text
  · exact fun state => rfl

theorem tracks_expectPunct : r.Tracks (expectPunct text) (expectPunct text) r.token :=
  (tracks_atPunct text).past fun _ => .ite rfl tracks_advance (tracks_expected text)

theorem tracks_expectReserved : r.Tracks (expectReserved text) (expectReserved text) r.token :=
  (tracks_atReserved text).past fun _ => .ite rfl tracks_advance (tracks_expected text)

theorem tracks_endStatement : r.Tracks endStatement endStatement id := by
  apply (tracks_eatPunct ";").past
  intro eaten
  refine .ite rfl (tracks_pure rfl) ?_
  apply tracks_peek.bind
  intro next
  exact .ite rfl (tracks_pure rfl) tracks_unexpected

/-- Reading a balanced run, as a computation on the cursor. -/
def balancedRun (closer : String) : EStateM Fault Cursor (List Token) := fun cursor =>
  match Balanced.take closer cursor.rest with
  | .closed tree rest => .ok tree (cursor.before rest)
  | .mismatched found rest => .error (.unexpected found) (cursor.before rest)
  | .unfinished rest =>
    .error (.malformed (cursor.before rest).peek.span (.unclosed closer)) (cursor.before rest)

theorem tracks_takeBalanced (closer : String) :
    r.Tracks (takeBalanced closer) (takeBalanced closer) (List.map r.token) := by
  have moves : MovesOn (balancedRun closer) := by
    intro cursor ready
    have divides := Balanced.divides_takeWithin closer [] cursor.rest
    simp only [balancedRun, Balanced.take]
    cases outcome : Balanced.takeWithin closer [] cursor.rest with
    | closed tree rest =>
      rw [outcome] at divides
      obtain ⟨last, split⟩ := divides
      exact ⟨ready.forward_suffix ⟨tree ++ [last], by simp [split]⟩, rfl⟩
    | mismatched found rest =>
      rw [outcome] at divides
      exact ⟨⟨ready.forward_suffix ((List.suffix_cons found rest).trans divides), rfl⟩, rfl⟩
    | unfinished rest =>
      rw [outcome] at divides
      exact ⟨⟨ready.forward_suffix divides, rfl⟩, rfl⟩
  have same : takeBalanced closer = onCursor (balancedRun closer) := by
    funext state
    simp only [takeBalanced, onCursor, balancedRun]
    cases Balanced.take closer state.cursor.rest <;> rfl
  rw [same]
  apply Renumbering.Tracks.of_act moves
  intro cursor
  simp only [balancedRun, r.cursor_rest, r.take_map]
  cases Balanced.take closer cursor.rest with
  | closed tree rest => simp only [Renumbering.outcome, r.cursor_before, Renumbering.ended]
  | mismatched found rest =>
    simp only [Renumbering.outcome, r.cursor_before, Renumbering.ended]
    rfl
  | unfinished rest =>
    simp only [Renumbering.outcome, r.cursor_before, r.cursor_peek, Renumbering.ended]
    rfl

/-! ## Patterns and rules -/

theorem tracks_patternElement {content : Parser Pattern}
    (inner : r.Tracks content content r.elements) :
    r.Tracks (patternElement content) (patternElement content) r.element := by
  apply tracks_peek.bind
  intro token
  apply (tracks_peekAt 1).bind
  intro following
  refine .ite rfl ?_ ?_
  · apply tracks_advance.bind
    intro _
    apply tracks_advance.bind
    intro _
    apply inner.bind
    intro elements
    apply (tracks_expectPunct ")").bind
    intro _
    apply tracks_advance.bind
    intro separator
    refine .ite rfl (tracks_malformed _ _) ?_
    apply (tracks_finishSpan _).past
    intro span
    exact tracks_pure rfl
  · have sameName : (r.token token).captureName? = token.captureName? := rfl
    rw [sameName]
    cases token.captureName? with
    | none =>
      apply tracks_advance.bind
      intro literal
      exact tracks_pure rfl
    | some name =>
      apply tracks_advance.bind
      intro _
      apply (tracks_expectPunct ":").bind
      intro _
      apply tracks_advance.bind
      intro word
      have sameKind : (if (r.token word).isName then CaptureKind.ofWord? (r.token word).text
          else none) = if word.isName then CaptureKind.ofWord? word.text else none := rfl
      rw [sameKind]
      split
      · exact tracks_pure rfl
      · exact tracks_malformed _ _

theorem tracks_patternElements (bound : Nat) (closer : String) (inner : List String) :
    r.Tracks (patternElements bound closer inner) (patternElements bound closer inner)
      r.elements := by
  induction bound generalizing closer inner with
  | zero =>
    apply tracks_peek.bind
    intro token
    exact tracks_malformed _ _
  | succ bound ih =>
    apply tracks_peek.bind
    intro token
    refine .ite rfl (tracks_malformed _ _) ?_
    refine .ite rfl (tracks_pure rfl) ?_
    refine .ite rfl ?_ ?_
    · apply tracks_advance.bind
      intro _
      apply (ih closer inner.tail).bind
      intro rest
      exact tracks_pure rfl
    have sameCloser : (r.token token).closer? = token.closer? := rfl
    rw [sameCloser]
    cases token.closer? with
    | some opened =>
      apply tracks_advance.bind
      intro _
      apply (ih closer (opened :: inner)).bind
      intro rest
      exact tracks_pure rfl
    | none =>
      refine .ite rfl (tracks_malformed _ _) ?_
      apply (tracks_patternElement (ih ")" [])).bind
      intro first
      apply (ih closer inner).bind
      intro rest
      exact tracks_pure rfl

theorem tracks_pattern : r.Tracks pattern pattern r.elements := by
  apply tracks_remaining.past
  intro bound
  exact tracks_patternElements bound ")" []

theorem tracks_rule : r.Tracks rule rule r.rule := by
  apply (tracks_expectPunct "(").bind
  intro start
  apply tracks_pattern.bind
  intro elements
  apply (tracks_expectPunct ")").bind
  intro _
  apply (tracks_expectPunct "=>").bind
  intro _
  apply (tracks_expectPunct "\x7b").bind
  intro _
  apply (tracks_takeBalanced "\x7d").bind
  intro template
  apply (tracks_finishSpan _).past
  intro span
  exact tracks_pure rfl

theorem tracks_rulesOf (name : String) (bound : Nat) :
    r.Tracks (rulesOf name bound) (rulesOf name bound) (List.map r.rule) := by
  induction bound with
  | zero => exact tracks_pure rfl
  | succ bound ih =>
    apply (tracks_atPunct "\x7d").past
    intro closed
    refine .ite rfl (tracks_pure rfl) ?_
    apply tracks_peek.bind
    intro token
    refine .ite rfl (tracks_malformed _ _) ?_
    apply tracks_rule.bind
    intro first
    apply ih.bind
    intro rest
    exact tracks_pure rfl

end Grammar

end MacroScript
