import MacroScript.Grammar.Statement
import MacroScript.Proofs.Mark
import MacroScript.Proofs.Reading.MacroNode

/-!
# How parsers are put together

The rules of the grammar are put together from few pieces: computations on the cursor,
literals, names, macro declarations, and scopes around other parsers.  `ComposedWhere` has
one constructor for each piece and for each way to join pieces.  It compares two parsers
that are put together in the same way, where the second one reads renumbered tokens, and
it says in which order the marks of the value were read.

What is true of every rule can so be proved piece by piece, without a lemma for each rule.  A
loop is the only rule that does not restore the settings of its cursor, so parsers can also be
compared as far as the next loop.
-/

namespace MacroScript

open Grammar

variable {α β : Type}

theorem Grammar.ite_run {condition : Bool} (first second : Parser α) (state : State) :
    (if condition then first else second) state =
      if condition then first state else second state := by
  cases condition <;> rfl

/-- Whether a comparison of parsers goes into loops. -/
class Grammar.Reach where
  loops : Bool

/-- Unless said otherwise, everything is compared. -/
instance : Reach := ⟨true⟩

/-- The second cursor is behind a loop that begins at the first one.  There `in` is an operator as
before, or has become one in the loop. -/
structure Cursor.PassesLoop (before after : Cursor) : Prop where
  begins : before.peek.isReserved "for" = true
  forward : before.Forward after
  moves : before.index < after.index
  allowIn : after.allowIn = before.allowIn ∨ after.allowIn = true

namespace Renumbering

/-- Two parsers that are put together in the same way from the pieces of the grammar, for
positions that satisfy the condition.  The marks `prior` were read already and will show in
the value. -/
inductive ComposedWhere [Reach] (r : Renumbering) :
    {α : Type} → (Cursor → Prop) → List Mark → Parser α → Parser α → (α → α) →
      (α → List Mark) → Prop
  /-- Look at tokens, move past them or complain about them. -/
  | tracks {α : Type} {prior : List Mark} {first second : Parser α} {map : α → α}
      (tracks : r.Tracks first second map) :
      ComposedWhere r (fun _ => True) prior first second map fun _ => prior
  /-- A literal is read from a token that is no punctuator and not the end of input. -/
  | literal {condition : Cursor → Prop} (kind : LiteralKind)
      (written : ∀ cursor, condition cursor → cursor.peek.kind ≠ .punct)
      (inside : ∀ cursor, condition cursor → cursor.peek.kind ≠ .eof) :
      ComposedWhere r condition [] (literalOf kind) (literalOf kind) r.expr Mark.ofExpr
  | bindingName :
      ComposedWhere r (fun _ => True) [] bindingName bindingName r.identifier fun name =>
        [.binding name]
  /-- A name that is read as a reference without a look at macros is no callee. -/
  | referenceName {condition : Cursor → Prop}
      (uncalled : ∀ cursor, condition cursor → (cursor.peekAt 1).isPunct "(" = false) :
      ComposedWhere r condition [] referenceName referenceName r.identifier fun name =>
        [.reference name]
  | nameExpression :
      ComposedWhere r (fun _ => True) [] nameExpression nameExpression r.expr Mark.ofExpr
  /-- Read a macro declaration, or what else a statement may be. -/
  | declaration {otherwise : Parser Stmt}
      (plain : ComposedWhere r (fun _ => True) [] otherwise otherwise r.stmt Mark.ofStmt) :
      ComposedWhere r (fun _ => True) []
        (do if ← atMacroDeclaration then macroDeclaration else otherwise)
        (do if ← atMacroDeclaration then macroDeclaration else otherwise) r.stmt Mark.ofStmt
  | bind {α β : Type} {condition : Cursor → Prop} {prior : List Mark} {first second : Parser α}
      {map : α → α} {view : α → List Mark} {next nextToo : α → Parser β} {resultMap : β → β}
      {result : β → List Mark}
      (one : ComposedWhere r condition prior first second map view)
      (later : ∀ value, ComposedWhere r (fun _ => True) (view value) (next value)
        (nextToo (map value)) resultMap result) :
      ComposedWhere r condition prior (first >>= next) (second >>= nextToo) resultMap result
  /-- Choose a parser by the position. -/
  | choose {α : Type} {prior : List Mark} {parser : Parser α} {map : α → α}
      {view : α → List Mark} (choice : Cursor → Parser α)
      (chosen : ∀ state, parser state = choice state.cursor state)
      (each : ∀ cursor, ComposedWhere r (· = cursor) prior (choice cursor)
        (choice (r.cursor cursor)) map view) :
      ComposedWhere r (fun _ => True) prior parser parser map view
  /-- What is composed anywhere is composed under a condition. -/
  | anywhere {α : Type} {condition : Cursor → Prop} {prior : List Mark}
      {first second : Parser α} {map : α → α} {view : α → List Mark}
      (inner : ComposedWhere r (fun _ => True) prior first second map view) :
      ComposedWhere r condition prior first second map view
  | inScope {α : Type} {first second : Parser α} {map : α → α} {view : α → List Mark}
      (inner : ComposedWhere r (fun _ => True) [] first second map view) :
      ComposedWhere r (fun _ => True) [] (inScope first) (inScope second) map fun value =>
        Mark.enclosed (view value)
  /-- Change for a while whether `in` is an operator.  Only a loop does not change it back. -/
  | withIn {α : Type} {prior : List Mark} {first second : Parser α} {map : α → α}
      {view : α → List Mark} (within lasts : Bool) (restored : Reach.loops = false → lasts = false)
      (inner : ComposedWhere r (fun _ => True) prior first second map view) :
      ComposedWhere r (fun _ => True) prior (withIn within lasts first)
        (withIn within lasts second) map view
  /-- A loop that is out of reach is passed, and nothing in it is compared. -/
  | beyond {α : Type} {condition : Cursor → Prop} {prior : List Mark}
      {first second : Parser α} {map : α → α} {view : α → List Mark}
      (near : Reach.loops = false)
      (passes : ∀ state : State, condition state.cursor → state.cursor.Ready →
        state.cursor.PassesLoop (Outcome.final (first state)).cursor) :
      ComposedWhere r condition prior first second map view
  /-- What was read before may be put in front. -/
  | frame {α : Type} {prior : List Mark} {first second : Parser α} {map : α → α}
      {view : α → List Mark}
      (inner : ComposedWhere r (fun _ => True) [] first second map view) :
      ComposedWhere r (fun _ => True) prior first second map fun value => prior ++ view value
  /-- Marks may be seen in another way in the values that the parser comes to. -/
  | reviewed {α : Type} {prior : List Mark} {first second : Parser α} {map : α → α}
      {view otherView : α → List Mark}
      (inner : ComposedWhere r (fun _ => True) prior first second map view)
      (seen : Results (fun value => otherView value = view value) first) :
      ComposedWhere r (fun _ => True) prior first second map otherView

/-- Two parsers that are put together in the same way. -/
abbrev Composed [Reach] (r : Renumbering) (prior : List Mark) (first second : Parser α)
    (map : α → α) (view : α → List Mark) : Prop :=
  r.ComposedWhere (fun _ => True) prior first second map view

/-- A parser that is put together from the pieces of the grammar, and whose value shows all
it has read. -/
abbrev Reads [Reach] (r : Renumbering) (parser : Parser α) (map : α → α)
    (view : α → List Mark) : Prop :=
  r.Composed [] parser parser map view

variable {r : Renumbering} {prior : List Mark} {first second : Parser α} {map : α → α}
  {view : α → List Mark} {resultMap : β → β} {result : β → List Mark} {condition : Cursor → Prop}

section

variable {reach : Reach}

/-! ## Ways to put parsers together -/

/-- A computation on the cursor and what follows it. -/
theorem Tracks.andThen {next nextToo : α → Parser β} (tracks : r.Tracks first second map)
    (later : ∀ value, r.Composed prior (next value) (nextToo (map value)) resultMap result) :
    r.Composed prior (first >>= next) (second >>= nextToo) resultMap result :=
  (ComposedWhere.tracks tracks).bind later

namespace ComposedWhere

variable {next nextToo : α → Parser β} {condition other : Bool} {elseFirst elseSecond : Parser α}

/-- Read something and go on. -/
theorem andThen (one : r.Composed [] first second map view) (later : ∀ value,
      r.Composed (prior ++ view value) (next value) (nextToo (map value)) resultMap result) :
    r.Composed prior (first >>= next) (second >>= nextToo) resultMap result :=
  one.frame.bind later

protected theorem pure {value other : α} (same : other = map value) (seen : view value = prior) :
    r.Composed prior (pure value) (pure other) map view :=
  (ComposedWhere.tracks (tracks_pure same)).reviewed (.pure seen)

theorem unexpected : r.Composed prior (unexpected : Parser α) unexpected map view :=
  (ComposedWhere.tracks tracks_unexpected).reviewed .unexpected

theorem malformed (span : Span) (problem : SourceProblem) :
    r.Composed prior (malformed span problem : Parser α) (malformed span problem) map view :=
  (ComposedWhere.tracks (tracks_malformed span problem)).reviewed (.malformed span problem)

section

variable (one : r.Composed prior first second map view)
include one

protected theorem map {change changeToo : α → β}
    (same : ∀ value, changeToo (map value) = resultMap (change value))
    (seen : ∀ value, result (change value) = view value) :
    r.Composed prior (change <$> first) (changeToo <$> second) resultMap result := by
  rw [map_eq_pure_bind, map_eq_pure_bind]
  exact one.bind fun value => .pure (same value) (seen value)

theorem congr {other : α → α} {otherView : α → List Mark}
    (same : ∀ value, other value = map value) (seen : ∀ value, otherView value = view value) :
    r.Composed prior first second other otherView := by
  rw [funext same, funext seen]
  exact one

omit one in
theorem ite (same : other = condition) (yes : r.Composed prior first second map view)
    (no : r.Composed prior elseFirst elseSecond map view) :
    r.Composed prior (if condition then first else elseFirst)
      (if other then second else elseSecond) map view := by
  subst same
  cases other
  · exact no
  · exact yes

omit one in
/-- Measure what was read, and come to a value. -/
theorem finish {start : Span} {value other : Span → α}
    (same : ∀ span, other span = map (value span)) (seen : ∀ span, view (value span) = prior) :
    r.Composed prior (do return value (← finishSpan start)) (do return other (← finishSpan start))
      map view :=
  (tracks_finishSpan start).andThen fun span => .pure (same span) (seen span)

omit one in
theorem finishStatement {start : Span} {value other : Span → α}
    (same : ∀ span, other span = map (value span)) (seen : ∀ span, view (value span) = prior) :
    r.Composed prior (do endStatement; return value (← finishSpan start))
      (do endStatement; return other (← finishSpan start)) map view :=
  tracks_endStatement.andThen fun _ => finish same seen

omit one in
/-- Two ways to read something, and what follows both. -/
theorem branch (same : other = condition) (yes : r.Composed prior first second map view)
    (no : r.Composed prior elseFirst elseSecond map view) (later : ∀ value,
      r.Composed (view value) (next value) (nextToo (map value)) resultMap result) :
    r.Composed prior (if condition then first >>= next else elseFirst >>= next)
      (if other then second >>= nextToo else elseSecond >>= nextToo) resultMap result :=
  ite same (yes.bind later) (no.bind later)

omit one in
/-- Look at the next token and go on from there. -/
theorem look {next : Token → Parser α}
    (each : ∀ cursor, r.ComposedWhere (· = cursor) prior (next cursor.peek)
      (next (r.token cursor.peek)) map view) :
    r.Composed prior (peek >>= next) (peek >>= next) map view := by
  apply ComposedWhere.choose (fun cursor => next cursor.peek) fun _ => rfl
  intro cursor
  rw [r.cursor_peek]
  exact each cursor

theorem allowingIn : r.Composed prior (allowingIn first) (allowingIn second) map view :=
  one.withIn true false fun _ => rfl

theorem forbiddingIn (far : reach.loops = true) :
    r.Composed prior (forbiddingIn first) (forbiddingIn second) map view :=
  one.withIn false true fun near => far.symm.trans near

end

/-! ### Lists -/

theorem itemsUntil {stop : Token → Bool} (same : ∀ token, stop (r.token token) = stop token)
    (item : r.Composed [] first second map view) (bound : Nat) :
    r.Composed [] (itemsUntil stop first bound) (itemsUntil stop second bound) (List.map map)
      (·.flatMap view) := by
  induction bound with
  | zero => exact .pure rfl rfl
  | succ bound ih =>
    apply tracks_peek.andThen
    intro token
    refine .ite (same token) (.pure rfl rfl) ?_
    refine .ite rfl .unexpected ?_
    apply item.andThen
    intro value
    apply ih.andThen
    intro rest
    exact .pure rfl (by simp)

theorem commaItems {closer : String} (item : r.Composed [] first second map view) (bound : Nat) :
    r.Composed [] (commaItems closer first bound) (commaItems closer second bound) (List.map map)
      (·.flatMap view) := by
  induction bound with
  | zero => exact .pure rfl rfl
  | succ bound ih =>
    apply (tracks_atPunct closer).andThen
    intro closed
    refine .ite rfl (.pure rfl rfl) ?_
    apply item.andThen
    intro value
    apply (tracks_eatPunct ",").andThen
    intro more
    refine .ite rfl ?_ (.pure rfl (by simp))
    apply ih.andThen
    intro rest
    exact .pure rfl (by simp)

theorem commaSequence (item : r.Composed [] first second map view) (bound : Nat) :
    r.Composed [] (commaSequence first bound) (commaSequence second bound) (List.map map)
      (·.flatMap view) := by
  induction bound with
  | zero => exact .pure rfl rfl
  | succ bound ih =>
    apply item.andThen
    intro value
    apply (tracks_eatPunct ",").andThen
    intro more
    refine .ite rfl ?_ (.pure rfl (by simp))
    apply ih.andThen
    intro rest
    exact .pure rfl (by simp)

end ComposedWhere

end

/-! ## Leaves -/

theorem tracks_literalOf (r : Renumbering) (kind : LiteralKind) :
    r.Tracks (literalOf kind) (literalOf kind) r.expr :=
  tracks_advance.bind fun _ => tracks_pure rfl

/-- A parser that is put together from the pieces of the grammar follows the leaves of its
values. -/
theorem ComposedWhere.follows (composed : r.ComposedWhere condition prior first second map view) :
    Follows (Mark.leaves prior) first fun value => Mark.leaves (view value) := by
  induction composed with
  | tracks tracks => exact .of_moves (moves_of_tracks tracks)
  | literal kind written inside =>
    refine (Follows.of_moves (moves_of_tracks (r.tracks_literalOf kind))).reviewed ?_
    exact .bind fun _ => .pure rfl
  | bindingName => exact yields_bindingName
  | referenceName uncalled => exact yields_referenceName
  | nameExpression => exact yields_nameExpression
  | declaration plain ih =>
    intro reader ready
    simp only [Bind.bind, EStateM.bind, atMacroDeclaration]
    split
    · exact yields_macroDeclaration reader ready
    · exact ih reader ready
  | bind one later ihOne ihLater => exact ihOne.bind ihLater
  | choose choice chosen each ih =>
    intro reader ready
    rw [chosen]
    exact ih reader.state.cursor reader ready
  | anywhere inner ih => exact ih
  | inScope inner ih =>
    simp only [Mark.leaves_enclosed]
    exact ih.inScope
  | withIn within lasts restored inner ih => exact ih.withIn within lasts
  | beyond near begins => cases near
  | frame inner ih =>
    simp only [Mark.leaves_append]
    exact ih.frame
  | reviewed inner seen ih =>
    apply ih.reviewed
    intro state value after run
    rw [seen state value after run]

end Renumbering

end MacroScript
