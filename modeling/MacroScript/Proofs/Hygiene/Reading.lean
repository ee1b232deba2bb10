import MacroScript.Proofs.Hygiene.Soundness
import MacroScript.Proofs.Outcome
import MacroScript.Proofs.Reading.Statement

/-!
# Reading in a session

Running a parser in a session is a walk that begins in a new scope.  Without hygiene the
walk is quiet: it adds scopes and macros, and leaves the scopes and the last color that
were there as they were.
-/

namespace MacroScript

open MacroScript.Grammar

/-- A change of a session that only adds scopes and macros. -/
structure Session.Quiet (before after : Session) : Prop where
  grows : before.Grows after
  scopes : after.scopes.AgreeBelow before.scopes.size before.scopes
  color : after.lastColor = before.lastColor

namespace Session.Quiet

theorem refl (session : Session) : session.Quiet session :=
  ⟨.refl _, .refl _, rfl⟩

theorem trans {first second third : Session} (one : first.Quiet second)
    (two : second.Quiet third) : first.Quiet third where
  grows := one.grows.trans two.grows
  scopes := (two.scopes.mono one.grows.scopes).trans one.scopes
  color := two.color.trans one.color

end Session.Quiet

namespace Session

variable {session : Session} {tokens : List Token} {outer : ScopeStack}

/-- The parser that begins to read in a session. -/
def reader (session : Session) (tokens : List Token) (outer : ScopeStack)
    (hygiene : Option Hygiene) : Reader where
  cursor := .ofTokens tokens
  context :=
    { session := session.allocScope, scopes := session.scopes.size :: outer, hygiene }

theorem reader_state (session : Session) (tokens : List Token) (outer : ScopeStack)
    (hygiene : Option Hygiene) :
    (session.reader tokens outer hygiene).state = session.readerState tokens outer hygiene :=
  rfl

section Reader

variable {hygiene : Option Hygiene}

theorem ready_reader : (session.reader tokens outer hygiene).cursor.Ready :=
  Cursor.ready_ofTokens tokens

theorem fresh_reader : (session.reader tokens outer hygiene).context.Fresh session.scopes.size where
  inside := (Grows.allocScope session).scopes
  innermost := ⟨_, _, rfl, Nat.le_refl _⟩

theorem tokens_reader_subset {token : Token}
    (mem : token ∈ (session.reader tokens outer hygiene).cursor.tokens) : token ∈ tokens := by
  change token ∈ (Cursor.ofTokens tokens).tokens at mem
  unfold Cursor.ofTokens at mem
  split at mem
  · simp at mem
  · split at mem
    · exact List.dropLast_subset tokens (List.mem_toArray.mp mem)
    · exact List.mem_toArray.mp mem

theorem sound_reader (sound : session.Sound) (inside : ∀ id ∈ outer, id < session.scopes.size)
    (givenOut : ∀ token ∈ tokens, GivenOut session.lastColor token.color)
    (unclaimed : ∀ first, hygiene = some first → first.color = none) :
    (session.reader tokens outer hygiene).Sound where
  session := sound.allocScope
  scopes := by
    refine ⟨List.cons_ne_nil _ _, ?_⟩
    intro id mem
    have size : session.allocScope.scopes.size = session.scopes.size + 1 :=
      ScopeStore.size_alloc _
    rw [show (session.reader tokens outer hygiene).context.session = session.allocScope from rfl,
      size]
    rcases List.mem_cons.mp mem with rfl | old
    · exact Nat.lt_succ_self _
    · exact Nat.lt_succ_of_lt (inside id old)
  tokens token mem := givenOut token (tokens_reader_subset mem)
  hygiene hygienic := by
    rw [unclaimed _ hygienic]
    exact GivenOut.none

end Reader

/-! ## Runs -/

/-- A parser that came to a value has walked. -/
theorem read_eq_ok {α : Type} {parser : Parser α} {view : α → List Leaf}
    (yields : Yields parser view) {after : Session} {hygiene : Option Hygiene} {value : α}
    {state : State} (run : read parser tokens outer hygiene session = .ok (value, state) after) :
    ∃ final places, state = final.state ∧ after = final.context.session ∧
      Walk (session.reader tokens outer hygiene) places final ∧
        view value = places.map Prod.snd := by
  have walked := yields (session.reader tokens outer hygiene) ready_reader
  unfold read at run
  rw [reader_state] at walked
  cases outcome : parser (session.readerState tokens outer hygiene) with
  | error fault state => simp [outcome] at run
  | ok result last =>
    rw [outcome] at walked run
    obtain ⟨final, places, rfl, walk, seen⟩ := walked
    simp only [EStateM.Result.ok.injEq, Prod.mk.injEq] at run
    obtain ⟨⟨rfl, rfl⟩, rfl⟩ := run
    exact ⟨final, places, rfl, rfl, walk, seen⟩

/-- A plain walk in a session is quiet. -/
theorem quiet_of_walk {places : List Place} {final : Reader}
    (walk : Walk (session.reader tokens outer none) places final) :
    session.Quiet final.context.session := by
  have advances := walk.advances fresh_reader.nonempty
  exact
    { grows := (Grows.allocScope session).trans advances.grows
      scopes := (walk.plain fresh_reader rfl).trans (.alloc (Nat.le_refl _))
      color := advances.claims.of_none.2 }

end Session

end MacroScript
