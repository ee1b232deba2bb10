import MacroScript.Grammar.MacroNode
import MacroScript.Proofs.Balanced
import MacroScript.Proofs.Leaf
import Mathlib.Tactic.Common

/-!
# What a parser with macros does

A parser that knows macros moves its cursor forward and touches its context in few
ways: it binds and looks up names, takes the arguments of calls, notes and declares
macros, and opens and closes scopes.  `Step` says what each of these does, and a
`Walk` is a series of them in which scopes are closed as they were opened.

A walk lists the leaves it produced, each with the index of the token at which it
was read.
-/

namespace MacroScript

/-! ## Cursors -/

namespace Cursor

variable {cursor : Cursor}

/-- The end of input is marked as such, and the position is not behind it. -/
structure Ready (cursor : Cursor) : Prop where
  finish : cursor.finish.isEnd = true
  inside : cursor.index ≤ cursor.tokens.size

/-- A cursor further on in the same tokens. -/
structure Forward (before after : Cursor) : Prop where
  tokens : after.tokens = before.tokens
  finish : after.finish = before.finish
  index : before.index ≤ after.index
  inside : after.index ≤ before.tokens.size

namespace Forward

variable {before after : Cursor}

theorem refl {cursor : Cursor} (ready : cursor.Ready) : cursor.Forward cursor :=
  ⟨rfl, rfl, Nat.le_refl _, ready.inside⟩

theorem trans {first second third : Cursor} (one : first.Forward second)
    (two : second.Forward third) : first.Forward third where
  tokens := two.tokens.trans one.tokens
  finish := two.finish.trans one.finish
  index := Nat.le_trans one.index two.index
  inside := one.tokens ▸ two.inside

theorem ready (forward : before.Forward after) (ready : before.Ready) :
    after.Ready where
  finish := forward.finish ▸ ready.finish
  inside := forward.tokens ▸ forward.inside

theorem tokenAt (forward : before.Forward after) (index : Nat) :
    after.tokenAt index = before.tokenAt index := by
  simp only [Cursor.tokenAt, forward.tokens, forward.finish]

end Forward

theorem ready_ofTokens (tokens : List Token) : (ofTokens tokens).Ready := by
  unfold ofTokens
  split
  · exact ⟨rfl, Nat.zero_le _⟩
  · split
    · rename_i isEnd
      exact ⟨isEnd, Nat.zero_le _⟩
    · exact ⟨rfl, Nat.zero_le _⟩

theorem ofTokens_index (tokens : List Token) : (ofTokens tokens).index = 0 := by
  unfold ofTokens
  split
  · rfl
  · split <;> rfl

namespace Ready

variable {index : Nat} {text : String}
variable (ready : cursor.Ready)
include ready

/-- A token that is not the end of input is a token of the list. -/
theorem lt_of_not_end (notEnd : (cursor.tokenAt index).isEnd = false) :
    index < cursor.tokens.size := by
  by_contra outside
  have past : cursor.tokens[index]? = none := by
    simpa using outside
  rw [Cursor.tokenAt, past, Option.getD_none, ready.finish] at notEnd
  cases notEnd

theorem lt_of_isName (isName : (cursor.tokenAt index).isName = true) : index < cursor.tokens.size :=
  ready.lt_of_not_end (Token.isEnd_of_isName isName)

theorem lt_of_isPunct (isPunct : (cursor.tokenAt index).isPunct text = true) :
    index < cursor.tokens.size :=
  ready.lt_of_not_end (Token.isEnd_of_isPunct isPunct)

theorem lt_of_isReserved (isReserved : (cursor.tokenAt index).isReserved text = true) :
    index < cursor.tokens.size :=
  ready.lt_of_not_end (Token.isEnd_of_isReserved isReserved)

theorem forward_advance : cursor.Forward cursor.advance := by
  unfold advance
  split
  · rename_i inside
    exact ⟨rfl, rfl, Nat.le_succ _, inside⟩
  · exact .refl ready

end Ready

theorem tokenAt_mem {index : Nat} (inside : index < cursor.tokens.size) :
    cursor.tokenAt index ∈ cursor.tokens := by
  rw [tokenAt, Array.getElem?_eq_getElem inside, Option.getD_some]
  exact Array.getElem_mem inside

theorem forward_succ (inside : cursor.index < cursor.tokens.size) :
    cursor.Forward { cursor with index := cursor.index + 1 } :=
  ⟨rfl, rfl, Nat.le_succ _, inside⟩

theorem advance_index_of_lt (inside : cursor.index < cursor.tokens.size) :
    cursor.advance.index = cursor.index + 1 := by
  simp [advance, inside]

end Cursor

/-- The name that a token spells, before it is colored. -/
def Token.identifier (token : Token) : Identifier :=
  { name := token.text, span := token.span }

namespace Grammar

/-! ## Steps -/

/-- A leaf with the index of the token at which it was read. -/
abbrev Place := Nat × Leaf

/-- The state of a parser that knows macros. -/
structure Reader where
  cursor : Cursor
  context : Context

namespace Reader

/-- The reader as a state of a parser. -/
def state (reader : Reader) : State :=
  { cursor := reader.cursor, context := some reader.context }

/-- Open a scope. -/
def enter (reader : Reader) : Reader :=
  { reader with context := reader.context.enterScope }

/-- Close a scope. -/
def exit (reader : Reader) : Reader :=
  { reader with context := reader.context.exitScope }

end Reader

/-- From a cursor up to another one a macro is written: a word, the name, an opening brace, the
rules and a last token. -/
structure WritesMacro (name : Identifier) (rules : List Rule) (cursor next : Cursor) : Prop where
  named : cursor.advance.peek.identifier = name
  opens : cursor.advance.advance.peek.isPunct "\x7b" = true
  read : ∃ last,
    rulesOf name.name (cursor.advance.advance.advance.remaining + 1)
        ⟨cursor.advance.advance.advance, none⟩ = .ok rules ⟨last, none⟩ ∧ last.advance = next

/-- One action of a parser that knows macros, with the leaf it produces. -/
inductive Step : Reader → List Place → Reader → Prop
  /-- Read tokens. -/
  | move {cursor : Cursor} {context : Context} {next : Cursor} (forward : cursor.Forward next) :
      Step ⟨cursor, context⟩ [] ⟨next, context⟩
  /-- Read a name that introduces a binding. -/
  | binding {cursor : Cursor} {context bound : Context} {color : Option Color}
      (isName : cursor.peek.isName = true)
      (binds : context.bindName cursor cursor.index cursor.peek.text = .ok bound)
      (colored : bound.tokenColor cursor cursor.index cursor.peek.text = .ok color) :
      Step ⟨cursor, context⟩
        [(cursor.index, .binding (cursor.peek.identifier.applyColor? color))]
        ⟨cursor.advance, bound⟩
  /-- Read a name that refers to a binding. -/
  | reference {cursor : Cursor} {context : Context} {color : Option Color}
      (isName : cursor.peek.isName = true)
      (colored : context.tokenColor cursor cursor.index cursor.peek.text = .ok color) :
      Step ⟨cursor, context⟩
        [(cursor.index, .reference (cursor.peek.identifier.applyColor? color))]
        ⟨cursor.advance, context⟩
  /-- Read a call with its arguments. -/
  | call {cursor next : Cursor} {context : Context} {macroId : MacroId}
      {captured tokens rest : List Token}
      (isName : cursor.peek.isName = true)
      (found : context.findMacro? cursor.index cursor.peek.text = .ok (some macroId))
      (taken : cursor.tokens.toList.drop (cursor.index + 2) = captured ++ rest)
      (fixed : context.captureColors cursor (cursor.index + 2) captured = .ok tokens)
      (forward : cursor.Forward next)
      (behind : next.index = cursor.index + 2 + captured.length + 1) :
      Step ⟨cursor, context⟩
        [(cursor.index, .call
          { name := cursor.peek.identifier
            macroId
            tokens
            scopes := context.scopes
            span := cursor.peek.span.through next.previousSpan })]
        ⟨next, context⟩
  /-- Read the declaration of a macro. -/
  | declaration {cursor next : Cursor} {context : Context} {name : Identifier}
      {rules : List Rule}
      (forward : cursor.Forward next) (inside : cursor.index < next.index)
      (templates : ∀ rule ∈ rules, ∀ token ∈ rule.template, token ∈ cursor.tokens)
      (written : WritesMacro name rules cursor next) :
      Step ⟨cursor, context⟩
        [(cursor.index, .declaration
          { name
            macroId := context.session.macros.size
            span := cursor.peek.span.through next.previousSpan })]
        ⟨next, (context.mark context.scopes name.name none).declare name.name rules
          (cursor.peek.span.through next.previousSpan)⟩
  /-- Note the name of a macro whose declaration turns out to be none. -/
  | abandoned {cursor next : Cursor} {context : Context} {name : String}
      (forward : cursor.Forward next) :
      Step ⟨cursor, context⟩ [] ⟨next, context.mark context.scopes name none⟩

/-- A series of actions.  A scope that is opened is closed again. -/
inductive Walk : Reader → List Place → Reader → Prop
  | nil (reader : Reader) : Walk reader [] reader
  | step {reader after : Reader} {places : List Place} (step : Step reader places after) :
      Walk reader places after
  | append {reader middle after : Reader} {first second : List Place}
      (one : Walk reader first middle) (two : Walk middle second after) :
      Walk reader (first ++ second) after
  | enclosed {reader after : Reader} {places : List Place}
      (inner : Walk reader.enter places after) : Walk reader places after.exit

namespace Step

theorem forward {reader after : Reader} {places : List Place} (step : Step reader places after)
    (ready : reader.cursor.Ready) : reader.cursor.Forward after.cursor := by
  cases step with
  | move forward => exact forward
  | binding isName binds colored
  | reference isName colored => exact ready.forward_advance
  | call isName found taken fixed forward behind
  | declaration forward inside templates written
  | abandoned forward => exact forward

/-- A leaf is read where the cursor stood, and its token is read with it. -/
theorem places_inside {reader after : Reader} {places : List Place}
    (step : Step reader places after) (ready : reader.cursor.Ready) :
    places = [] ∨ ∃ leaf, places = [(reader.cursor.index, leaf)] ∧
      reader.cursor.index < after.cursor.index := by
  cases step with
  | move forward => exact .inl rfl
  | binding isName binds colored
  | reference isName colored =>
    refine .inr ⟨_, rfl, ?_⟩
    rw [Cursor.advance_index_of_lt (ready.lt_of_isName isName)]
    exact Nat.lt_succ_self _
  | call isName found taken fixed forward behind =>
    refine .inr ⟨_, rfl, ?_⟩
    simp only [behind]
    omega
  | declaration forward inside templates written => exact .inr ⟨_, rfl, inside⟩
  | abandoned forward => exact .inl rfl

end Step

namespace Walk

variable {reader after : Reader} {places : List Place}

theorem forward (walk : Walk reader places after) (ready : reader.cursor.Ready) :
    reader.cursor.Forward after.cursor := by
  induction walk with
  | nil reader => exact .refl ready
  | step step => exact step.forward ready
  | append one two first second =>
    have middleForward := first ready
    exact middleForward.trans (second (middleForward.ready ready))
  | enclosed inner ih => exact ih ready

/-- The leaves of a walk stand at increasing indices between its ends. -/
theorem ordered (walk : Walk reader places after) (ready : reader.cursor.Ready) :
    (places.map Prod.fst).Pairwise (· < ·) ∧
      ∀ place ∈ places, reader.cursor.index ≤ place.1 ∧ place.1 < after.cursor.index := by
  induction walk with
  | nil reader => simp
  | step step =>
    rcases step.places_inside ready with rfl | ⟨leaf, rfl, inside⟩
    · simp
    · simpa using inside
  | @append reader middle after firsts seconds one two first second =>
    have oneForward := one.forward ready
    have twoForward := two.forward (oneForward.ready ready)
    obtain ⟨firstOrdered, firstInside⟩ := first ready
    obtain ⟨secondOrdered, secondInside⟩ := second (oneForward.ready ready)
    constructor
    · rw [List.map_append, List.pairwise_append]
      refine ⟨firstOrdered, secondOrdered, ?_⟩
      simp only [List.mem_map, forall_exists_index, and_imp]
      rintro _ place placeMem rfl _ later laterMem rfl
      exact Nat.lt_of_lt_of_le (firstInside place placeMem).2 (secondInside later laterMem).1
    · intro place placeMem
      rcases List.mem_append.mp placeMem with early | late
      · obtain ⟨low, high⟩ := firstInside place early
        exact ⟨low, Nat.lt_of_lt_of_le high twoForward.index⟩
      · obtain ⟨low, high⟩ := secondInside place late
        exact ⟨Nat.le_trans oneForward.index low, high⟩
  | enclosed inner ih => exact ih ready

end Walk

end Grammar

end MacroScript
