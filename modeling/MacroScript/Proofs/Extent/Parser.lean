import MacroScript.Proofs.Hygiene.Progress
import MacroScript.Proofs.Reading.MacroNode

/-!
# Extents

A parser makes spans from the spans of its tokens: it runs from the start of one to the end of
another, which need not be in order when the tokens come from different places.  An `Extent` is
a set of spans that is closed under this.

When the tokens of a parser and the macros it knows lie within an extent, so do the spans it
comes to and the places its faults point at.
-/

namespace MacroScript

open MacroScript.Outcome

/-- A set of spans that contains what parsers make from its members. -/
structure Extent where
  Contains : Span → Prop
  /-- Whether there may be macros. -/
  Macros : Prop
  through {first last : Span} (begins : Contains first) (ends : Contains last) :
    Contains (first.through last)

namespace Extent

variable (e : Extent) {span : Span}

/-- The extent contains what is made in expansions too.  Tokens are read that do not end with the
end of input, which is put behind the last of them. -/
structure Expands : Prop where
  macros : e.Macros
  nowhere : e.Contains .nowhere
  behind {span : Span} (contains : e.Contains span) (line column : Nat) :
    e.Contains (.point span.stop line column)

/-! ## What lies within an extent -/

abbrev ContainsToken (token : Token) : Prop :=
  e.Contains token.span

def ContainsTokens (tokens : List Token) : Prop :=
  ∀ token ∈ tokens, e.Contains token.span

mutual

/-- Only the spans that faults can point at matter. -/
def ContainsElement : PatternElement → Prop
  | .token _ => True
  | .capture _ _ span => e.Contains span
  | .repetition content _ span => e.Contains span ∧ ContainsPattern content

def ContainsPattern : List PatternElement → Prop
  | [] => True
  | element :: rest => ContainsElement element ∧ ContainsPattern rest

end

structure ContainsRule (rule : Rule) : Prop where
  pattern : e.ContainsPattern rule.pattern
  template : e.ContainsTokens rule.template

/-- All macros that the session knows lie within the extent. -/
structure ContainsSession (session : Session) : Prop where
  allowed : e.Macros
  rules : ∀ id definition, session.macros.get? id = some definition →
    ∀ rule ∈ definition.rules, e.ContainsRule rule

structure ContainsCursor (cursor : Cursor) : Prop where
  tokens : ∀ token ∈ cursor.tokens, e.Contains token.span
  finish : e.Contains cursor.finish.span

structure ContainsState (state : Grammar.State) : Prop where
  ready : state.cursor.Ready
  cursor : e.ContainsCursor state.cursor
  session : ∀ context, state.context = some context → e.ContainsSession context.session

/-- The places that a fault points at.  Only a fault of the compiler itself may have none. -/
structure ContainsFault (fault : Fault) : Prop where
  span : ∀ span, fault.span = some span → e.Contains span
  notes : ∀ note ∈ fault.notes, e.Contains note.span
  placed : fault.cause.kind ≠ .internal → ∃ span, fault.span = some span

variable {e}

section

variable (contains : e.Contains span)
include contains

theorem containsFault_of_span {fault : Fault} (place : fault.span = some span)
    (alone : fault.notes = []) : e.ContainsFault fault where
  span other found := by
    obtain rfl := Option.some.inj (place.symm.trans found)
    exact contains
  notes := by simp [alone]
  placed _ := ⟨span, place⟩

theorem containsFault_malformed (problem : SourceProblem) :
    e.ContainsFault (.malformed span problem) :=
  containsFault_of_span contains rfl rfl

theorem containsFault_expansion (name : String) (problem : ExpansionProblem) :
    e.ContainsFault (.expansion name span problem) :=
  containsFault_of_span contains rfl rfl

theorem containsFault_internal (problem : InternalProblem) :
    e.ContainsFault (.internal span problem) :=
  containsFault_of_span contains rfl rfl

end

/-! ## Cursors -/

namespace ContainsCursor

variable {cursor : Cursor}

theorem tokenAt (contains : e.ContainsCursor cursor) (index : Nat) :
    e.Contains (cursor.tokenAt index).span := by
  unfold Cursor.tokenAt
  cases found : cursor.tokens[index]? with
  | none => exact contains.finish
  | some token => exact contains.tokens token (Array.mem_of_getElem? found)

theorem previousSpan (contains : e.ContainsCursor cursor) : e.Contains cursor.previousSpan := by
  unfold Cursor.previousSpan
  cases found : cursor.previous? with
  | none => exact contains.finish
  | some token =>
    unfold Cursor.previous? at found
    split at found
    · cases found
    · exact contains.tokens token (Array.mem_of_getElem? found)

theorem rest (contains : e.ContainsCursor cursor) : e.ContainsTokens cursor.rest :=
  fun token mem => contains.tokens token (Array.mem_toList_iff.mp (List.mem_of_mem_drop mem))

/-- The end of input is the last token, or it is put behind it. -/
theorem ofTokens {tokens : List Token} (contains : e.ContainsTokens tokens)
    (ends : e.Expands ∨ ∃ last, tokens.getLast? = some last ∧ last.isEnd = true) :
    e.ContainsCursor (.ofTokens tokens) := by
  unfold Cursor.ofTokens
  split
  · rename_i nothing
    rcases ends with expands | ⟨last, found, -⟩
    · exact ⟨by simp, expands.nowhere⟩
    · rw [nothing] at found
      cases found
  · rename_i last found
    have mem : last ∈ tokens := List.mem_of_getLast? found
    split
    · constructor
      · intro token tokenMem
        exact contains token (List.dropLast_subset tokens (List.mem_toArray.mp tokenMem))
      · exact contains last mem
    · rename_i goesOn
      constructor
      · intro token tokenMem
        exact contains token (List.mem_toArray.mp tokenMem)
      · rcases ends with expands | ⟨other, otherFound, isEnd⟩
        · exact expands.behind (contains last mem) _ _
        · obtain rfl := Option.some.inj (found.symm.trans otherFound)
          exact absurd isEnd goesOn

end ContainsCursor

/-! ## Sessions -/

namespace ContainsSession

variable {session : Session}

theorem of_macros {other : Session} (contains : e.ContainsSession session)
    (same : other.macros = session.macros) : e.ContainsSession other := by
  refine ⟨contains.allowed, ?_⟩
  rw [same]
  exact contains.rules

theorem empty (allowed : e.Macros) : e.ContainsSession {} := by
  refine ⟨allowed, ?_⟩
  intro id definition found
  simp [Registry.get?] at found

theorem declareMacro (contains : e.ContainsSession session) (scope : ScopeId)
    {definition : MacroDef} (rules : ∀ rule ∈ definition.rules, e.ContainsRule rule) :
    e.ContainsSession (session.declareMacro scope definition) := by
  refine ⟨contains.allowed, ?_⟩
  intro id other found
  rcases Array.mem_push.mp (Array.mem_of_getElem? found) with old | rfl
  · obtain ⟨place, known⟩ := Array.getElem?_of_mem old
    exact contains.rules place other known
  · exact rules

end ContainsSession

/-! ## Parsers -/

/-- The parser stays within the extent, whether it comes to a `good` value or to a fault. -/
abbrev Bounds {α : Type} (e : Extent) (good : α → Prop) (parser : Grammar.Parser α) : Prop :=
  Stays e.ContainsState e.ContainsFault (fun value _ => good value) parser

/-- All spans, with macros. -/
def all : Extent :=
  ⟨fun _ => True, True, fun _ _ => trivial⟩

mutual

theorem containsElement_all (element : PatternElement) : all.ContainsElement element := by
  cases element with
  | token
  | capture => exact trivial
  | repetition content separator span => exact ⟨trivial, containsPattern_all content⟩

theorem containsPattern_all (elements : List PatternElement) : all.ContainsPattern elements := by
  cases elements with
  | nil => exact trivial
  | cons element rest => exact ⟨containsElement_all element, containsPattern_all rest⟩

end

theorem containsState_all {state : Grammar.State} (ready : state.cursor.Ready) :
    all.ContainsState state where
  ready := ready
  cursor := ⟨fun _ _ => trivial, trivial⟩
  session _ _ :=
    ⟨trivial, fun _ _ _ rule _ => ⟨containsPattern_all rule.pattern, fun _ _ => trivial⟩⟩

end Extent

end MacroScript
