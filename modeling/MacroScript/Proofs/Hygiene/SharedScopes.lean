import MacroScript.Proofs.Hygiene.Run

/-!
# Colors of other expansions

A name of a body should keep its spelling or get the color of its own expansion.  The
name is looked up in the scopes of the macro's declaration, which live as long as the
session.  All expansions record their bindings in such scopes, so a body may be shown
the color that an earlier expansion has left there.

The color of a name is therefore told from the history: replay what the earlier
expansions have recorded, and what the expansion itself has recorded up to the name.
-/

namespace MacroScript

open MacroScript.Grammar MacroScript.Outcome

namespace Performed

/-- The color that the scopes of the declaration show for a name at an index, when the given
expansions came before. -/
def shown (performed : Performed) (store : ScopeStore) (earlier : List Performed)
    (name : String) (limit : Nat) : Option Color :=
  (store.replay (earlier.flatMap decisions ++ performed.decisionsUpTo limit)).findColor?
    performed.definition.scopes name

end Performed

namespace Run

variable {calls rest : List Invocation} {start : Session} {earlier : List Performed}
  {performed : Performed} {place : Place} {index : Nat} {color : Option Color}
variable (run : Run calls start earlier (performed.call :: rest) performed.before)
include run

/-- The scopes of a macro that was declared before the run were there when it began. -/
theorem scopes_of_declared (startSound : start.Sound)
    (declared : performed.call.macroId < start.macros.size) :
    ∀ id ∈ performed.definition.scopes, id < start.scopes.size := by
  have found : start.macros.get? performed.call.macroId =
      some (start.macros.definitions[performed.call.macroId]) :=
    Array.getElem?_eq_getElem declared
  have same := run.grows.macros found
  rw [performed.known, Option.some.injEq] at same
  rw [← same] at found
  intro id mem
  exact (startSound.scopes found).inside mem

/-- A name of the body has the color that the history shows. -/
theorem color_eq_shown (startSound : start.Sound) (callsSound : ∀ call ∈ calls, call.Sound start)
    (declared : performed.call.macroId < start.macros.size) (mem : place ∈ performed.places)
    (uses : Uses performed.tokens place index color) (body : performed.origin? index = some .body) :
    color = performed.shown start.scopes earlier (performed.tokens index).text place.1 := by
  have inside := run.scopes_of_declared startSound declared
  have beforeInside := Performed.scopes_inside (run.sound startSound callsSound).1
  rcases performed.resolves beforeInside mem uses with ⟨-, found⟩ | ⟨invocation, -⟩
  · have agree := (run.store startSound callsSound).replay (performed.decisionsUpTo place.1)
    rw [Performed.shown, ScopeStore.replay_append]
    exact found.trans (agree.findColor? inside _)
  · cases body.symm.trans invocation

/-- The color of a name of the body was given out when the expansion is done. -/
theorem givenOut_of_uses (startSound : start.Sound)
    (callsSound : ∀ call ∈ calls, call.Sound start) (mem : place ∈ performed.places)
    (uses : Uses performed.tokens place index color) (body : performed.origin? index = some .body) :
    GivenOut performed.after.lastColor color := by
  obtain ⟨beforeSound, waitingSound⟩ := run.sound startSound callsSound
  have inside := Performed.scopes_inside beforeSound
  have givenOut : ∀ decision ∈ performed.decisionsUpTo place.1,
      GivenOut performed.after.lastColor decision.color := by
    intro decision decisionMem
    apply performed.givenOut_decisions (waitingSound _ List.mem_cons_self)
    obtain ⟨recorder, recorderMem, recorded⟩ := List.mem_filterMap.mp decisionMem
    exact List.mem_filterMap.mpr
      ⟨recorder, (performed.mem_placesUpTo.mp recorderMem).1, recorded⟩
  have sound := (beforeSound.later performed.grows.colors).replay givenOut
  rcases performed.resolves inside mem uses with ⟨-, found⟩ | ⟨invocation, -⟩
  · rw [found]
    exact sound.findColor? _ _
  · cases body.symm.trans invocation

/-- The color of an expansion was not given out before. -/
theorem color_fresh {color : Color} (own : performed.color = some color) :
    start.lastColor < color ∧ ∀ other ∈ earlier, other.color ≠ some color := by
  have above : performed.before.lastColor < color := by
    rcases performed.claims.2 with ⟨none, -⟩ | ⟨next, -⟩
    · cases none.symm.trans own
    · rw [← Option.some.inj (next.symm.trans own)]
      exact Nat.lt_succ_self _
  refine ⟨Nat.lt_of_le_of_lt run.grows.colors above, ?_⟩
  intro other otherMem same
  have below := ((run.color_iff color).mpr ⟨other, otherMem, same⟩).2
  exact Nat.not_le_of_lt above below

/-- A color that is given out when an expansion is done is its own, or it was given out before. -/
theorem own_of_new {color : Color} (givenOut : color ≤ performed.after.lastColor)
    (new : start.lastColor < color ∧ ∀ other ∈ earlier, other.color ≠ some color) :
    performed.color = some color := by
  have above : ¬color ≤ performed.before.lastColor := by
    intro old
    obtain ⟨other, otherMem, same⟩ := (run.color_iff color).mp ⟨new.1, old⟩
    exact new.2 other otherMem same
  rcases performed.claims.2 with ⟨-, last⟩ | ⟨next, last⟩
  · exact absurd (last ▸ givenOut) above
  · rw [next, Option.some.injEq]
    rw [last] at givenOut
    exact Nat.le_antisymm (Nat.lt_of_not_le above) givenOut

end Run

/-- In every expansion of a macro that the source declares, a name of the body is used with the
color that the history shows.  It keeps its spelling or gets the color of its own expansion
exactly if that color was not given out before. -/
theorem body_keeps_spelling_or_own_color_iff {source : String} {start session : Session}
    {program : Program} (sound : start.Sound)
    (read : Session.readProgram source start = .ok program session) :
    (∀ options expanded after, compile options program session = .ok expanded after →
      ∃ history, Run (Leaf.calls (Leaf.ofProgram program)) session history [] after ∧
        ∀ earlier performed later, history = earlier ++ performed :: later →
          ∃ rest, Run (Leaf.calls (Leaf.ofProgram program)) session earlier
            (performed.call :: rest) performed.before) ∧
      ∀ (earlier : List Performed) (performed : Performed) (rest : List Invocation),
        Run (Leaf.calls (Leaf.ofProgram program)) session earlier (performed.call :: rest)
            performed.before →
          performed.call.macroId < session.macros.size →
            ∀ place ∈ performed.places, ∀ index, Mentions place index →
              performed.origin? index = some .body →
                ∃ color, Uses performed.tokens place index color ∧
                  color = performed.shown session.scopes earlier
                    (performed.tokens index).text place.1 ∧
                  ((color = none ∨ color = performed.color) ↔
                    ∀ given, color = some given → session.lastColor < given ∧
                      ∀ other ∈ earlier, other.color ≠ some given) := by
  obtain ⟨sessionSound, callsSound⟩ := Session.sound_readProgram sound read
  constructor
  · intro options expanded after compiled
    obtain ⟨history, run, -⟩ := Run.of_compile compiled
    exact ⟨history, run, fun earlier performed later split => run.reached split⟩
  · intro earlier performed rest run declared place mem index mentions body
    obtain ⟨color, uses⟩ := (performed.madeOf place mem).exists_uses mentions
    refine ⟨color, uses, run.color_eq_shown sessionSound callsSound declared mem uses body, ?_⟩
    have givenOut := run.givenOut_of_uses sessionSound callsSound mem uses body
    constructor
    · rintro (rfl | own) given isGiven
      · cases isGiven
      · exact run.color_fresh (own.symm.trans isGiven)
    · intro new
      cases color with
      | none => exact .inl rfl
      | some given =>
        exact .inr (run.own_of_new (givenOut given rfl) (new given rfl)).symm

/-! ## Two calls in a row -/

/-- A macro with a binding that is called twice. -/
def calledTwice : String :=
  "macro m \x7b () => \x7b let t; \x7d \x7d m(); m();"

/-- A macro that is called twice gets a color of its own each time. -/
theorem calledTwice_own_color :
    ∃ program session, ∃ one two : Performed,
      Session.readProgram calledTwice {} = .ok program session ∧
        Run (Leaf.calls (Leaf.ofProgram program)) session [one] [two.call] two.before ∧
          two.call.macroId < session.macros.size ∧
            ∃ place ∈ two.places, ∃ index, Mentions place index ∧
              two.origin? index = some .body ∧ Uses two.tokens place index (some 2) ∧
                two.color = some 2 ∧
                  two.shown session.scopes [one] (two.tokens index).text place.1 = some 2 ∧
                    session.lastColor < 2 ∧ one.color ≠ some 2 := by
  let own : Identifier := { name := "t", span := ⟨22, 23, 1, 22⟩ }
  have passed : endsWith (fun program session => firstEndsWith (fun _ one =>
      firstEndsWith (fun second two _ =>
        (Leaf.calls (Leaf.ofProgram program)).length == 2 &&
          decide (second.macroId < session.macros.size) && second.tokens.isEmpty &&
          Leaf.ofProgram one.program == [.binding (own.applyColor 1)] &&
            two.color == some 2 &&
              Leaf.ofProgram two.program == [.binding (own.applyColor 2)])
        expand (Leaf.calls (Leaf.ofProgram program)).tail)
      expand (Leaf.calls (Leaf.ofProgram program)) session)
      (Session.readProgram calledTwice {}) = true := by
    decide +kernel
  obtain ⟨program, session, readRun, firstPassed⟩ := exists_ok_of_endsWith passed
  obtain ⟨first, rest, oneResult, middle, calls_eq, oneRun, secondPassed⟩ :=
    exists_ok_of_firstEndsWith firstPassed
  rw [calls_eq, List.tail_cons] at secondPassed
  obtain ⟨second, others, twoResult, after, rfl, twoRun, holds⟩ :=
    exists_ok_of_firstEndsWith secondPassed
  simp only [Bool.and_eq_true, decide_eq_true_eq, beq_iff_eq, List.isEmpty_iff] at holds
  obtain ⟨⟨⟨⟨⟨both, declared⟩, noArguments⟩, oneLeaves⟩, twoColor⟩, twoLeaves⟩ := holds
  obtain rfl : others = [] := List.eq_nil_of_length_eq_zero (by simpa using both)
  obtain ⟨one, rfl, rfl, oneProgram, -, rfl⟩ := exists_performed oneRun
  obtain ⟨two, rfl, twoBefore, twoProgram, twoColor_eq, -⟩ := exists_performed twoRun
  have begins : Run (Leaf.calls (Leaf.ofProgram program)) one.before [] [one.call, two.call]
      one.before := by
    rw [← calls_eq]
    exact .start
  have run : Run (Leaf.calls (Leaf.ofProgram program)) one.before [one] [two.call] two.before := by
    have expanded := begins.expand
    rw [oneProgram, oneLeaves] at expanded
    rw [twoBefore]
    exact expanded
  obtain ⟨sound, callsSound⟩ := Session.sound_readProgram .empty readRun
  have twoInside := Performed.scopes_inside (run.sound sound callsSound).1
  have seen := two.leaves
  rw [twoProgram, twoLeaves] at seen
  obtain ⟨⟨index, leaf⟩, places, places_eq, rfl, -⟩ := List.map_eq_cons_iff.mp seen.symm
  have mem : (index, Leaf.binding (own.applyColor 2)) ∈ two.places := by simp [places_eq]
  obtain ⟨mentions, uses, body, token_eq⟩ :=
    two.of_colored_leaf twoInside (by simp [noArguments]) (.inl rfl) rfl mem
  obtain ⟨color, colorUses, color_eq, isOwn⟩ :=
    (body_keeps_spelling_or_own_color_iff .empty readRun).2 [one] two [] run declared _ mem index
      mentions body
  have sameColor : Uses two.tokens
      (index, .binding ((two.tokens index).identifier.applyColor? (some 2))) index color := by
    rw [token_eq]
    exact colorUses
  obtain ⟨-, rfl⟩ := sameColor.of_binding
  have two_color : two.color = some 2 := twoColor_eq.trans twoColor
  have new := isOwn.mp (.inr two_color.symm) 2 rfl
  exact ⟨program, one.before, one, two, readRun, run, declared, _, mem, index, mentions, body, uses,
    two_color, color_eq.symm, new.1, new.2 one List.mem_cons_self⟩

/-- A macro that binds a name, and one in which the name is free. -/
def boundThenFree : String :=
  "macro a \x7b () => \x7b let t = 1; \x7d \x7d macro b \x7b () => \x7b f(t); \x7d \x7d a(); b();"

/-- The second macro binds nothing, and its free name gets the color of the first expansion. -/
theorem freeName_captured :
    ∃ program session first second one middle two after,
      Session.readProgram boundThenFree {} = .ok program session ∧
        Leaf.calls (Leaf.ofProgram program) = [first, second] ∧
          expand first session = .ok one middle ∧ one.color = some 1 ∧
            expand second middle = .ok two after ∧ two.color = none ∧
              Leaf.ofProgram two.program =
                [.reference { name := "f", span := ⟨51, 52, 1, 51⟩ },
                  .reference { name := "t_1", span := ⟨53, 54, 1, 53⟩, sourceName := some "t" }] := by
  have passed : endsWith (fun program => firstEndsWith (fun _ one =>
      firstEndsWith (fun _ two _ => (Leaf.calls (Leaf.ofProgram program)).length == 2 &&
        one.color == some 1 && two.color == none && Leaf.ofProgram two.program ==
          [.reference { name := "f", span := ⟨51, 52, 1, 51⟩ },
            .reference { name := "t_1", span := ⟨53, 54, 1, 53⟩, sourceName := some "t" }])
        expand (Leaf.calls (Leaf.ofProgram program)).tail)
      expand (Leaf.calls (Leaf.ofProgram program)))
      (Session.readProgram boundThenFree {}) = true := by
    decide +kernel
  obtain ⟨program, session, readRun, firstPassed⟩ := exists_ok_of_endsWith passed
  obtain ⟨first, rest, one, middle, calls_eq, oneRun, secondPassed⟩ :=
    exists_ok_of_firstEndsWith firstPassed
  rw [calls_eq, List.tail_cons] at secondPassed
  obtain ⟨second, others, two, after, rfl, twoRun, holds⟩ :=
    exists_ok_of_firstEndsWith secondPassed
  simp only [Bool.and_eq_true, beq_iff_eq] at holds
  obtain ⟨⟨⟨both, oneColor⟩, twoColor⟩, leaves⟩ := holds
  obtain rfl : others = [] := List.eq_nil_of_length_eq_zero (by simpa using both)
  exact ⟨program, session, first, second, one, middle, two, after, readRun, calls_eq, oneRun,
    oneColor, twoRun, twoColor, leaves⟩

end MacroScript
