import MacroScript.Proofs.Hygiene.Unfolding

/-!
# Runs of expansions

Compiling a program expands its calls from left to right.  The calls of an expansion come
before those that were waiting.  A run is the history of the expansions so far, with the
calls that wait and the session that was reached.

Whatever a run has reached is sound.  The scopes that were there when it began hold what
its expansions recorded, in order, and the colors given out since then belong to its
expansions.
-/

namespace MacroScript

open MacroScript.Grammar MacroScript.Outcome

/-- The expansions that lead from calls in a session to the calls and the session at the end.
The trace of the session may be changed in between. -/
inductive Run (calls : List Invocation) (start : Session) :
    List Performed → List Invocation → Session → Prop
  | start : Run calls start [] calls start
  | retrace {history : List Performed} {waiting : List Invocation} {session : Session}
      (run : Run calls start history waiting session) (trace : Array TraceStep) :
      Run calls start history waiting { session with trace }
  | expand {history : List Performed} {performed : Performed} {rest : List Invocation}
      (run : Run calls start history (performed.call :: rest) performed.before) :
      Run calls start (history ++ [performed])
        (Leaf.calls (Leaf.ofProgram performed.program) ++ rest) performed.after

namespace Run

variable {calls waiting : List Invocation} {start session after : Session}
  {history : List Performed} {recordTrace : Bool} {step : Option Nat} {program expanded : Program}
  {leaves unfolded : List Leaf} {options : CompileOptions}

/-! ## What a run preserves -/

section

variable (run : Run calls start history waiting session)
include run

theorem grows : start.Grows session := by
  induction run with
  | start => exact .refl _
  | retrace run trace ih => exact ⟨ih.scopes, ih.macros, ih.colors⟩
  | @expand history performed rest run ih => exact ih.trans performed.grows

/-- Sessions stay sound, and so do the calls that wait. -/
theorem sound (startSound : start.Sound) (callsSound : ∀ call ∈ calls, call.Sound start) :
    session.Sound ∧ ∀ call ∈ waiting, call.Sound session := by
  induction run with
  | start => exact ⟨startSound, callsSound⟩
  | retrace run trace ih =>
    obtain ⟨sessionSound, waitingSound⟩ := ih
    constructor
    · exact ⟨sessionSound.scopes, sessionSound.templates, sessionSound.marks⟩
    · intro call mem
      exact ⟨(waitingSound call mem).scopes, (waitingSound call mem).tokens⟩
  | @expand history performed rest run ih =>
    obtain ⟨beforeSound, waitingSound⟩ := ih
    obtain ⟨callSound, restSound⟩ := List.forall_mem_cons.mp waitingSound
    obtain ⟨afterSound, newSound⟩ := performed.sound beforeSound callSound
    refine ⟨afterSound, ?_⟩
    intro call mem
    rcases List.mem_append.mp mem with new | old
    · rw [Leaf.mem_calls, performed.leaves, List.mem_map] at new
      obtain ⟨⟨index, leaf⟩, place, rfl⟩ := new
      exact newSound index call place
    · exact (restSound call old).grows performed.grows

/-- The scopes that were there at the start hold what the expansions recorded. -/
theorem store (startSound : start.Sound) (callsSound : ∀ call ∈ calls, call.Sound start) :
    session.scopes.AgreeBelow start.scopes.size
      (start.scopes.replay (history.flatMap Performed.decisions)) := by
  induction run with
  | start => exact .refl _
  | retrace run trace ih => exact ih
  | @expand history performed rest run ih =>
    have inside := Performed.scopes_inside (run.sound startSound callsSound).1
    have recorded := (performed.resolved inside).1.mono run.grows.scopes
    rw [List.flatMap_append, List.flatMap_singleton, ScopeStore.replay_append]
    exact recorded.trans (ih.replay performed.decisions)

/-- The colors given out during a run are those of its expansions. -/
theorem color_iff (color : Color) :
    (start.lastColor < color ∧ color ≤ session.lastColor) ↔
      ∃ performed ∈ history, performed.color = some color := by
  induction run with
  | start => simp
  | retrace run trace ih => exact ih
  | @expand history performed rest run ih =>
    have first := run.grows.colors
    simp only [List.mem_append, List.mem_singleton, or_and_right, exists_or, exists_eq_left]
    rw [← ih]
    rcases performed.claims.2 with ⟨none, last⟩ | ⟨claimed, last⟩
    · rw [none, last]
      simp
    · rw [claimed, last, Option.some.injEq]
      have next : ∀ low high given : Nat, low ≤ high →
          ((low < given ∧ given ≤ high + 1) ↔
            ((low < given ∧ given ≤ high) ∨ high + 1 = given)) := by
        omega
      exact next _ _ color first

/-- Every expansion of a history was performed where the run had come by then. -/
theorem reached {earlier later : List Performed} {performed : Performed}
    (split : history = earlier ++ performed :: later) :
    ∃ rest, Run calls start earlier (performed.call :: rest) performed.before := by
  induction run generalizing later with
  | start => simp at split
  | retrace run trace ih => exact ih split
  | @expand history last rest run ih =>
    rcases List.eq_nil_or_concat later with rfl | ⟨front, final, rfl⟩
    · obtain ⟨rfl, same⟩ := List.append_inj' split rfl
      obtain rfl : last = performed := List.singleton_inj.mp same
      exact ⟨rest, run⟩
    · rw [List.concat_eq_append, ← List.cons_append, ← List.append_assoc] at split
      exact ih (List.append_inj' split rfl).1

/-! ## Compiling is a run -/

theorem of_beginStep {call : Invocation}
    (begun : Compile.beginStep recordTrace call session = .ok step after) :
    Run calls start history waiting after := by
  unfold Compile.beginStep at begun
  split at begun
  · simp only [bind_eq_ok_iff, pure_eq_ok_iff] at begun
    obtain ⟨_, _, got, _, _, modified, -, rfl⟩ := begun
    cases got
    cases modified
    exact run.retrace _
  · cases begun
    exact run

theorem of_finishStep {color : Option Color}
    (finished : Compile.finishStep step color program session = .ok () after) :
    Run calls start history waiting after := by
  cases step with
  | none =>
    cases finished
    exact run
  | some number =>
    cases finished
    exact run.retrace _

end

/-- Leaves that unfold run through their calls. -/
theorem of_unfolds {new : List Performed} {rest : List Invocation}
    (run : Run calls start history (Leaf.calls leaves ++ rest) session)
    (unfolds : Unfolds recordTrace leaves session new unfolded after) :
    Run calls start (history ++ new) rest after := by
  induction unfolds generalizing history rest with
  | nil session =>
    rw [List.append_nil]
    exact run
  | @keep leaf leaves unfolded new session after kept _ ih =>
    rw [Leaf.calls_cons_of_not_macro kept] at run
    exact ih run
  | drop _ ih => exact ih run
  | @call performed result step leaves unfolded nested siblings session reached middle after begun _
      finished _ innerIh ih =>
      have own := (run.of_beginStep begun).expand
      have done := (innerIh own).of_finishStep finished
      have all := ih done
      rwa [List.append_assoc, List.append_assoc, List.singleton_append] at all

/-- When leaves have unfolded, no call waits. -/
theorem of_all_unfold (unfolds : Unfolds recordTrace leaves session history unfolded after) :
    Run (Leaf.calls leaves) session history [] after := by
  have begins : Run (Leaf.calls leaves) session [] (Leaf.calls leaves ++ []) session := by
    rw [List.append_nil]
    exact .start
  exact begins.of_unfolds unfolds

/-- Compiling a program is a run that leaves no call, and the leaves of the result are the names
among the leaves of the program and of the expansions. -/
theorem of_compile_iff (run : compile options program session = .ok expanded after) :
    ∃ history, Run (Leaf.calls (Leaf.ofProgram program)) session history [] after ∧
      ∀ leaf, leaf ∈ Leaf.ofProgram expanded ↔ leaf.isMacro = false ∧
        (leaf ∈ Leaf.ofProgram program ∨
          ∃ performed ∈ history, leaf ∈ Leaf.ofProgram performed.program) := by
  obtain ⟨history, unfolds⟩ := Unfolds.of_compile run
  exact ⟨history, of_all_unfold unfolds, unfolds.mem_iff⟩

/-- Compiling a program is a run that leaves no call, and every leaf of the result belongs to the
program or to one of the expansions. -/
theorem of_compile (run : compile options program session = .ok expanded after) :
    ∃ history, Run (Leaf.calls (Leaf.ofProgram program)) session history [] after ∧
      ∀ leaf ∈ Leaf.ofProgram expanded, leaf ∈ Leaf.ofProgram program ∨
        ∃ performed ∈ history, leaf ∈ Leaf.ofProgram performed.program := by
  obtain ⟨history, reached, origins⟩ := of_compile_iff run
  exact ⟨history, reached, fun leaf mem => ((origins leaf).mp mem).2⟩

end Run

end MacroScript
