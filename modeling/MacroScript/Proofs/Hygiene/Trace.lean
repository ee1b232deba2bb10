import MacroScript.Proofs.Hygiene.Fresh

/-!
# The trace of a run

When expansions are recorded, the trace of a session has a step for each of them.  A step is
opened before its call is expanded and completed when everything the expansion calls is done,
so the steps stand in the order in which the expansions began: each one before those nested in
it, and the expansions of neighbouring calls from left to right.

Colors are given out while expansions are read, between the two.  Still they count the steps
that have one in the order of the trace.
-/

namespace MacroScript

open MacroScript.Grammar MacroScript.Outcome

variable {call : Invocation} {after session start : Session} {program : Program}
  {history : List Performed} {source : String}

/-! ## Reading leaves the trace alone -/

namespace Grammar

variable {reader after : Reader} {places : List Place}

theorem Context.mark_trace (context : Context) (stack : ScopeStack) (name : String)
    (color : Option Color) :
    (context.mark stack name color).session.trace = context.session.trace := by
  cases stack <;> rfl

theorem Context.Binds.trace {context bound : Context} {token : Token} {index : Nat} {name : String}
    (binds : Binds context token index name bound) :
    bound.session.trace = context.session.trace := by
  cases binds with
  | plain plain => exact context.mark_trace _ _ _
  | @body hygiene hygienic body =>
    refine (Context.mark_trace _ _ _ _).trans ?_
    simp only [Session.claimColor]
    cases hygiene.color <;> rfl
  | invocation hygienic invocation => exact context.mark_trace _ _ _

theorem Step.trace (step : Step reader places after) :
    after.context.session.trace = reader.context.session.trace := by
  cases step with
  | move forward => rfl
  | binding isName binds colored => exact (Context.binds_of_bindName binds).trace
  | reference isName colored
  | call isName found taken fixed forward behind => rfl
  | declaration forward inside templates written
  | abandoned forward => exact Context.mark_trace _ _ _ _

theorem Walk.trace (walk : Walk reader places after) :
    after.context.session.trace = reader.context.session.trace := by
  induction walk with
  | nil reader => rfl
  | step step => exact step.trace
  | append one two first second => exact second.trans first
  | @enclosed reader after places inner ih =>
    change after.context.exitScope.session.trace = _
    rw [Context.exitScope_session, ih]
    rfl

end Grammar

theorem Matching.Tried.trace {before : Session} (tried : Tried call before after) :
    after.trace = before.trace := by
  induction tried with
  | refl session => rfl
  | attempt _ _ walk _ ih => exact ih.trans walk.trace

theorem Performed.after_trace (performed : Performed) :
    performed.after.trace = performed.before.trace :=
  performed.walk.trace.trans performed.matched_spec.1.trace

/-! ## Steps of expansions -/

/-- The complete step of an expansion with the given result. -/
def Performed.step (performed : Performed) (result : Program) : TraceStep where
  macroName := performed.call.name.name
  span := performed.call.span
  input := Token.render performed.call.tokens
  color := performed.color
  expansion := some result

/-- The expansions of calls and their steps, in the order in which the expansions began.  The
expansion of the first call comes first, then come those of the calls in it, and then those of
the other calls.  The result of an expansion has the leaves to which those of the expansion unfold,
with the expansions nested in it. -/
inductive Recorded : List Invocation → List Performed → List TraceStep → Prop
  | nil : Recorded [] [] []
  | cons {performed : Performed} {result : Program} {rest : List Invocation}
      {nested siblings : List Performed} {innerSteps outerSteps : List TraceStep}
      {reached : Session}
      (inner : Recorded (Leaf.calls (Leaf.ofProgram performed.program)) nested innerSteps)
      (unfolds : Unfolds true (Leaf.ofProgram performed.program) performed.after nested
        (Leaf.ofProgram result) reached)
      (outer : Recorded rest siblings outerSteps) :
      Recorded (performed.call :: rest) (performed :: (nested ++ siblings))
        (performed.step result :: (innerSteps ++ outerSteps))

namespace Recorded

variable {calls : List Invocation} {steps : List TraceStep}

/-- Every step has a result, and no macro node is left in it. -/
theorem macroFree (recorded : Recorded calls history steps) :
    ∀ step ∈ steps, ∃ result, step.expansion = some result ∧ MacroFree (Leaf.ofProgram result) := by
  induction recorded with
  | nil => simp
  | @cons performed result rest nested siblings innerSteps outerSteps reached _ unfolds _ innerIh
      outerIh =>
    intro step mem
    rcases List.mem_cons.mp mem with rfl | later
    · exact ⟨result, rfl, fun leaf leafMem => ((unfolds.mem_iff leaf).mp leafMem).1⟩
    · rcases List.mem_append.mp later with inside | behind
      · exact innerIh step inside
      · exact outerIh step behind

/-- The colors of the steps are those of the expansions. -/
theorem colors (recorded : Recorded calls history steps) :
    steps.filterMap TraceStep.color = history.filterMap Performed.color := by
  induction recorded with
  | nil => rfl
  | cons _ _ _ innerIh outerIh =>
    rw [List.filterMap_cons, List.filterMap_cons, List.filterMap_append, List.filterMap_append,
      innerIh, outerIh]
    rfl

end Recorded

/-! ## Unfolding records steps -/

/-- The step that is opened for a call. -/
def Invocation.openStep (call : Invocation) : TraceStep where
  macroName := call.name.name
  span := call.span
  input := Token.render call.tokens

theorem Compile.beginStep_true {step : Option Nat}
    (begun : beginStep true call session = .ok step after) :
    step = some session.trace.size ∧ after.trace = session.trace.push call.openStep := by
  cases begun
  exact ⟨rfl, rfl⟩

theorem Compile.finishStep_some {number : Nat} {color : Option Color}
    (finished : finishStep (some number) color program session = .ok () after) :
    after.trace = session.trace.modify number fun step =>
      { step with color, expansion := some program } := by
  cases finished
  rfl

/-- The element behind a list is changed at the length of the list. -/
theorem modify_length {α : Type} (front back : List α) (element : α) (change : α → α) :
    (front ++ element :: back).modify front.length change = front ++ change element :: back := by
  induction front with
  | nil => rfl
  | cons first rest ih => exact congrArg (first :: ·) ih

/-- Unfolding leaves with a trace adds the steps of their calls at its end. -/
theorem Unfolds.recorded {leaves unfolded : List Leaf}
    (unfolds : Unfolds true leaves session history unfolded after) :
    ∃ steps, after.trace.toList = session.trace.toList ++ steps ∧
      Recorded (Leaf.calls leaves) history steps := by
  induction unfolds with
  | nil session => exact ⟨[], (List.append_nil _).symm, .nil⟩
  | keep kept _ ih =>
    rw [Leaf.calls_cons_of_not_macro kept]
    exact ih
  | drop _ ih => exact ih
  | @call performed result step leaves unfolded nested siblings session reached middle after begun
      inner finished _ innerIh ih =>
      obtain ⟨innerSteps, reached_trace, innerRecorded⟩ := innerIh
      obtain ⟨outerSteps, after_trace, outerRecorded⟩ := ih
      obtain ⟨rfl, before_trace⟩ := Compile.beginStep_true begun
      -- The step of the call is still where it was opened, with the nested steps behind it.
      have opened : reached.trace.toList =
          session.trace.toList ++ performed.call.openStep :: innerSteps := by
        rw [reached_trace, performed.after_trace, before_trace, Array.toList_push,
          List.append_assoc, List.singleton_append]
      have completed : middle.trace.toList =
          session.trace.toList ++ performed.step result :: innerSteps := by
        rw [Compile.finishStep_some finished, Array.toList_modify, opened, ← Array.length_toList,
          modify_length]
        rfl
      refine ⟨performed.step result :: (innerSteps ++ outerSteps), ?_,
        .cons innerRecorded inner outerRecorded⟩
      rw [after_trace, completed, List.append_assoc, List.cons_append]

/-! ## Colors in order -/

/-- The colors that a run gives out count its expansions that have one. -/
theorem Run.colors {calls waiting : List Invocation}
    (run : Run calls start history waiting session) :
    history.filterMap Performed.color =
      List.range' (start.lastColor + 1) (session.lastColor - start.lastColor) := by
  induction run with
  | start => simp
  | retrace run trace ih => exact ih
  | @expand history performed rest run ih =>
    have grown := run.grows.colors
    rw [List.filterMap_append, ih]
    rcases performed.claims.2 with ⟨none, last⟩ | ⟨claimed, last⟩
    · simp [none, last]
    · have next : ∀ low high : Nat, low ≤ high → low + 1 + (high - low) = high + 1 := by
        omega
      rw [last, Nat.succ_sub grown, List.range'_1_concat, next _ _ grown]
      simp [claimed]

/-! ## Spellings -/

/-- Lists are split in one way at the last occurrence of an element. -/
theorem split_at_last {α : Type} {mark : α} {front back other rest : List α} (behind : mark ∉ back)
    (behindToo : mark ∉ rest) (same : front ++ mark :: back = other ++ mark :: rest) :
    front = other ∧ back = rest := by
  rcases List.append_eq_append_iff.mp same with ⟨middle, rfl, tail⟩ | ⟨middle, rfl, tail⟩
  · rcases List.cons_eq_append_iff.mp tail with ⟨rfl, tail_eq⟩ | ⟨inner, rfl, rfl⟩
    · exact ⟨(List.append_nil _).symm, (List.cons.inj tail_eq).2.symm⟩
    · simp at behind
  · rcases List.cons_eq_append_iff.mp tail with ⟨rfl, tail_eq⟩ | ⟨inner, rfl, rfl⟩
    · exact ⟨List.append_nil _, (List.cons.inj tail_eq).2⟩
    · simp at behindToo

/-- A colored name shows its spelling in the source and its color, since a color has no
underscore among its digits. -/
theorem colored_injective {other : String} {color shade : Color}
    (same : source ++ "_" ++ toString color = other ++ "_" ++ toString shade) :
    source = other ∧ color = shade := by
  have digits (number : Nat) : '_' ∉ Nat.toDigits 10 number := by
    intro mem
    have isDigit := Nat.isDigit_of_mem_toDigits (by decide) (by decide) mem
    exact absurd isDigit (by decide)
  have texts : source.toList ++ '_' :: Nat.toDigits 10 color =
      other.toList ++ '_' :: Nat.toDigits 10 shade := by
    simpa using congrArg String.toList same
  obtain ⟨spelled, colored⟩ := split_at_last (digits color) (digits shade) texts
  have numbers := congrArg (Nat.ofDigitChars 10 · 0) colored
  simp only [Nat.ofDigitChars_ten_toDigits] at numbers
  exact ⟨String.toList_inj.mp spelled, numbers⟩

/-- Every name of a result that was renamed is its spelling in the source and the color of an
expansion. -/
theorem Unfolds.confined_names {recordTrace : Bool} {expanded : Program}
    (read : Session.readProgram source start = .ok program session)
    (unfolds : Unfolds recordTrace (Leaf.ofProgram program) session history
      (Leaf.ofProgram expanded) after) :
    ∀ name ∈ expanded.names, name.Confined (start.region history) := by
  obtain ⟨-, -, produced⟩ := (Run.of_all_unfold unfolds).confined read
  have wider := start.region_extends (List.nil_subset history)
  have confined : ∀ leaf ∈ Leaf.ofProgram expanded, leaf.Confined (start.region history) := by
    intro leaf mem
    rcases ((unfolds.mem_iff leaf).mp mem).2 with own | ⟨performed, performedMem, leafMem⟩
    · exact ((Session.confined_readProgram read).2 leaf own).extends wider
    · exact produced performed performedMem leaf leafMem
  intro name mem
  rcases Program.mem_names.mp mem with bound | referred
  · exact confined _ bound
  · exact confined _ referred

/-! ## Whole runs -/

/-- The colors of a trace, in its order. -/
def Session.traceColors (session : Session) : List Color :=
  session.trace.toList.filterMap TraceStep.color

/-- What the trace of a session says about the unit that was compiled in it, when the session was
new. -/
structure Traced (source : String) (expanded : Program) (after : Session) : Prop where
  /-- The steps are those of the expansions by which the leaves of the unit became those of the
  result, in the order in which they began. -/
  ordered : ∃ program session history,
    Session.readProgram source {} = .ok program session ∧
      Unfolds true (Leaf.ofProgram program) session history (Leaf.ofProgram expanded) after ∧
        Recorded (Leaf.calls (Leaf.ofProgram program)) history after.trace.toList
  /-- Every step is complete, and its result has no macro nodes. -/
  complete : ∀ step ∈ after.trace.toList, ∃ result,
    step.expansion = some result ∧ MacroFree (Leaf.ofProgram result)
  /-- The colors of the steps are `1, 2, …` in order. -/
  counted : after.traceColors = List.range' 1 after.lastColor
  /-- A renamed name is its spelling in the source, an underscore and a color of the trace. -/
  renamed : ∀ name ∈ expanded.names, ∀ spelled, name.sourceName = some spelled →
    ∃ color ∈ after.traceColors, name.name = spelled ++ "_" ++ toString color
  /-- Renamed names are equal only if their spellings in the source and their colors are. -/
  distinct : ∀ one ∈ expanded.names, ∀ two ∈ expanded.names,
    ∀ (spelled other : String) (color shade : Color),
      one.sourceName = some spelled → one.name = spelled ++ "_" ++ toString color →
        two.sourceName = some other → two.name = other ++ "_" ++ toString shade →
          one.name = two.name → spelled = other ∧ color = shade

/-- Whenever a unit is compiled with a trace in a new session, the trace is that of the whole
run. -/
theorem expandSource_traced {options : CompileOptions} {source : String} {expanded : Program}
    {after : Session} (traced : options.recordTrace = true)
    (run : expandSource options source {} = .ok expanded after) :
    Traced source expanded after := by
  obtain ⟨program, session, read, compiled⟩ := bind_eq_ok_iff.mp run
  obtain ⟨history, unfolds⟩ := Unfolds.of_compile compiled
  have reached := Run.of_all_unfold unfolds
  have named := unfolds.confined_names read
  rw [traced] at unfolds
  obtain ⟨steps, trace_eq, recorded⟩ := unfolds.recorded
  -- Reading the unit neither records a step nor gives out a color.
  obtain ⟨tokens, places, final, scanned, walk, seen, rfl⟩ := Session.readProgram_eq_ok read
  have untraced : final.context.session.trace = #[] := walk.trace
  have uncolored : final.context.session.lastColor = 0 := (Session.quiet_of_walk walk).color
  rw [untraced, Array.toList_empty, List.nil_append] at trace_eq
  subst trace_eq
  have colors : after.traceColors = history.filterMap Performed.color := recorded.colors
  constructor
  case ordered => exact ⟨program, _, history, read, unfolds, recorded⟩
  case complete => exact recorded.macroFree
  case counted => rw [colors, reached.colors, uncolored, Nat.zero_add, Nat.sub_zero]
  case renamed =>
    intro name mem spelled renamed
    obtain ⟨color, name_eq, performed, performedMem, own, -⟩ := named name mem spelled renamed
    exact ⟨color, colors ▸ List.mem_filterMap.mpr ⟨performed, performedMem, own⟩, name_eq⟩
  case distinct =>
    intro one _ two _ spelled other color shade _ one_eq _ two_eq same
    exact colored_injective (one_eq.symm.trans (same.trans two_eq))

/-- A macro that calls another one before and after it binds a name of its own. -/
def heldTwice : String :=
  "macro hold \x7b ($e:expr) => \x7b let t = $e; f(t); \x7d \x7d " ++
    "macro pair \x7b ($a:expr, $b:expr) => \x7b hold($a); let t = 0; hold($b); \x7d \x7d " ++
      "hold(0); pair(1, 2);"

/-- The binding of `pair` has an earlier color than those of the expansions nested in it. -/
theorem expandSource_heldTwice :
    ∃ expanded after,
      expandSource { recordTrace := true } heldTwice {} = .ok expanded after ∧
        after.trace.toList.map TraceStep.macroName = ["hold", "pair", "hold", "hold"] ∧
          after.trace.toList.map TraceStep.color = [some 1, some 2, some 3, some 4] ∧
            (expanded.names.filter Identifier.isColored).map Identifier.name =
              ["t_1", "t_1", "t_3", "t_3", "t_2", "t_4", "t_4"] ∧
              Traced heldTwice expanded after := by
  have ended : endsWith (fun expanded after =>
      after.trace.toList.map TraceStep.macroName == ["hold", "pair", "hold", "hold"] &&
        after.trace.toList.map TraceStep.color == [some 1, some 2, some 3, some 4] &&
          (expanded.names.filter Identifier.isColored).map Identifier.name ==
            ["t_1", "t_1", "t_3", "t_3", "t_2", "t_4", "t_4"])
      (expandSource { recordTrace := true } heldTwice {}) = true := by
    decide +kernel
  obtain ⟨expanded, after, run, seen⟩ := exists_ok_of_endsWith ended
  simp only [Bool.and_eq_true, beq_iff_eq] at seen
  exact ⟨expanded, after, run, seen.1.1, seen.1.2, seen.2, expandSource_traced rfl run⟩

end MacroScript
