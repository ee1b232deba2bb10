import MacroScript.Compile
import MacroScript.Proofs.Hygiene.Performed
import MacroScript.Proofs.Splicing

/-!
# Unfolding calls

Compiling expands a call, compiles the expansion, and puts the result where the call stood.
`Unfolds` says so for the leaves of a tree: names are kept, declarations are dropped, and a
call gives way to the leaves of its result, to which the leaves of its expansion unfold.  The
expansions are listed in the order in which they begin.
-/

namespace MacroScript

open MacroScript.Outcome

/-- Leaves in a session, the expansions of their calls, and the leaves and the session that
are there when all of them are done. -/
inductive Unfolds (recordTrace : Bool) :
    List Leaf → Session → List Performed → List Leaf → Session → Prop
  | nil (session : Session) : Unfolds recordTrace [] session [] [] session
  | keep {leaf : Leaf} {leaves unfolded : List Leaf} {history : List Performed}
      {session after : Session} (kept : leaf.isMacro = false)
      (rest : Unfolds recordTrace leaves session history unfolded after) :
      Unfolds recordTrace (leaf :: leaves) session history (leaf :: unfolded) after
  | drop {declared : MacroStmt} {leaves unfolded : List Leaf} {history : List Performed}
      {session after : Session} (rest : Unfolds recordTrace leaves session history unfolded after) :
      Unfolds recordTrace (.declaration declared :: leaves) session history unfolded after
  | call {performed : Performed} {result : Program} {step : Option Nat}
      {leaves unfolded : List Leaf} {nested siblings : List Performed}
      {session reached middle after : Session}
      (begun : Compile.beginStep recordTrace performed.call session = .ok step performed.before)
      (inner : Unfolds recordTrace (Leaf.ofProgram performed.program) performed.after nested
        (Leaf.ofProgram result) reached)
      (finished : Compile.finishStep step performed.color result reached = .ok () middle)
      (rest : Unfolds recordTrace leaves middle siblings unfolded after) :
      Unfolds recordTrace (.call performed.call :: leaves) session
        (performed :: (nested ++ siblings)) (Leaf.ofProgram result ++ unfolded) after

namespace Unfolds

variable {recordTrace : Bool} {leaves unfolded : List Leaf} {history : List Performed}
  {session after : Session}

theorem append {others unfoldedToo : List Leaf} {later : List Performed} {last : Session}
    (one : Unfolds recordTrace leaves session history unfolded after)
    (two : Unfolds recordTrace others after later unfoldedToo last) :
    Unfolds recordTrace (leaves ++ others) session (history ++ later) (unfolded ++ unfoldedToo)
      last := by
  induction one with
  | nil session => exact two
  | keep kept _ ih => exact .keep kept (ih two)
  | drop _ ih => exact .drop (ih two)
  | call begun inner finished _ _ ih =>
    rw [List.cons_append, List.cons_append, List.append_assoc, List.append_assoc]
    exact .call begun inner finished (ih two)

/-- Splicing unfolds leaves, if its handler unfolds single calls. -/
theorem of_replaced {handler : Splice.Handler}
    (each : ∀ {call session program after}, handler call session = .ok program after →
      ∃ history, Unfolds recordTrace [.call call] session history (Leaf.ofProgram program) after)
    (replaced : Splice.Replaced handler leaves session unfolded after) :
    ∃ history, Unfolds recordTrace leaves session history unfolded after := by
  induction replaced with
  | nil session => exact ⟨[], .nil session⟩
  | keep kept _ ih =>
    obtain ⟨history, rest⟩ := ih
    exact ⟨history, .keep kept rest⟩
  | drop _ ih =>
    obtain ⟨history, rest⟩ := ih
    exact ⟨history, .drop rest⟩
  | call expanded _ ih =>
    obtain ⟨history, first⟩ := each expanded
    obtain ⟨later, rest⟩ := ih
    exact ⟨history ++ later, first.append rest⟩

/-- Expanding a call with everything it leads to unfolds it. -/
theorem of_expandWithin {depth : Nat} {call : Invocation} {program : Program}
    (expanded : Compile.expandWithin recordTrace depth call session = .ok program after) :
    ∃ history, Unfolds recordTrace [.call call] session history (Leaf.ofProgram program) after := by
  induction depth generalizing call session program after with
  | zero => exact absurd expanded throw_ne_ok
  | succ depth ih =>
    simp only [Compile.expandWithin, bind_eq_ok_iff, pure_eq_ok_iff] at expanded
    obtain ⟨step, begun, beginRun, expansion, middle, expandRun, spliced, last, spliceRun, _, _,
      finishRun, rfl, rfl⟩ := expanded
    obtain ⟨performed, rfl, rfl, program_eq, color_eq, rfl⟩ := exists_performed expandRun
    rw [← color_eq] at finishRun
    rw [← program_eq] at spliceRun
    obtain ⟨nested, inner⟩ := of_replaced ih (Splice.replaced_spliceProgram spliceRun)
    have one := Unfolds.call beginRun inner finishRun (.nil _)
    rw [List.append_nil, List.append_nil] at one
    exact ⟨performed :: nested, one⟩

/-- Compiling a program unfolds its leaves. -/
theorem of_compile {options : CompileOptions} {program expanded : Program}
    (run : compile options program session = .ok expanded after) :
    ∃ history, Unfolds options.recordTrace (Leaf.ofProgram program) session history
      (Leaf.ofProgram expanded) after :=
  of_replaced of_expandWithin (Splice.replaced_spliceProgram run)

/-- The leaves at the end are the names among the leaves that were there before and among those
of the expansions. -/
theorem mem_iff (unfolds : Unfolds recordTrace leaves session history unfolded after)
    (leaf : Leaf) :
    leaf ∈ unfolded ↔ leaf.isMacro = false ∧
      (leaf ∈ leaves ∨ ∃ performed ∈ history, leaf ∈ Leaf.ofProgram performed.program) := by
  induction unfolds with
  | nil session => simp
  | @keep other leaves unfolded history session after kept _ ih =>
    rw [List.mem_cons, List.mem_cons, ih, or_assoc]
    constructor
    · rintro (rfl | ⟨isName, origin⟩)
      · exact ⟨kept, .inl rfl⟩
      · exact ⟨isName, .inr origin⟩
    · rintro ⟨isName, rfl | origin⟩
      · exact .inl rfl
      · exact .inr ⟨isName, origin⟩
  | drop _ ih =>
    rw [ih, List.mem_cons, or_assoc]
    constructor
    · rintro ⟨isName, origin⟩
      exact ⟨isName, .inr origin⟩
    · rintro ⟨isName, rfl | origin⟩
      · cases isName
      · exact ⟨isName, origin⟩
  | @call performed result step leaves unfolded nested siblings session reached middle after begun _
      finished _ innerIh ih =>
      simp only [List.mem_append, List.mem_cons, innerIh, ih, or_and_right, exists_or,
        exists_eq_left]
      constructor
      · rintro (⟨isName, inOwn | inNested⟩ | ⟨isName, inLeaves | inSiblings⟩)
        · exact ⟨isName, .inr (.inl inOwn)⟩
        · exact ⟨isName, .inr (.inr (.inl inNested))⟩
        · exact ⟨isName, .inl (.inr inLeaves)⟩
        · exact ⟨isName, .inr (.inr (.inr inSiblings))⟩
      · rintro ⟨isName, (rfl | inLeaves) | inOwn | inNested | inSiblings⟩
        · cases isName
        · exact .inr ⟨isName, .inl inLeaves⟩
        · exact .inl ⟨isName, .inl inOwn⟩
        · exact .inl ⟨isName, .inr inNested⟩
        · exact .inr ⟨isName, .inr inSiblings⟩

end Unfolds

end MacroScript
