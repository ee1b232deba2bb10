import MacroScript.Compile
import MacroScript.Proofs.Extent.Grammar
import MacroScript.Proofs.Slots.Ending
import MacroScript.Proofs.Slots.Splicing

/-!
# What compiling puts into slots

Whatever the grammar reads respects the restrictions, macro calls aside: a unit, and also the
transcript of every expansion.  So a compiled program can break a restriction only where a call
stood in a slot with a role, at any depth of expansions.

`Replaces` lists the calls that are replaced on the way, each with its slot and with the
program that takes its place.  The main lemma is that a compiled program respects a restriction
exactly if all of these programs fill their slots.
-/

namespace MacroScript

open MacroScript.Outcome MacroScript.Splice

variable {restriction : Restriction} {handler : Handler} {session after : Session}
  {call : Invocation} {slot : Slot} {program spliced : Program}

/-! ## Programs that are read -/

namespace Restriction

theorem allows_read {tokens : List Token} {outer : ScopeStack} {hygiene : Option Hygiene}
    {state : Grammar.State}
    (run : Session.read Grammar.program tokens outer hygiene session = .ok (program, state) after) :
    restriction.AllowsAll (Block.slots program) := by
  unfold Session.read at run
  split at run
  · cases run
    exact Grammar.allows_program (Cursor.ready_ofTokens tokens) ‹_› restriction
  · cases run

theorem allows_readProgram {source : String}
    (run : Session.readProgram source session = .ok program after) :
    restriction.AllowsAll (Block.slots program) := by
  unfold Session.readProgram at run
  cases scanned : tokenize source with
  | error fault =>
    simp only [scanned] at run
    exact absurd run throw_ne_ok
  | ok tokens =>
    simp only [scanned, bind_eq_ok_iff, pure_eq_ok_iff] at run
    rcases run with ⟨⟨read, state⟩, _, readRun, rfl, rfl⟩
    exact allows_read readRun

theorem allows_expand {call : Invocation} {expansion : Expansion}
    (run : expand call session = .ok expansion after) :
    restriction.AllowsAll (Block.slots expansion.program) := by
  simp only [expand, bind_eq_ok_iff] at run
  rcases run with ⟨definition, _, -, ⟨number, rule, bindings⟩, _, -, run⟩
  cases transcribed : transcribe definition.name bindings rule.template with
  | error fault =>
    simp only [transcribed] at run
    exact absurd run throw_ne_ok
  | ok transcript =>
    simp only [transcribed, bind_eq_ok_iff, pure_eq_ok_iff] at run
    rcases run with ⟨⟨program, color⟩, _, transcriptRun, rfl, rfl⟩
    unfold Expansion.readTranscript at transcriptRun
    simp only at transcriptRun
    split at transcriptRun
    · cases transcriptRun
      exact allows_read ‹_›
    · cases transcriptRun

/-! ## Calls -/

/-- Whether statements may stand for the call in a slot.  Several statements stand in a block
of their own, so only a single one can be unfit for its place. -/
def fills : Restriction → Slot → List Stmt → Bool
  | .branch, ⟨.guarded, .stmt (.expression (.invocation _) _)⟩, [stmt] => !stmt.openEnded
  | .assignment, ⟨.target, .expr (.invocation _)⟩, [.expression value _] => value.isPlace
  | _, _, _ => true

theorem fills_expression (role : Role) (call : Invocation) (value : Expr) (span : Span) :
    restriction.fills ⟨role, .expr (.invocation call)⟩ [.expression value span] =
      restriction.suits ⟨role, .expr value⟩ := by
  cases restriction <;> cases role <;> rfl

theorem fills_body (role : Role) (call : Invocation) (span : Span) (stmts : List Stmt) :
    restriction.fills ⟨role, .stmt (.expression (.invocation call) span)⟩ stmts =
      restriction.suits ⟨role, .stmt (asBody call.span stmts)⟩ := by
  rcases stmts with _ | ⟨first, _ | ⟨second, rest⟩⟩ <;>
    cases restriction <;> cases role <;> rfl

end Restriction

theorem Splice.asExpression_eq_ok {stmts : List Stmt} {value : Expr}
    (taken : asExpression call stmts = .ok value) : ∃ span, stmts = [.expression value span] := by
  unfold asExpression at taken
  split at taken <;> cases taken
  exact ⟨_, rfl⟩

/-- What splicing puts in the place of a call respects the restriction exactly if it fills the
slot and respects the restriction on its own. -/
theorem splice_call (restriction : Restriction) {images : List Slot}
    (calls : slot.call? = some call) (run : slot.splice handler session = .ok images after) :
    ∃ result, handler call session = .ok result after ∧
      (restriction.HoldsAll images ↔
        restriction.fills slot result.body = true ∧ restriction.HoldsAll (Block.slots result)) := by
  unfold Slot.call? at calls
  split at calls
  case h_1 role found =>
    cases calls
    simp only [Slot.splice, spliceExpr, callExpression, bind_eq_ok_iff, pure_eq_ok_iff] at run
    rcases run with ⟨value, _, ⟨result, _, expanded, taken⟩, rfl, rfl⟩
    cases shape : asExpression call result.body with
    | error fault =>
      rw [shape] at taken
      exact absurd taken throw_ne_ok
    | ok kept =>
      rw [shape] at taken
      rcases pure_eq_ok_iff.mp taken with ⟨rfl, rfl⟩
      rcases asExpression_eq_ok shape with ⟨span, body⟩
      have alone : restriction.HoldsAll (Block.slots result) ↔
          restriction.Holds (.ofExpr kept) := by
        simp [Block.slots, body, Restriction.holds_iff (.ofStmt _), Slot.children,
          Restriction.holdsAll_expression]
      refine ⟨result, expanded, ?_⟩
      rw [body, Restriction.fills_expression, alone, ← Restriction.holds_expr_iff]
      simp
  case h_2 role found span =>
    cases calls
    simp only [Slot.splice, spliceStmt, spliceInto, bind_eq_ok_iff, pure_eq_ok_iff] at run
    rcases run with ⟨_, _, ⟨result, _, expanded, rfl, rfl⟩, rfl, rfl⟩
    have alone : restriction.HoldsAll (Block.slots result) ↔
        restriction.Holds (.ofStmt (asBody call.span result.body)) := by
      rw [Restriction.holds_asBody, Slot.placed_plain, Block.slots]
    refine ⟨result, expanded, ?_⟩
    rw [Restriction.fills_body, alone, ← Restriction.holds_stmt_iff,
      Restriction.holds_asBody]
  case h_3 => cases calls

/-- In a run that ends well, every call that is reached has an expansion. -/
theorem Slot.Reaches.expanded {moment : Session}
    (reached : Slot.Reaches handler (Block.slots program) session slot moment)
    (calls : slot.call? = some call)
    (run : spliceProgram handler program session = .ok spliced after) :
    ∃ expansion later, handler call moment = .ok expansion later := by
  -- Which restriction is kept does not matter here.
  have rebuilds : Rebuilds .branch handler _ _ _ _ := rebuilds_block program
  rcases rebuilds run with ⟨made, slotsRun, -⟩
  rcases reached.spliced slotsRun with ⟨images, later, slotRun⟩
  rcases splice_call .branch calls slotRun with ⟨expansion, expanded, -⟩
  exact ⟨expansion, later, expanded⟩

/-- A program that respects the restriction, macro calls aside, is spliced to one that respects
it exactly if the expansions of the calls fill their slots and respect it on their own. -/
theorem holdsAll_iff_expansions (allowed : restriction.AllowsAll (Block.slots program))
    (run : spliceProgram handler program session = .ok spliced after) :
    restriction.HoldsAll (Block.slots spliced) ↔
      ∀ ⦃slot call moment expansion later⦄,
        Slot.Reaches handler (Block.slots program) session slot moment →
          slot.call? = some call → handler call moment = .ok expansion later →
            restriction.fills slot expansion.body = true ∧
              restriction.HoldsAll (Block.slots expansion) := by
  rw [holdsAll_spliceProgram_iff allowed run]
  constructor
  · intro fits slot call moment expansion later reached calls expanded
    have rebuilds : Rebuilds restriction handler _ _ _ _ := rebuilds_block program
    rcases rebuilds run with ⟨_, slotsRun, -⟩
    rcases reached.spliced slotsRun with ⟨images, _, slotRun⟩
    rcases splice_call restriction calls slotRun with ⟨_, again, holds⟩
    rw [expanded] at again
    cases again
    exact holds.mp (fits reached (by simp [calls]) slotRun)
  · intro each slot moment images later reached isCall slotRun
    rcases Option.isSome_iff_exists.mp isCall with ⟨call, calls⟩
    rcases splice_call restriction calls slotRun with ⟨expansion, expanded, holds⟩
    exact holds.mpr (each reached calls expanded)

namespace Compile

variable {result : Program}

/-- While the calls of a program are expanded to the given depth, a call in the slot is
replaced by the result.  The call stands in the program itself, or in the expansion of another
call. -/
inductive Replaces (recordTrace : Bool) :
    (depth : Nat) → Program → Session → Slot → Program → Prop
  | own {depth : Nat} {program result : Program} {session moment after : Session} {slot : Slot}
      {call : Invocation}
      (reached : Slot.Reaches (expandWithin recordTrace depth) (Block.slots program) session
        slot moment)
      (calls : slot.call? = some call)
      (expanded : expandWithin recordTrace depth call moment = .ok result after) :
      Replaces recordTrace depth program session slot result
  | nested {depth : Nat} {program result : Program} {session moment begun middle : Session}
      {outer slot : Slot} {call : Invocation} {step : Option Nat} {expansion : Expansion}
      (reached : Slot.Reaches (expandWithin recordTrace (depth + 1)) (Block.slots program) session
        outer moment)
      (calls : outer.call? = some call)
      (opened : beginStep recordTrace call moment = .ok step begun)
      (expanded : expand call begun = .ok expansion middle)
      (within : Replaces recordTrace depth expansion.program middle slot result) :
      Replaces recordTrace (depth + 1) program session slot result

variable {recordTrace : Bool} {depth : Nat}

/-- Expanding a call is expanding it once, and then compiling the expansion. -/
theorem expandWithin_succ_eq_ok {call : Invocation}
    (run : expandWithin recordTrace (depth + 1) call session = .ok result after) :
    ∃ step begun expansion middle last, beginStep recordTrace call session = .ok step begun ∧
      expand call begun = .ok expansion middle ∧
        spliceProgram (expandWithin recordTrace depth) expansion.program middle =
          .ok result last := by
  simp only [expandWithin, bind_eq_ok_iff, pure_eq_ok_iff] at run
  rcases run with ⟨step, begun, opened, expansion, middle, expanded, program, last, spliced,
    _, _, -, rfl, rfl⟩
  exact ⟨step, begun, expansion, middle, last, opened, expanded, spliced⟩

/-- Compiling a program that respects the restriction, macro calls aside, comes to one that
respects it exactly if all replaced calls are replaced by something that fills their slots. -/
theorem holdsAll_iff_replaces {program : Program}
    (allowed : restriction.AllowsAll (Block.slots program))
    (run : spliceProgram (expandWithin recordTrace depth) program session = .ok result after) :
    restriction.HoldsAll (Block.slots result) ↔
      ∀ slot replaced, Replaces recordTrace depth program session slot replaced →
        restriction.fills slot replaced.body = true := by
  induction depth generalizing program result session after with
  | zero =>
    rw [holdsAll_iff_expansions allowed run]
    constructor
    · rintro - slot replaced (⟨-, -, expanded⟩ | _)
      exact absurd expanded throw_ne_ok
    · intro each slot call moment replaced later reached calls expanded
      exact absurd expanded throw_ne_ok
  | succ depth ih =>
    rw [holdsAll_iff_expansions allowed run]
    constructor
    · intro each slot replaced found
      cases found with
      | own reached calls expanded => exact (each reached calls expanded).1
      | nested reached calls opened expanded within =>
        rcases reached.expanded calls run with ⟨outer, _, outerRun⟩
        rcases expandWithin_succ_eq_ok outerRun with
          ⟨_, _, _, _, _, againOpened, againExpanded, spliced⟩
        rw [opened] at againOpened
        cases againOpened
        rw [expanded] at againExpanded
        cases againExpanded
        have holds := (each reached calls outerRun).2
        exact (ih (Restriction.allows_expand expanded) spliced).mp holds _ _ within
    · intro each slot call moment replaced later reached calls outerRun
      constructor
      · exact each _ _ (.own reached calls outerRun)
      · rcases expandWithin_succ_eq_ok outerRun with ⟨_, _, _, _, _, opened, expanded, spliced⟩
        rw [ih (Restriction.allows_expand expanded) spliced]
        intro inner within found
        exact each _ _ (.nested reached calls opened expanded found)

end Compile

/-- All nodes of a compiled unit pass the check of the restriction exactly if all replaced calls
are replaced by something that fills their slots. -/
theorem expandSource_check_iff (restriction : Restriction) {options : CompileOptions}
    {source : String} {expanded : Program}
    (run : expandSource options source session = .ok expanded after) :
    ∃ program read, Session.readProgram source session = .ok program read ∧
      ((expanded.Everywhere fun node => restriction.check node = true) ↔
        ∀ slot result,
          Compile.Replaces options.recordTrace expansionLimit program read slot result →
            restriction.fills slot result.body = true) := by
  simp only [expandSource, bind_eq_ok_iff] at run
  rcases run with ⟨program, read, readRun, compileRun⟩
  refine ⟨program, read, readRun, ?_⟩
  rw [← Restriction.holdsAll_program_iff]
  exact Compile.holdsAll_iff_replaces (Restriction.allows_readProgram readRun) compileRun

end MacroScript
