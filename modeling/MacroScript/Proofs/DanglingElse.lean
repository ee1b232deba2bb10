import MacroScript.Proofs.Slots.Compile

/-!
# Dangling `else`

An `else` belongs to the nearest `if` before it that has none yet.  So in a program that was
read, the consequent of an `if` with an `else` is not open-ended, and the program can be printed
without braces around it.

Splicing puts the expansion of a call in the place of the call and does not look at what stands
around it.  An open-ended statement can get before an `else` that way, but in no other.
-/

namespace MacroScript

open MacroScript.Outcome

/-- In a compiled unit, every `else` belongs to the nearest `if` exactly if no call before an
`else` is replaced by a single open-ended statement. -/
theorem expandSource_keepsElse_iff {options : CompileOptions} {source : String}
    {session after : Session} {expanded : Program}
    (run : expandSource options source session = .ok expanded after) :
    ∃ program read, Session.readProgram source session = .ok program read ∧
      ((expanded.Everywhere fun node => node.keepsElse = true) ↔
        ∀ call span result stmt,
          Compile.Replaces options.recordTrace expansionLimit program read
              ⟨.guarded, .stmt (.expression (.invocation call) span)⟩ result →
            result.body = [stmt] → stmt.openEnded = false) := by
  rcases expandSource_check_iff .branch run with ⟨program, read, readRun, checked⟩
  refine ⟨program, read, readRun, checked.trans ?_⟩
  constructor
  · intro fills call span result stmt replaces body
    have filled := fills _ _ replaces
    rw [body] at filled
    simpa [Restriction.fills] using filled
  · intro closed slot result replaces
    unfold Restriction.fills
    split
    case h_1 call span stmt _ body => simp [closed call span result stmt replaces body]
    case h_2 => contradiction
    case h_3 => rfl

/-! ## A call before an `else` -/

/-- A macro with the given body, called between an `if` and its `else`. -/
def calledBeforeElse (body : String) : String :=
  "macro m \x7b () => \x7b " ++ body ++ " \x7d \x7d if (x) m(); else y;"

/-- An `if` with an `else` of its own may stand there. -/
theorem calledBeforeElse_complete :
    ∃ expanded after program read,
      expandSource {} (calledBeforeElse "if (a) b; else c;") {} = .ok expanded after ∧
        Session.readProgram (calledBeforeElse "if (a) b; else c;") {} = .ok program read ∧
          (expanded.Everywhere fun node => node.keepsElse = true) ∧
            ∀ call span result stmt,
              Compile.Replaces false expansionLimit program read
                  ⟨.guarded, .stmt (.expression (.invocation call) span)⟩ result →
                result.body = [stmt] → stmt.openEnded = false := by
  have yielded : yields (fun expanded : Program =>
      (Block.slots expanded).all (Slot.passes (fun slot => slot.node.keepsElse) 4))
      (expandSource {} (calledBeforeElse "if (a) b; else c;") {}) = true := by
    decide +kernel
  rcases exists_ok_of_yields yielded with ⟨expanded, after, run, passed⟩
  rcases expandSource_keepsElse_iff run with ⟨program, read, readRun, keeps⟩
  have kept : expanded.Everywhere fun node => node.keepsElse = true :=
    Program.everywhere_of_passes passed
  exact ⟨expanded, after, program, read, run, readRun, kept, keeps.mp kept⟩

/-- The `else` is taken over by an `if` that has none, also in the printed text. -/
theorem calledBeforeElse_openEnded :
    ∃ expanded after printed,
      expandSource {} (calledBeforeElse "if (a) b;") {} = .ok expanded after ∧
        ¬ (expanded.Everywhere fun node => node.keepsElse = true) ∧
          print expanded {} = .ok printed ∧ printed.code = "if (x) if (a) b; else y;\n" := by
  have yielded : yields (fun expanded : Program =>
      (Block.slots expanded).any (fun slot => !slot.node.keepsElse) &&
        (print expanded {}).toOption.any (·.code == "if (x) if (a) b; else y;\n"))
      (expandSource {} (calledBeforeElse "if (a) b;") {}) = true := by
    decide +kernel
  rcases exists_ok_of_yields yielded with ⟨expanded, after, run, holds⟩
  rw [Bool.and_eq_true] at holds
  rcases holds with ⟨taken, text⟩
  cases printing : print expanded {} with
  | error fault => simp [printing, Except.toOption] at text
  | ok printed =>
    refine ⟨expanded, after, printed, run, Program.not_everywhere_of_any taken, printing, ?_⟩
    simpa [printing, Except.toOption] using text

end MacroScript
