import MacroScript.Proofs.Slots.Compile

/-!
# Assignment targets

The grammar only lets identifiers and members be assigned to, counted up or down, or set by a
loop over a collection.  A macro call may stand there too, since its expansion can be one of
them.

The expansion is not looked at when it is put in the place of the call.  So a target can become
something else that way, but in no other.
-/

namespace MacroScript

open MacroScript.Outcome

/-- In a compiled unit, only identifiers and members are assigned to exactly if no call that is
assigned to is replaced by another expression. -/
theorem expandSource_assignsPlace_iff {options : CompileOptions} {source : String}
    {session after : Session} {expanded : Program}
    (run : expandSource options source session = .ok expanded after) :
    ∃ program read, Session.readProgram source session = .ok program read ∧
      ((expanded.Everywhere fun node => node.assignsPlace = true) ↔
        ∀ call result value span,
          Compile.Replaces options.recordTrace expansionLimit program read
              ⟨.target, .expr (.invocation call)⟩ result →
            result.body = [.expression value span] → value.isPlace = true) := by
  rcases expandSource_check_iff .assignment run with ⟨program, read, readRun, checked⟩
  refine ⟨program, read, readRun, checked.trans ?_⟩
  constructor
  · intro fills call result value span replaces body
    have filled := fills _ _ replaces
    rwa [body] at filled
  · intro places slot result replaces
    unfold Restriction.fills
    split
    case h_1 => contradiction
    case h_2 call value span _ body => exact places call result value span replaces body
    case h_3 => rfl

/-! ## A call that is assigned to -/

/-- A macro with the given body, called in every place that is assigned to. -/
def assignedCalls (body : String) : String :=
  "macro m \x7b () => \x7b " ++ body ++ " \x7d \x7d m() = 2; m()++; for (m() of xs) y;"

/-- Members may be assigned to. -/
theorem assignedCalls_member :
    ∃ expanded after program read,
      expandSource {} (assignedCalls "o.p") {} = .ok expanded after ∧
        Session.readProgram (assignedCalls "o.p") {} = .ok program read ∧
          (expanded.Everywhere fun node => node.assignsPlace = true) ∧
            ∀ call result value span,
              Compile.Replaces false expansionLimit program read
                  ⟨.target, .expr (.invocation call)⟩ result →
                result.body = [.expression value span] → value.isPlace = true := by
  have yielded : yields (fun expanded : Program =>
      (Block.slots expanded).all (Slot.passes (fun slot => slot.node.assignsPlace) 4))
      (expandSource {} (assignedCalls "o.p") {}) = true := by
    decide +kernel
  rcases exists_ok_of_yields yielded with ⟨expanded, after, run, passed⟩
  rcases expandSource_assignsPlace_iff run with ⟨program, read, readRun, assigns⟩
  have assigned : expanded.Everywhere fun node => node.assignsPlace = true :=
    Program.everywhere_of_passes passed
  exact ⟨expanded, after, program, read, run, readRun, assigned, assigns.mp assigned⟩

/-- A number is assigned to, and the printed text cannot be read again. -/
theorem assignedCalls_number :
    ∃ expanded after printed fault,
      expandSource {} (assignedCalls "1") {} = .ok expanded after ∧
        ¬ (expanded.Everywhere fun node => node.assignsPlace = true) ∧
          print expanded {} = .ok printed ∧ parse printed.code = .error fault := by
  have yielded : yields (fun expanded : Program =>
      (Block.slots expanded).any (fun slot => !slot.node.assignsPlace) &&
        (print expanded {}).toOption.any fun printed => (parse printed.code).toOption.isNone)
      (expandSource {} (assignedCalls "1") {}) = true := by
    decide +kernel
  rcases exists_ok_of_yields yielded with ⟨expanded, after, run, holds⟩
  rw [Bool.and_eq_true] at holds
  rcases holds with ⟨assigned, unreadable⟩
  cases printing : print expanded {} with
  | error fault => simp [printing, Except.toOption] at unreadable
  | ok printed =>
    cases reading : parse printed.code with
    | ok again => simp [printing, reading, Except.toOption] at unreadable
    | error fault =>
      exact ⟨expanded, after, printed, fault, run, Program.not_everywhere_of_any assigned,
        printing, reading⟩

end MacroScript
