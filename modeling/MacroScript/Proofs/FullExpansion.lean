import MacroScript.Compile
import MacroScript.Proofs.Printable
import MacroScript.Proofs.Splicing

/-!
# Full expansion

A compiled program has neither a macro declaration nor a macro call left, however
deeply calls were nested in the source or in expansions.  The proof follows the run
of the pass: splicing keeps only names of the tree it walks and takes everything
else from expansions, which are compiled themselves, one level of nesting less.

Programs without macro nodes are exactly those that can be printed.
-/

namespace MacroScript

open MacroScript.Outcome

variable {session after : Session} {program : Program}

/-! ## Compiled programs -/

/-- Splicing leaves no macro node, when expansions have none. -/
theorem Splice.Replaced.macroFree {handler : Splice.Handler} {leaves spliced : List Leaf}
    (replaced : Splice.Replaced handler leaves session spliced after)
    (expansions : ∀ {call session program after},
      handler call session = .ok program after → MacroFree (Leaf.ofProgram program)) :
    MacroFree spliced := by
  induction replaced with
  | nil => exact MacroFree.nil
  | keep kept _ ih => exact (MacroFree.cons_iff _ _).mpr ⟨kept, ih⟩
  | drop _ ih => exact ih
  | call expanded _ ih => exact (MacroFree.append_iff _ _).mpr ⟨expansions expanded, ih⟩

/-- The result of expanding a call to some depth has no macro node. -/
theorem Compile.macroFree_expandWithin {recordTrace : Bool} {depth : Nat} {call : Invocation}
    (run : expandWithin recordTrace depth call session = .ok program after) :
    MacroFree (Leaf.ofProgram program) := by
  induction depth generalizing call session program after with
  | zero => exact absurd run throw_ne_ok
  | succ depth ih =>
    simp only [expandWithin, bind_eq_ok_iff, pure_eq_ok_iff] at run
    obtain ⟨_, _, _, _, _, _, _, _, spliceRun, _, _, _, rfl, _⟩ := run
    exact (Splice.replaced_spliceProgram spliceRun).macroFree ih

/-- Expanding every call leaves no macro node. -/
theorem macroFree_compile {options : CompileOptions} {expanded : Program}
    (run : compile options program session = .ok expanded after) :
    MacroFree (Leaf.ofProgram expanded) :=
  (Splice.replaced_spliceProgram run).macroFree Compile.macroFree_expandWithin

/-- A compiled program has no macro node, so it prints under all options. -/
theorem compile_fullyExpands {options : CompileOptions} {program expanded : Program}
    {session after : Session} (run : compile options program session = .ok expanded after) :
    MacroFree (Leaf.ofProgram expanded) ∧
      ∀ printOptions, ∃ printed, print expanded printOptions = .ok printed := by
  have macroFree := macroFree_compile run
  exact ⟨macroFree, fun printOptions => (print_isOk_iff expanded printOptions).mpr macroFree⟩

/-- A call in a branch, whose expansion has a call in an argument. -/
def nestedCalls : String :=
  "macro one \x7b () => \x7b 1 \x7d \x7d macro go \x7b () => \x7b f(one()) \x7d \x7d if (x) go();"

/-- The calls of `nestedCalls` are compiled away. -/
theorem compile_nestedCalls :
    ∃ program session expanded after,
      Session.readProgram nestedCalls {} = .ok program session ∧
        ¬ MacroFree (Leaf.ofProgram program) ∧
          compile {} program session = .ok expanded after ∧
            MacroFree (Leaf.ofProgram expanded) ∧
              ∀ printOptions, ∃ printed, print expanded printOptions = .ok printed := by
  let steps : SessionM Program := do
    let program ← Session.readProgram nestedCalls
    let _ ← compile {} program
    return program
  have yielded : yields (fun program => (Leaf.ofProgram program).any Leaf.isMacro) (steps {}) =
      true := by
    decide +kernel
  obtain ⟨program, after, run, hasMacro⟩ := exists_ok_of_yields yielded
  simp only [steps, bind_eq_ok_iff, pure_eq_ok_iff] at run
  obtain ⟨_, session, readRun, expanded, _, compileRun, rfl, rfl⟩ := run
  refine ⟨_, session, expanded, _, readRun, ?_, compileRun, compile_fullyExpands compileRun⟩
  intro macroFree
  obtain ⟨leaf, leafMem, isMacro⟩ := List.any_eq_true.mp hasMacro
  rw [macroFree leaf leafMem] at isMacro
  cases isMacro

end MacroScript
