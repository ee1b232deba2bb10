import MacroScript.Proofs.Isolation

/-!
# Options only observe

The options of a unit ask for a trace, for a source map and for its contents, and they name
the source.  The trace is kept in the session that readers and expansions work in, so what
they come to could depend on it.  It does not: two runs of a unit under any options are in
step, they come to the same tree or to the same fault, and the tree is written as the same
code.
-/

namespace MacroScript

open MacroScript.Outcome

/-- What a diagnostic says, without the source it is shown with. -/
def Diagnostic.unsourced (diagnostic : Diagnostic) : Diagnostic :=
  { diagnostic with source := none }

/-- Expanding a unit comes to the same answer under all options. -/
theorem answer_expandSource (options other : CompileOptions) (source : String) :
    answer (expandSource options source {}) = answer (expandSource other source {}) := by
  have alike := Session.alike_of_unused .all {} {} rfl rfl 0 rfl
  have covered : ∀ tokens, tokenize source = .ok tokens → Vocabulary.all.Covers tokens :=
    fun _ _ _ _ => trivial
  have paired := inStep_expandSource_options options other covered {} {} alike
  generalize run : expandSource options source {} = first at paired ⊢
  generalize expandSource other source {} = second at paired ⊢
  cases paired with
  | error _ => rfl
  | @ok program after _ _ shown =>
    obtain ⟨read, middle, _, compiled⟩ := bind_eq_ok_iff.mp run
    have free := (Splice.replaced_spliceProgram compiled).macroFree Compile.macroFree_expandWithin
    exact congrArg Except.ok (Renumbering.program_of_macroFree rfl free shown).symm

/-- The options and the source text decide about the map only. -/
theorem map_code_generate (options other : CompileOptions) (program : Program)
    (source : Option String) :
    (generate options program source).map Printed.code =
      (generate other program source).map Printed.code := by
  simp only [generate, print]
  split <;> rfl

/-- Reading, expanding and printing: the fault, or the code of the tree that expanding comes
to. -/
theorem map_code_compileUnit (options : CompileOptions) (source : String) (session : Session) :
    (answer (compileUnit options source session)).map Printed.code =
      (answer (expandSource options source session)).bind fun program =>
        (generate options program (some source)).map Printed.code := by
  simp only [compileUnit, bind, EStateM.bind]
  cases expandSource options source session with
  | error fault after => rfl
  | ok program after =>
    simp only [answer, Except.bind]
    cases generate options program (some source) <;> rfl

/-- A compilation is what the unit comes to in a new session; a fault is reported with the
source added. -/
theorem unsourced_compileSource (options : CompileOptions) (source : String) :
    ((compileSource options source).map Printed.code).mapError Diagnostic.unsourced =
      ((answer (compileUnit options source {})).map Printed.code).mapError Diagnostic.ofFault := by
  unfold compileSource
  cases compileUnit options source {} <;> rfl

/-- Under all options a unit compiles to the same code, or to a diagnostic that says the same
(kind, wording, macro, place, notes and hint) and may only name another source. -/
theorem compileSource_unobserved (options other : CompileOptions) (source : String) :
    ((compileSource options source).map Printed.code).mapError Diagnostic.unsourced =
      ((compileSource other source).map Printed.code).mapError Diagnostic.unsourced := by
  have code : (fun program => (generate options program (some source)).map Printed.code) =
      fun program => (generate other program (some source)).map Printed.code :=
    funext fun program => map_code_generate options other program (some source)
  rw [unsourced_compileSource, unsourced_compileSource, map_code_compileUnit,
    map_code_compileUnit, answer_expandSource options other, code]

end MacroScript
