import MacroScript.Proofs.Splicing

/-!
# Splicing as a series of expansions

Splicing touches the session only through the handler of calls, which it runs on the calls
of the tree, and complains in the name of a macro about expansions that do not fit.
`Driven` has one constructor for each way in which such an action is put together, and
splicing a tree is an action of this kind.
-/

namespace MacroScript.Splice

/-- An action that runs the handler on calls among the leaves, and otherwise complains about
their expansions at most. -/
inductive Driven (handler : Handler) : List Leaf → {α : Type} → SessionM α → Prop
  | pure {α : Type} (leaves : List Leaf) (value : α) :
      Driven handler leaves (pure value : SessionM α)
  | complain {α : Type} (call : Invocation) (problem : ExpansionProblem) :
      Driven handler [.call call]
        (throw (.expansion call.name.name call.span problem) : SessionM α)
  | call (invocation : Invocation) : Driven handler [.call invocation] (handler invocation)
  | bind {α β : Type} {first second : List Leaf} {action : SessionM α} {next : α → SessionM β}
      (one : Driven handler first action) (two : ∀ value, Driven handler second (next value)) :
      Driven handler (first ++ second) (action >>= next)
  | mono {α : Type} {first leaves : List Leaf} {action : SessionM α}
      (driven : Driven handler first action) (subset : first ⊆ leaves) :
      Driven handler leaves action

variable {handler : Handler}

/-- An expansion in the place of an expression must be one expression. -/
theorem driven_callExpression (call : Invocation) :
    Driven handler [.call call] (callExpression handler call) := by
  have twice : Driven handler ([.call call] ++ [.call call]) (callExpression handler call) := by
    refine (Driven.call call).bind fun program => ?_
    cases taken : asExpression call program.body with
    | ok value => exact .pure _ _
    | error fault =>
      unfold asExpression at taken
      split at taken
      · cases taken
        exact .complain _ _
      · cases taken
      · cases taken
        exact .complain _ _
      · cases taken
        exact .complain _ _
  exact twice.mono (List.append_subset.mpr ⟨List.Subset.refl _, List.Subset.refl _⟩)

/-- What is spliced piece by piece runs the handler on the calls at the marks. -/
theorem Spliced.driven {r : Renumbering} {two : Handler} {α : Type} {done marks : List Mark}
    {origin : α} {first second : SessionM α} {map : α → α} {view : α → List Mark}
    (spliced : Spliced r handler two done marks origin first second map view) :
    Driven handler (Mark.leaves marks) first := by
  induction spliced with
  | pure same seen => exact .pure _ _
  | @keep _ _ _ _ _ _ _ _ mark kept rest ih =>
    rw [← List.singleton_append, Mark.leaves_append]
    exact ih.mono (List.subset_append_right _ _)
  | drop rest ih => exact ih.mono (List.subset_cons_self _ _)
  | call call origin => exact .call call
  | callExpression call => exact driven_callExpression call
  | bind front back unchanged ih ihBack =>
    rw [Mark.leaves_append]
    exact ih.bind ihBack
  | frame inner ih => exact ih

/-- Splicing a program runs the handler on its calls. -/
theorem driven_spliceProgram (program : Program) :
    Driven handler (Leaf.ofProgram program) (spliceProgram handler program) := by
  rw [Leaf.ofProgram, ← Mark.leaves_contents]
  exact (spliced_spliceProgram {} handler handler program).driven

end MacroScript.Splice
